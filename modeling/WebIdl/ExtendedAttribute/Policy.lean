namespace WebIdl

/-- Which extended attributes may be given several values. All others have one value that
    fragments must agree on. -/
structure AttributePolicy where
  repeatable : List String
deriving Repr

namespace AttributePolicy

def strict : AttributePolicy := ⟨[]⟩

def insert (policy : AttributePolicy) (key : String) : AttributePolicy :=
  ⟨policy.repeatable ++ [key]⟩

def standard : AttributePolicy := ⟨["Exposed", "LegacyFactoryFunction", "LegacyWindowAlias"]⟩

instance : Inhabited AttributePolicy := ⟨standard⟩

def isRepeatable (policy : AttributePolicy) (key : String) : Bool := policy.repeatable.contains key

def agrees (one other : AttributePolicy) : Bool :=
  one.repeatable.all other.isRepeatable && other.repeatable.all one.isRepeatable

end AttributePolicy

end WebIdl
