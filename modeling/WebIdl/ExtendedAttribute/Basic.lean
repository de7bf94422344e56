namespace WebIdl

namespace ExtendedAttribute

inductive Value where
  | flag
  | ident (name : String)
  | identList (names : List String)
  | arguments (values : List String)
  | namedArguments (name : String) (values : List String)
deriving DecidableEq, Repr

def Value.text : Value → String
  | .flag => ""
  | .ident name => s!"={name}"
  | .identList names => "=(" ++ ",".intercalate names ++ ")"
  | .arguments values => "(" ++ ", ".intercalate values ++ ")"
  | .namedArguments name values => s!"={name}(" ++ ", ".intercalate values ++ ")"

end ExtendedAttribute

structure ExtendedAttribute where
  key : String
  value : ExtendedAttribute.Value
deriving DecidableEq, Repr

namespace ExtendedAttribute

def text (entry : ExtendedAttribute) : String := entry.key ++ entry.value.text

end ExtendedAttribute

structure ExtendedAttributes where
  entries : List ExtendedAttribute
deriving DecidableEq, Repr

namespace ExtendedAttributes

def empty : ExtendedAttributes := ⟨[]⟩

instance : Inhabited ExtendedAttributes := ⟨empty⟩

def size (attributes : ExtendedAttributes) : Nat := attributes.entries.length

def isEmpty (attributes : ExtendedAttributes) : Bool := attributes.entries.isEmpty

def contains (attributes : ExtendedAttributes) (key : String) : Bool :=
  attributes.entries.any (·.key == key)

def get? (attributes : ExtendedAttributes) (key : String) : Option ExtendedAttribute :=
  attributes.entries.find? (·.key == key)

def valuesOf (attributes : ExtendedAttributes) (key : String) : List ExtendedAttribute.Value :=
  (attributes.entries.filter (·.key == key)).map (·.value)

def text (attributes : ExtendedAttributes) : String :=
  "[" ++ ", ".intercalate (attributes.entries.map (·.text)) ++ "]"

end ExtendedAttributes

end WebIdl
