import WebIdl.Identifier
import WebIdl.Kind

namespace WebIdl

/-- A misuse of the library by its caller, as opposed to a problem in the definitions it is given. -/
inductive Fault where
  | unknownIdentifier (identifier : Identifier)
  | wrongKind (expected found : Kind) (identifier : Identifier)
  | foreignHandle (definition : UInt32) (name : String)
deriving DecidableEq, Repr

namespace Fault

def downcastName (kind : Kind) : String :=
  "as_" ++ (kind.text.map fun letter => if letter = ' ' then '_' else letter)

def message : Fault → String
  | .unknownIdentifier identifier => s!"`{identifier.text}` was not interned here"
  | .wrongKind expected found identifier =>
    s!"`{downcastName expected}` called on {found.text} `{identifier.text}`"
  | .foreignHandle definition name =>
    s!"handle DefId({definition}) for `{name}` does not belong to this model"

end Fault

end WebIdl
