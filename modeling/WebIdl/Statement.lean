import WebIdl.Agreement
import WebIdl.Fragment

namespace WebIdl

/-- Something that all fragments of a definition must agree on, if they say it. -/
inductive Statement where
  | inheritance (parent : Identifier)
  | returnType (type : RawType)
  | arguments (arguments : List (Argument RawType))
  | values (values : List String)
  | target (type : RawType)
deriving DecidableEq, Repr

def Statement.field : Statement → String
  | .inheritance _ => "inheritance"
  | .returnType _ => "return type"
  | .arguments _ => "arguments"
  | .values _ => "values"
  | .target _ => "type"

def Statement.agreement : Agreement Statement String := ⟨Statement.field, fun _ => false⟩

def Body.statements : RawBody → List Statement
  | .interface inherited _ _ | .dictionary inherited _ =>
    (inherited.map Statement.inheritance).toList
  | .callbackFunction returnType arguments => [.returnType returnType, .arguments arguments]
  | .enumeration values => [.values values]
  | .typedef type => [.target type]
  | .interfaceMixin _ | .namespaceObject _ | .callbackInterface _ => []

/-- Adds the contents of a later fragment of the same kind. What only one fragment can say is
    taken from the earlier one that says it. -/
def Body.append : RawBody → RawBody → RawBody
  | .interface inherited members includes, .interface inherited' members' includes' =>
    .interface (inherited.or inherited') (members ++ members') (appendNew includes includes')
  | .interfaceMixin members, .interfaceMixin members' => .interfaceMixin (members ++ members')
  | .namespaceObject members, .namespaceObject members' => .namespaceObject (members ++ members')
  | .callbackInterface members, .callbackInterface members' =>
    .callbackInterface (members ++ members')
  | .dictionary inherited members, .dictionary inherited' members' =>
    .dictionary (inherited.or inherited') (members ++ members')
  | body, _ => body

def Body.withDistinctIncludes : RawBody → RawBody
  | .interface inherited members includes =>
    .interface inherited members (firstOccurrences includes)
  | body => body

end WebIdl
