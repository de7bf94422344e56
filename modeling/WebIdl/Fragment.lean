import WebIdl.Body
import WebIdl.GeneratorHints
import WebIdl.TypeExpr.Resolved

namespace WebIdl

abbrev RawBody := Body Identifier RawType

structure Fragment where
  identifier : Identifier
  body : RawBody
  isPartial : Bool
  /-- The position of its file among the sources. -/
  sourceOrder : Nat
  component : Component
  attributes : ExtendedAttributes
  hints : GeneratorHints
  locations : Locations
deriving DecidableEq, Repr

namespace Fragment

def kind (fragment : Fragment) : Kind := fragment.body.kind

def origin (fragment : Fragment) : Origin := ⟨fragment.component, fragment.isPartial⟩

end Fragment

structure FragmentGroup where
  identifier : Identifier
  fragments : List Fragment
deriving DecidableEq, Repr

end WebIdl
