import WebIdl.Fragment

namespace WebIdl

structure Declaration where
  identifier : Identifier
  attributes : ExtendedAttributes
  hints : GeneratorHints
  overrides : List GeneratorHints.Override
  components : List Component
  locations : Locations
deriving DecidableEq, Repr

structure Definition (ρ τ : Type) where
  declaration : Declaration
  body : Body ρ τ
deriving DecidableEq, Repr

abbrev RawDefinition := Definition Identifier RawType

abbrev ResolvedDefinition := Definition Handle ResolvedType

def ResolvedDefinition.handles (definition : ResolvedDefinition) : List Handle :=
  definition.body.inherited?.toList ++ definition.body.includes
    ++ definition.body.types.flatMap ResolvedType.references

namespace Definition

variable {ρ τ : Type}

def identifier (definition : Definition ρ τ) : Identifier := definition.declaration.identifier

def kind (definition : Definition ρ τ) : Kind := definition.body.kind

def expect (definition : Definition ρ τ) (kind : Kind) : Except Fault (Body ρ τ) :=
  if definition.kind = kind then .ok definition.body
  else .error (.wrongKind kind definition.kind definition.identifier)

def enumerationValues (definition : Definition ρ τ) : Except Fault (List String) :=
  match definition.body with
  | .enumeration values => .ok values
  | _ => .error (.wrongKind .enumeration definition.kind definition.identifier)

def typedefTarget (definition : Definition ρ τ) : Except Fault τ :=
  match definition.body with
  | .typedef type => .ok type
  | _ => .error (.wrongKind .typedef definition.kind definition.identifier)

end Definition

end WebIdl
