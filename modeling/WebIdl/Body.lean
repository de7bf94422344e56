import WebIdl.Kind
import WebIdl.Member

namespace WebIdl

/-- The contents of a definition. `ρ` is how it refers to other definitions, `τ` how it expresses
    types. -/
inductive Body (ρ τ : Type) where
  | interface (inherited : Option ρ) (members : List (Member τ)) (includes : List ρ)
  | interfaceMixin (members : List (Member τ))
  | namespaceObject (members : List (Member τ))
  | callbackInterface (members : List (Member τ))
  | callbackFunction (returnType : τ) (arguments : List (Argument τ))
  | dictionary (inherited : Option ρ) (members : List (DictionaryMember τ))
  | enumeration (values : List String)
  | typedef (type : τ)
deriving DecidableEq, Repr

namespace Body

variable {ρ σ τ υ : Type}

def kind : Body ρ τ → Kind
  | .interface .. => .interface
  | .interfaceMixin _ => .interfaceMixin
  | .namespaceObject _ => .namespaceObject
  | .callbackInterface _ => .callbackInterface
  | .callbackFunction .. => .callbackFunction
  | .dictionary .. => .dictionary
  | .enumeration _ => .enumeration
  | .typedef _ => .typedef

def inherited? : Body ρ τ → Option ρ
  | .interface inherited _ _ | .dictionary inherited _ => inherited
  | _ => none

def includes : Body ρ τ → List ρ
  | .interface _ _ includes => includes
  | _ => []

def members : Body ρ τ → List (Member τ)
  | .interface _ members _ | .interfaceMixin members | .namespaceObject members
  | .callbackInterface members => members
  | _ => []

def dictionaryMembers : Body ρ τ → List (DictionaryMember τ)
  | .dictionary _ members => members
  | _ => []

def types : Body ρ τ → List τ
  | .callbackFunction returnType arguments => returnType :: arguments.map (·.type)
  | .typedef type => [type]
  | .dictionary _ members => members.map (·.type)
  | body => body.members.flatMap (·.types)

def setOrigin (origin : Origin) : Body ρ τ → Body ρ τ
  | .interface inherited members includes =>
    .interface inherited (members.map (·.setOrigin origin)) includes
  | .interfaceMixin members => .interfaceMixin (members.map (·.setOrigin origin))
  | .namespaceObject members => .namespaceObject (members.map (·.setOrigin origin))
  | .callbackInterface members => .callbackInterface (members.map (·.setOrigin origin))
  | .dictionary inherited members =>
    .dictionary inherited (members.map (·.setOrigin origin))
  | body => body

/-- Rewrites what the body refers to, in the order parent, included mixins, types. A reference
    comes with the kind that it must have, and is left out if `reference` gives nothing for it. -/
def mapM {m : Type → Type} [Monad m] (reference : Kind → Position → ρ → m (Option σ))
    (type : Position → τ → m υ) : Body ρ τ → m (Body σ υ)
  | .interface inherited members includes => do
    let inherited ← inherited.bindM (reference .interface .inheritance)
    let includes ← includes.filterMapM (reference .interfaceMixin .includes)
    return .interface inherited (← members.mapM (·.mapTypesM type)) includes
  | .interfaceMixin members => return .interfaceMixin (← members.mapM (·.mapTypesM type))
  | .namespaceObject members => return .namespaceObject (← members.mapM (·.mapTypesM type))
  | .callbackInterface members => return .callbackInterface (← members.mapM (·.mapTypesM type))
  | .callbackFunction returnType arguments => do
    let returnType ← type .callbackReturn returnType
    return .callbackFunction returnType (← arguments.mapM (·.mapTypeM .callbackArgument type))
  | .dictionary inherited members => do
    let inherited ← inherited.bindM (reference .dictionary .inheritance)
    return .dictionary inherited (← members.mapM (·.mapTypeM type))
  | .enumeration values => return .enumeration values
  | .typedef target => return .typedef (← type .typedefTarget target)

end Body

end WebIdl
