import WebIdl.ExtendedAttribute.Basic
import WebIdl.Identifier
import WebIdl.SourceLocation

namespace WebIdl

structure Component where
  name : Identifier
deriving DecidableEq, Repr

def Component.unspecified : Component := ⟨.empty⟩

instance : Inhabited Component := ⟨.unspecified⟩

/-- The fragment that a member comes from, as far as a reader of the merged definition needs it. -/
structure Origin where
  component : Component
  isPartial : Bool
deriving DecidableEq, Repr, Inhabited

inductive Qualifier where
  | static
  | readonly
  | inherits
  | stringifier
  | getter
  | setter
  | deleter
deriving DecidableEq, Repr

def Qualifier.all : List Qualifier :=
  [.static, .readonly, .inherits, .stringifier, .getter, .setter, .deleter]

def Qualifier.text : Qualifier → String
  | .static => "static"
  | .readonly => "readonly"
  | .inherits => "inherit"
  | .stringifier => "stringifier"
  | .getter => "getter"
  | .setter => "setter"
  | .deleter => "deleter"

/-- A set of qualifiers, listed in the order of `Qualifier.all`. -/
structure Qualifiers where
  entries : List Qualifier
deriving DecidableEq, Repr

namespace Qualifiers

def empty : Qualifiers := ⟨[]⟩

instance : Inhabited Qualifiers := ⟨empty⟩

def ofList (qualifiers : List Qualifier) : Qualifiers :=
  ⟨Qualifier.all.filter qualifiers.contains⟩

def special : Qualifiers := ⟨[.getter, .setter, .deleter]⟩

def contains (qualifiers : Qualifiers) (qualifier : Qualifier) : Bool :=
  qualifiers.entries.contains qualifier

def intersects (one other : Qualifiers) : Bool := one.entries.any other.contains

end Qualifiers

structure Argument (τ : Type) where
  name : Identifier
  type : τ
  isOptional : Bool
  isVariadic : Bool
  default : Option String
  attributes : ExtendedAttributes
deriving DecidableEq, Repr

inductive Member.Shape (τ : Type) where
  | attr (name : Identifier) (type : τ) (qualifiers : Qualifiers)
  | operation (name : Identifier) (returnType : τ) (arguments : List (Argument τ))
      (qualifiers : Qualifiers)
  | constant (name : Identifier) (type : τ) (value : String)
  | constructor (arguments : List (Argument τ))
deriving DecidableEq, Repr

structure Member (τ : Type) where
  shape : Member.Shape τ
  attributes : ExtendedAttributes
  locations : Locations
  origin : Origin
deriving DecidableEq, Repr

structure DictionaryMember (τ : Type) where
  name : Identifier
  type : τ
  isRequired : Bool
  default : Option String
  attributes : ExtendedAttributes
  locations : Locations
  origin : Origin
deriving DecidableEq, Repr

inductive Position where
  | attr (name : Identifier)
  | operationReturn (operation : Identifier)
  | operationArgument (operation argument : Identifier)
  | constructorArgument (argument : Identifier)
  | constant (name : Identifier)
  | dictionaryMember (name : Identifier)
  | callbackReturn
  | callbackArgument (argument : Identifier)
  | typedefTarget
  | inheritance
  | includes
deriving DecidableEq, Repr

variable {m : Type → Type} [Monad m] {σ τ : Type}

namespace Argument

def mapTypeM (position : Identifier → Position) (f : Position → τ → m σ) (argument : Argument τ) :
    m (Argument σ) :=
  return { argument with type := ← f (position argument.name) argument.type }

end Argument

namespace Member

/-- The name of the member. Constructors have none, and a special operation may have the empty
    one. -/
def name? (member : Member τ) : Option Identifier :=
  match member.shape with
  | .attr name .. | .operation name .. | .constant name .. => some name
  | .constructor _ => none

def arguments (member : Member τ) : List (Argument τ) :=
  match member.shape with
  | .operation _ _ arguments _ | .constructor arguments => arguments
  | .attr .. | .constant .. => []

def isAttr (member : Member τ) : Bool :=
  match member.shape with
  | .attr .. => true
  | _ => false

def isOperation (member : Member τ) : Bool :=
  match member.shape with
  | .operation .. => true
  | _ => false

def isConstant (member : Member τ) : Bool :=
  match member.shape with
  | .constant .. => true
  | _ => false

def isConstructor (member : Member τ) : Bool :=
  match member.shape with
  | .constructor _ => true
  | _ => false

def types (member : Member τ) : List τ :=
  match member.shape with
  | .attr _ type _ | .constant _ type _ => [type]
  | .operation _ returnType arguments _ => returnType :: arguments.map (·.type)
  | .constructor arguments => arguments.map (·.type)

def setOrigin (member : Member τ) (origin : Origin) : Member τ := { member with origin }

def Shape.mapTypesM (f : Position → τ → m σ) : Shape τ → m (Shape σ)
  | .attr name type qualifiers => return .attr name (← f (.attr name) type) qualifiers
  | .operation name returnType arguments qualifiers => do
    let returnType ← f (.operationReturn name) returnType
    let arguments ← arguments.mapM (·.mapTypeM (.operationArgument name) f)
    return .operation name returnType arguments qualifiers
  | .constant name type value => return .constant name (← f (.constant name) type) value
  | .constructor arguments =>
    return .constructor (← arguments.mapM (·.mapTypeM .constructorArgument f))

def mapTypesM (f : Position → τ → m σ) (member : Member τ) : m (Member σ) :=
  return { member with shape := ← member.shape.mapTypesM f }

end Member

namespace DictionaryMember

def setOrigin (member : DictionaryMember τ) (origin : Origin) : DictionaryMember τ :=
  { member with origin }

def mapTypeM (f : Position → τ → m σ) (member : DictionaryMember τ) : m (DictionaryMember σ) :=
  return { member with type := ← f (.dictionaryMember member.name) member.type }

end DictionaryMember

end WebIdl
