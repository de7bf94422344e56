import WebIdl.Definition
import WebIdl.Inheritance
import WebIdl.Problem.Basic

namespace WebIdl

structure Scope where
  interner : Interner
  /-- Each definition with its place, from the last one to the first. -/
  known : List (RawDefinition × Nat)
  /-- Names whose fragments could not be merged. They count as defined. -/
  failed : List Identifier

namespace Scope

def ofDefinitions (interner : Interner) (definitions : List RawDefinition)
    (failed : List Identifier) : Scope :=
  ⟨interner, definitions.zipIdx.reverse, failed⟩

/-- The definition that owns a name, with its place. If several have the name, the last one owns
    it. -/
def find? (scope : Scope) (identifier : Identifier) : Option (RawDefinition × Nat) :=
  scope.known.find? (·.1.identifier = identifier)

def kind? (scope : Scope) (identifier : Identifier) : Option Kind :=
  (scope.find? identifier).map (·.1.kind)

def handle? (scope : Scope) (identifier : Identifier) : Option Handle :=
  (scope.find? identifier).map fun known => ⟨identifier, .ofNat known.2⟩

def parent? (scope : Scope) (identifier : Identifier) : Option Identifier := do
  let (definition, _) ← scope.find? identifier
  let parent ← definition.body.inherited?
  let kind ← scope.kind? parent
  if kind = definition.kind then some parent else none

def cycleProblem? (scope : Scope) (cycle : List Identifier) : Except Fault (Option Problem) := do
  let named ← cycle.mapM fun identifier => return (identifier, ← scope.interner.lookup identifier)
  match Inheritance.fromLeast named with
  | [] => return none
  | (identifier, name) :: rest =>
    let locations := ((scope.find? identifier).map (·.1.declaration.locations)).getD .empty
    return some ⟨identifier, name, .inheritanceCycle (name :: rest.map (·.2) ++ [name]) locations⟩

/-- Each inheritance cycle once, in the order in which walks from `definitions` meet them. -/
def cycleProblems (scope : Scope) (definitions : List RawDefinition) :
    Except Fault (List Problem) :=
  let identifiers := definitions.map (·.identifier)
  (Inheritance.loops scope.parent? identifiers identifiers).filterMapM scope.cycleProblem?

end Scope

end WebIdl
