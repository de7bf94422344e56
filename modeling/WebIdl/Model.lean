import WebIdl.Corpus
import WebIdl.Merged
import WebIdl.Report
import WebIdl.Resolution

namespace WebIdl

/-- All definitions of a corpus, in the order of their names. A handle gives the place of the
    definition that it refers to. -/
structure Model where
  definitions : List ResolvedDefinition
deriving DecidableEq, Repr

namespace Model

def size (model : Model) : Nat := model.definitions.length

def isEmpty (model : Model) : Bool := model.definitions.isEmpty

def place? (model : Model) (identifier : Identifier) : Option UInt32 :=
  (model.definitions.findIdx? (·.identifier = identifier)).map .ofNat

def get? (model : Model) (identifier : Identifier) : Option ResolvedDefinition := do
  model.definitions[(← model.place? identifier).toNat]?

def getByName? (model : Model) (interner : Interner) (name : String) :
    Option ResolvedDefinition := do
  model.get? (← interner.find? name)

def ofKind (model : Model) (kind : Kind) : List ResolvedDefinition :=
  model.definitions.filter (·.kind = kind)

/-- Follows a handle. A handle of another model may lead nowhere or to another definition. -/
def resolve (model : Model) (interner : Interner) (handle : Handle) :
    Except Fault ResolvedDefinition :=
  match model.definitions[handle.definition.toNat]? with
  | some definition => if definition.identifier = handle.identifier then .ok definition else foreign
  | none => foreign
where
  foreign : Except Fault ResolvedDefinition := do
    throw (.foreignHandle handle.definition (← interner.lookup handle.identifier))

/-- Merges and resolves the whole corpus. Definitions that could not be merged are left out of
    resolution, so that one run finds every problem. -/
def ofCorpus (policy : AttributePolicy) (interner : Interner) (corpus : Corpus) :
    Except Fault (Except Report Model) := do
  let merged ← Merged.ofGroups policy interner corpus.groups
  let resolution ← Resolution.ofDefinitions interner merged.failed merged.definitions
  match merged.problems ++ resolution.problems with
  | [] => return .ok ⟨resolution.definitions⟩
  | problems => return .error (.ofProblems problems)

end Model

end WebIdl
