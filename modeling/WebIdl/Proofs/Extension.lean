import Mathlib.Data.List.NodupEquivFin
import WebIdl.Proofs.Outcome
import WebIdl.Proofs.Renaming

namespace WebIdl

structure Problem.Blames (interner : Interner) (blamed : Identifier → Prop) (problem : Problem) :
    Prop where
  identifier : blamed problem.identifier
  name : interner.spelling? problem.identifier = some problem.name
  cycle : ∀ names locations, problem.cause = .inheritanceCycle names locations →
    ∀ name ∈ names, ∃ identifier, blamed identifier ∧ interner.spelling? identifier = some name

theorem Problem.Blames.mono {interner : Interner} {blamed blamed' : Identifier → Prop}
    {problem : Problem} (blames : problem.Blames interner blamed)
    (weaker : ∀ identifier, blamed identifier → blamed' identifier) :
    problem.Blames interner blamed' where
  identifier := weaker _ blames.identifier
  name := blames.name
  cycle names locations isCycle name member := by
    obtain ⟨identifier, isBlamed, spelled⟩ := blames.cycle names locations isCycle name member
    exact ⟨identifier, weaker identifier isBlamed, spelled⟩

theorem Inherits.known {definitions : List RawDefinition} {parent child : Identifier}
    (inherits : Inherits definitions parent child) : parent ∈ definitions.map (·.identifier) := by
  obtain ⟨_, -, -, -, definition, member, rfl, -⟩ := inherits
  exact List.mem_map_of_mem member

/-- The larger list has further definitions, and no reference in the smaller one needs them. -/
structure Extends (interner : Interner) (definitions larger : List RawDefinition) : Prop where
  sublist : definitions.Sublist larger
  distinct : DistinctlyNamed larger
  held : ∀ definition ∈ larger, interner.Holds definition.identifier
  references : ∀ definition ∈ definitions, ∀ occurrence ∈ definition.body.occurrences,
    occurrence.Satisfies (IsType definitions interner) (IsDefined definitions)

namespace Extends

variable {interner : Interner} {definitions larger : List RawDefinition} {failed : List Identifier}

theorem distinct_smaller (extension : Extends interner definitions larger) :
    DistinctlyNamed definitions :=
  List.Nodup.sublist (extension.sublist.map _) extension.distinct

theorem eq_of_identifier (extension : Extends interner definitions larger)
    {one other : RawDefinition} (member : one ∈ definitions) (member' : other ∈ larger)
    (same : one.identifier = other.identifier) : one = other :=
  List.inj_on_of_nodup_map extension.distinct (extension.sublist.subset member) member' same

theorem inherits (extension : Extends interner definitions larger) {parent child : Identifier}
    (inherits : Inherits larger parent child)
    (known : child ∈ definitions.map (·.identifier)) : Inherits definitions parent child := by
  obtain ⟨definition, member, rfl⟩ := List.mem_map.mp known
  obtain ⟨definition', member', same, stated, -⟩ := inherits
  obtain rfl := extension.eq_of_identifier member member' same.symm
  have parents := (Body.forall_occurrences_iff.mp (extension.references definition member)).1
  exact ⟨definition, member, rfl, stated, parents parent stated⟩

theorem transGen (extension : Extends interner definitions larger) {ancestor child : Identifier}
    (above : Relation.TransGen (Inherits larger) ancestor child)
    (known : child ∈ definitions.map (·.identifier)) :
    Relation.TransGen (Inherits definitions) ancestor child := by
  -- ancestors are added in front of the child, since at first only the child is known to be old
  induction above using Relation.TransGen.head_induction_on with
  | single inherits => exact .single (extension.inherits inherits known)
  | head inherits _ ih =>
    obtain ⟨_, next, -⟩ := Relation.TransGen.head'_iff.mp ih
    exact .head (extension.inherits inherits next.known) ih

/-- A walk may enter the old definitions, but a cycle through one of them would lie in them. -/
theorem not_mem_cycle (extension : Extends interner definitions larger)
    (acyclic : ∀ identifier, ¬ Relation.TransGen (Inherits definitions) identifier identifier)
    {cycle : List Identifier}
    (isCycle : cycle ∈ (Scope.ofDefinitions interner larger failed).cycles larger) :
    ∀ item ∈ cycle, item ∉ definitions.map (·.identifier) := by
  intro item onCycle known
  have around := (Inheritance.isCycle_of_mem_loops isCycle).1.transGen item onCycle
  rw [Scope.isParent_eq_inherits extension.distinct] at around
  exact acyclic item (extension.transGen around known)

theorem exists_place (extension : Extends interner definitions larger)
    (failed : List Identifier) {definition : RawDefinition} (member : definition ∈ definitions) :
    ∃ place, (Scope.ofDefinitions interner larger failed).find? definition.identifier
      = some (definition, place) := by
  obtain ⟨place, placed⟩ := List.mem_iff_getElem?.mp (extension.sublist.subset member)
  exact ⟨place, (Scope.find?_eq_some_iff extension.distinct).mpr ⟨placed, rfl⟩⟩

theorem causeAt?_eq_none (extension : Extends interner definitions larger)
    {locations : Locations} {occurrence : Occurrence}
    (satisfied : occurrence.Satisfies (IsType definitions interner) (IsDefined definitions)) :
    (Scope.ofDefinitions interner larger failed).causeAt? locations occurrence = none := by
  cases occurrence with
  | type position name =>
    unfold Scope.causeAt?
    rcases satisfied with builtin | ⟨definition, member, rfl⟩
    · have isBuiltin := BuiltinType.isSome_ofSpelling?_iff.mpr builtin
      obtain ⟨type, found⟩ := Option.isSome_iff_exists.mp isBuiltin
      simp only [Scope.ofDefinitions, found]
    · obtain ⟨place, found⟩ := extension.exists_place failed member
      simp only [found]
      split <;> rfl
  | reference expected position name =>
    obtain ⟨definition, member, rfl, kind⟩ := satisfied
    obtain ⟨place, found⟩ := extension.exists_place failed member
    simp only [Scope.causeAt?, found, if_pos kind]

theorem blames (extension : Extends interner definitions larger)
    (acyclic : ∀ identifier, ¬ Relation.TransGen (Inherits definitions) identifier identifier)
    {problem : Problem}
    (member : problem ∈ ((Scope.ofDefinitions interner larger failed).resolution larger).problems) :
    problem.Blames interner fun identifier => identifier ∈ larger.map (·.identifier)
      ∧ identifier ∉ definitions.map (·.identifier) := by
  have spelled {identifier : Identifier} (known : identifier ∈ larger.map (·.identifier)) :
      interner.spelling? identifier = some (interner.spell identifier) := by
    obtain ⟨definition, isDefinition, rfl⟩ := List.mem_map.mp known
    exact (extension.held definition isDefinition).spelling?_eq
  rcases Scope.mem_problems_resolution.mp member with
    ⟨cycle, isCycle, reported⟩ | ⟨definition, isDefinition, occurrence, inside, cause, isCause, rfl⟩
  · have known := (Inheritance.isCycle_of_mem_loops isCycle).2
    have new := extension.not_mem_cycle acyclic isCycle
    obtain ⟨identifier, onCycle, names, locations, rfl, listed⟩ :=
      Scope.exists_names_of_cycleProblem reported
    refine ⟨⟨known _ onCycle, new _ onCycle⟩, spelled (known _ onCycle), ?_⟩
    rintro _ _ ⟨⟩ name isName
    obtain ⟨item, onCycle, rfl⟩ := listed name isName
    exact ⟨item, ⟨known _ onCycle, new _ onCycle⟩, spelled (known _ onCycle)⟩
  · have known := List.mem_map_of_mem (f := Definition.identifier) isDefinition
    have new : definition.identifier ∉ definitions.map (·.identifier) := by
      intro old
      obtain ⟨definition', member', same⟩ := List.mem_map.mp old
      obtain rfl := extension.eq_of_identifier member' isDefinition same
      have resolved := extension.references definition' member' occurrence inside
      rw [extension.causeAt?_eq_none resolved] at isCause
      nomatch isCause
    refine ⟨⟨known, new⟩, spelled known, fun names locations isCycle => ?_⟩
    rcases Scope.causeAt?_eq_some_iff.mp isCause with
      ⟨-, rfl⟩ | ⟨_, _, _, _, -, -, -, rfl⟩ <;> nomatch isCycle

end Extends

def Handle.renumber (shift : Nat → Nat) (handle : Handle) : Handle :=
  { handle with definition := .ofNat (shift handle.definition.toNat) }

def Referent.renumber (shift : Nat → Nat) : Referent → Referent
  | .builtin type => .builtin type
  | .definition handle => .definition (handle.renumber shift)

def ResolvedDefinition.renumber (shift : Nat → Nat) (definition : ResolvedDefinition) :
    ResolvedDefinition where
  declaration := definition.declaration
  body := definition.body.map (fun _ handle => some (handle.renumber shift))
    (·.map (·.renumber shift))

namespace Extends

variable {interner : Interner} {definitions larger : List RawDefinition} {shift : Nat → Nat}

theorem exists_shift (extension : Extends interner definitions larger) :
    ∃ shift : Nat → Nat, StrictMono shift
      ∧ ∀ place, definitions[place]? = larger[shift place]? := by
  obtain ⟨shift, placed⟩ := List.sublist_iff_exists_orderEmbedding_getElem?_eq.mp extension.sublist
  exact ⟨shift, shift.strictMono, placed⟩

theorem find?_eq (extension : Extends interner definitions larger)
    (placed : ∀ place, definitions[place]? = larger[shift place]?) {definition : RawDefinition}
    (member : definition ∈ definitions) :
    ∃ place, place < definitions.length
      ∧ (Scope.ofDefinitions interner definitions []).find? definition.identifier
        = some (definition, place)
      ∧ (Scope.ofDefinitions interner larger []).find? definition.identifier
        = some (definition, shift place) := by
  obtain ⟨place, here⟩ := List.mem_iff_getElem?.mp member
  refine ⟨place, (List.getElem?_eq_some_iff.mp here).1, ?_, ?_⟩
  · exact (Scope.find?_eq_some_iff extension.distinct_smaller).mpr ⟨here, rfl⟩
  · exact (Scope.find?_eq_some_iff extension.distinct).mpr ⟨placed place ▸ here, rfl⟩

theorem renumber_handle (extension : Extends interner definitions larger) {place : Nat}
    (bound : place < definitions.length) (identifier : Identifier) :
    (⟨identifier, .ofNat place⟩ : Handle).renumber shift = ⟨identifier, .ofNat (shift place)⟩ := by
  rw [Handle.renumber, extension.distinct_smaller.toNat_ofNat_place bound]

theorem referent_eq (extension : Extends interner definitions larger)
    (placed : ∀ place, definitions[place]? = larger[shift place]?) {name : Identifier}
    (isType : IsType definitions interner name) :
    (Scope.ofDefinitions interner larger []).referent name
      = ((Scope.ofDefinitions interner definitions []).referent name).renumber shift := by
  have spelled (scope : Scope) (same : scope.interner = interner) :
      BuiltinType.ofSpelling? (scope.interner.spell name)
        = BuiltinType.ofSpelling? (interner.spell name) := by rw [same]
  unfold Scope.referent
  rw [spelled _ rfl, spelled _ rfl]
  cases found : BuiltinType.ofSpelling? (interner.spell name) with
  | some type => rfl
  | none =>
    rcases isType with builtin | ⟨definition, member, rfl⟩
    · rw [← BuiltinType.isSome_ofSpelling?_iff, found] at builtin
      nomatch builtin
    · obtain ⟨place, bound, old, new⟩ := extension.find?_eq placed member
      rw [Scope.handle?, Scope.handle?, old, new]
      exact congrArg Referent.definition (extension.renumber_handle bound _).symm

theorem reference?_eq (extension : Extends interner definitions larger)
    (placed : ∀ place, definitions[place]? = larger[shift place]?) {expected : Kind}
    {name : Identifier} (isDefined : IsDefined definitions expected name) :
    (Scope.ofDefinitions interner larger []).reference? expected name
      = ((Scope.ofDefinitions interner definitions []).reference? expected name).bind
        fun handle => some (handle.renumber shift) := by
  obtain ⟨definition, member, rfl, kind⟩ := isDefined
  obtain ⟨place, bound, old, new⟩ := extension.find?_eq placed member
  simp only [Scope.reference?, old, new, if_pos kind, Option.bind_some,
    extension.renumber_handle bound]

theorem resolved_eq (extension : Extends interner definitions larger)
    (placed : ∀ place, definitions[place]? = larger[shift place]?) {definition : RawDefinition}
    (member : definition ∈ definitions) :
    (Scope.ofDefinitions interner larger []).resolved definition
      = ((Scope.ofDefinitions interner definitions []).resolved definition).renumber shift := by
  obtain ⟨parents, mixins, types⟩ :=
    Body.forall_occurrences_iff.mp (extension.references definition member)
  refine congrArg (Definition.mk definition.declaration) ?_
  rw [Scope.resolved, Body.map_eq_rewrite, Body.map_eq_rewrite, Body.map_eq_rewrite,
    Body.rewrite_rewrite]
  apply Body.rewrite_congr
  · exact fun name _ => rfl
  · exact fun parent stated => extension.reference?_eq placed (parents parent stated)
  · exact fun mixin stated => extension.reference?_eq placed (mixins mixin stated)
  · intro given isType
    rw [TypeExpr.map_map]
    exact TypeExpr.map_congr fun name isLeaf =>
      extension.referent_eq placed (types given isType name isLeaf)

end Extends

end WebIdl
