import Mathlib
import WebIdl.Proofs.Building
import WebIdl.Proofs.Scoping

namespace WebIdl

theorem BuiltinType.isSome_ofSpelling?_iff {spelling : String} :
    (ofSpelling? spelling).isSome ↔ ∃ builtin : BuiltinType, builtin.spelling = spelling := by
  simp only [ofSpelling?, List.find?_isSome, beq_iff_eq]
  exact ⟨fun ⟨builtin, _, same⟩ => ⟨builtin, same⟩,
    fun ⟨builtin, same⟩ => ⟨builtin, builtin.mem_all, same⟩⟩

namespace Scope

theorem exists_cycleProblem (scope : Scope) {cycle : List Identifier} (nonempty : cycle ≠ []) :
    ∃ identifier name rest locations, scope.cycleProblem cycle
      = some ⟨identifier, name, .inheritanceCycle (name :: rest) locations⟩ := by
  unfold cycleProblem
  cases turned : Inheritance.fromLeast (cycle.map fun name => (name, scope.interner.spell name)) with
  | nil => exact absurd (List.map_eq_nil_iff.mp (Inheritance.fromLeast_eq_nil turned)) nonempty
  | cons least rest => exact ⟨_, _, _, _, rfl⟩

end Scope

section
variable (definitions : List RawDefinition)

def IsDefined (kind : Kind) (name : Identifier) : Prop :=
  ∃ definition ∈ definitions, definition.identifier = name ∧ definition.kind = kind

def Inherits (parent child : Identifier) : Prop :=
  ∃ definition ∈ definitions, definition.identifier = child
    ∧ definition.body.inherited? = some parent ∧ IsDefined definitions definition.kind parent

def IsType (interner : Interner) (name : Identifier) : Prop :=
  (∃ builtin : BuiltinType, builtin.spelling = interner.spell name)
    ∨ ∃ definition ∈ definitions, definition.identifier = name

end

namespace Scope

variable {interner : Interner} {definitions : List RawDefinition}

theorem causeAt?_eq_none_iff (distinct : DistinctlyNamed definitions) {locations : Locations}
    {occurrence : Occurrence} :
    (ofDefinitions interner definitions []).causeAt? locations occurrence = none ↔
      occurrence.Satisfies (IsType definitions interner) (IsDefined definitions) := by
  cases occurrence with
  | type position name =>
    rw [causeAt?_type_eq_none_iff, BuiltinType.isSome_ofSpelling?_iff]
    rfl
  | reference expected position name => exact causeAt?_reference_eq_none_iff distinct

theorem problemsOf_eq_nil_iff (distinct : DistinctlyNamed definitions)
    {definition : RawDefinition} :
    (ofDefinitions interner definitions []).problemsOf definition = [] ↔
      ∀ occurrence ∈ definition.body.occurrences,
        occurrence.Satisfies (IsType definitions interner) (IsDefined definitions) := by
  simp [problemsOf, problemsAt, List.flatMap_eq_nil_iff, causeAt?_eq_none_iff distinct]

theorem parent?_eq_none {failed : List Identifier} (identifier : Identifier)
    (absent : identifier ∉ definitions.map (·.identifier)) :
    (ofDefinitions interner definitions failed).parent? identifier = none := by
  have unknown : (ofDefinitions interner definitions failed).find? identifier = none := by
    refine find?_eq_none_iff.mpr fun definition member same => absent ?_
    exact same ▸ List.mem_map_of_mem member
  simp [parent?, unknown]

theorem isParent_eq_inherits (distinct : DistinctlyNamed definitions) {failed : List Identifier} :
    Inheritance.IsParent (ofDefinitions interner definitions failed).parent?
      = Inherits definitions := by
  funext parent child
  exact propext (parent?_eq_some_iff distinct)

theorem cycles_eq_nil_iff (distinct : DistinctlyNamed definitions) {failed : List Identifier} :
    (ofDefinitions interner definitions failed).cycles definitions = [] ↔
      ∀ identifier, ¬ Relation.TransGen (Inherits definitions) identifier identifier := by
  rw [cycles, Inheritance.loops_eq_nil_iff parent?_eq_none, isParent_eq_inherits distinct]

theorem acc_inherits (distinct : DistinctlyNamed definitions)
    (acyclic : ∀ identifier, ¬ Relation.TransGen (Inherits definitions) identifier identifier)
    (identifier : Identifier) : Acc (Inherits definitions) identifier := by
  have none : (ofDefinitions .new definitions []).cycles definitions = [] :=
    (cycles_eq_nil_iff distinct).mpr acyclic
  have same : Inheritance.IsParent (ofDefinitions .new definitions []).parent?
      = Inherits definitions := isParent_eq_inherits distinct
  rw [← same]
  exact Inheritance.acc_of_closed parent?_eq_none none identifier

theorem problems_resolution_eq_nil_iff (interner : Interner)
    (distinct : DistinctlyNamed definitions) :
    ((ofDefinitions interner definitions []).resolution definitions).problems = [] ↔
      (∀ identifier, ¬ Relation.TransGen (Inherits definitions) identifier identifier)
        ∧ ∀ definition ∈ definitions, ∀ occurrence ∈ definition.body.occurrences,
          occurrence.Satisfies (IsType definitions interner) (IsDefined definitions) := by
  simp only [resolution, List.append_eq_nil_iff, List.filterMap_eq_nil_iff,
    List.flatMap_eq_nil_iff, problemsOf_eq_nil_iff distinct]
  rw [← cycles_eq_nil_iff distinct]
  refine and_congr_left' ⟨fun none => List.eq_nil_iff_forall_not_mem.mpr fun cycle member => ?_, ?_⟩
  · have nonempty := (Inheritance.isCycle_of_mem_loops member).1.1
    obtain ⟨_, _, _, _, reported⟩ := exists_cycleProblem _ nonempty
    exact absurd (reported.symm.trans (none cycle member)) (Option.some_ne_none _)
  · intro none cycle member
    rw [none] at member
    exact absurd member List.not_mem_nil

end Scope

theorem Resolution.problems_eq_nil_iff {interner : Interner} {definitions : List RawDefinition}
    (distinct : DistinctlyNamed definitions) :
    (ofHeld interner [] definitions).problems = [] ↔
      (∀ identifier, ¬ Relation.TransGen (Inherits definitions) identifier identifier)
        ∧ ∀ definition ∈ definitions, ∀ occurrence ∈ definition.body.occurrences,
          occurrence.Satisfies (IsType definitions interner) (IsDefined definitions) := by
  have perm := sortedByName_perm interner.spell definitions
  have isDefined : IsDefined (sortedByName interner.spell definitions) = IsDefined definitions := by
    funext kind name
    simp only [IsDefined, perm.mem_iff]
  have inherits : Inherits (sortedByName interner.spell definitions) = Inherits definitions := by
    funext parent child
    simp only [Inherits, perm.mem_iff, isDefined]
  have isType : IsType (sortedByName interner.spell definitions) = IsType definitions := by
    funext interner name
    simp only [IsType, perm.mem_iff]
  have sorted := Scope.problems_resolution_eq_nil_iff interner (distinct.perm perm)
  simp only [isDefined, inherits, isType, perm.mem_iff] at sorted
  exact sorted

theorem forall_named_pairs {fragments : List Fragment} {relates : Fragment → Fragment → Prop} :
    (∀ identifier, ∀ one ∈ fragmentsNamed fragments identifier,
        ∀ other ∈ fragmentsNamed fragments identifier, relates one other)
      ↔ ∀ one ∈ fragments, ∀ other ∈ fragments, one.identifier = other.identifier →
        relates one other := by
  constructor
  · intro all one member other member' same
    exact all other.identifier one (mem_fragmentsNamed.mpr ⟨member, same⟩) other
      (mem_fragmentsNamed.mpr ⟨member', rfl⟩)
  · intro all identifier one member other member'
    have named := mem_fragmentsNamed.mp member
    have named' := mem_fragmentsNamed.mp member'
    exact all one named.1 other named'.1 (named.2.trans named'.2.symm)

theorem consistent_flatMap_iff {policy : AttributePolicy} {fragments : List Fragment} :
    policy.agreement.Consistent (fragments.flatMap (·.attributes.entries)) ↔
      ∀ one ∈ fragments, ∀ other ∈ fragments, ∀ entry ∈ one.attributes.entries,
        ∀ entry' ∈ other.attributes.entries,
          entry.key = entry'.key → policy.isRepeatable entry.key = false → entry = entry' := by
  simp only [Agreement.Consistent, List.forall_mem_flatMap]
  exact ⟨fun all one member other member' entry inside => all one member entry inside other member',
    fun all one member entry inside other member' => all one member other member' entry inside⟩

theorem forall_mergeable_iff {policy : AttributePolicy} {fragments : List Fragment} :
    (∀ identifier, Mergeable policy (fragmentsNamed fragments identifier)) ↔
      (∀ one ∈ fragments, ∀ other ∈ fragments, one.identifier = other.identifier →
        one.kind = other.kind)
      ∧ (∀ fragment ∈ fragments, fragment.kind.allowsPartial →
        ∃ other ∈ fragments, other.identifier = fragment.identifier ∧ other.isPartial = false)
      ∧ (∀ one ∈ fragments, ∀ other ∈ fragments, one.identifier = other.identifier →
        one.body.Agrees other.body)
      ∧ ∀ one ∈ fragments, ∀ other ∈ fragments, one.identifier = other.identifier →
        ∀ entry ∈ one.attributes.entries, ∀ entry' ∈ other.attributes.entries,
          entry.key = entry'.key → policy.isRepeatable entry.key = false → entry = entry' := by
  constructor
  · intro all
    refine ⟨forall_named_pairs.mp fun identifier => (all identifier).oneKind, ?_,
      forall_named_pairs.mp fun identifier => (all identifier).agree,
      forall_named_pairs.mp fun identifier => consistent_flatMap_iff.mp (all identifier).consistent⟩
    intro fragment member allows
    obtain ⟨other, member', whole⟩ := (all fragment.identifier).defined fragment
      (mem_fragmentsNamed.mpr ⟨member, rfl⟩) allows
    have named := mem_fragmentsNamed.mp member'
    exact ⟨other, named.1, named.2, whole⟩
  · rintro ⟨oneKind, defined, agree, attributes⟩ identifier
    refine {
      oneKind := forall_named_pairs.mpr oneKind identifier
      defined := ?_
      agree := forall_named_pairs.mpr agree identifier
      consistent := consistent_flatMap_iff.mpr (forall_named_pairs.mpr attributes identifier) }
    intro fragment member allows
    have named := mem_fragmentsNamed.mp member
    obtain ⟨other, member', same, whole⟩ := defined fragment named.1 allows
    exact ⟨other, mem_fragmentsNamed.mpr ⟨member', same.trans named.2⟩, whole⟩

namespace Merged

variable {policy : AttributePolicy} {interner : Interner} {corpus : Corpus}
  {fragments : List Fragment}

theorem isDefined_iff (registers : corpus.Registers fragments)
    (all : ∀ identifier, Mergeable policy (fragmentsNamed fragments identifier)) {kind : Kind}
    {name : Identifier} :
    IsDefined (ofHeld policy interner corpus.groups).definitions kind name
      ↔ ∃ fragment ∈ fragments, fragment.identifier = name ∧ fragment.kind = kind := by
  constructor
  · rintro ⟨definition, member, rfl, rfl⟩
    obtain ⟨together, named, -, equal⟩ := fragments_of_definition registers member
    have first := named together.first List.mem_cons_self
    refine ⟨together.first, first.1, first.2, ?_⟩
    rw [equal]
    exact together.kind_body.symm
  · rintro ⟨fragment, member, rfl, rfl⟩
    obtain ⟨together, inside, mergeable, isDefinition⟩ :=
      definition_of_fragment registers member (all _)
    refine ⟨_, isDefinition, rfl, ?_⟩
    exact together.kind_body.trans (mergeable.kind_eq fragment inside).symm

theorem forall_occurrences_iff (registers : corpus.Registers fragments)
    {holds : Occurrence → Prop} :
    (∀ definition ∈ (ofHeld policy interner corpus.groups).definitions,
        ∀ occurrence ∈ definition.body.occurrences, holds occurrence)
      ↔ ∀ fragment ∈ fragments, Mergeable policy (fragmentsNamed fragments fragment.identifier) →
        ∀ occurrence ∈ fragment.body.occurrences, holds occurrence := by
  constructor
  · intro resolved fragment member mergeable occurrence isOccurrence
    obtain ⟨together, inside, mergeable, isDefinition⟩ :=
      definition_of_fragment registers member mergeable
    exact resolved _ isDefinition occurrence
      (mergeable.mem_occurrences_body.mpr ⟨fragment, inside, isOccurrence⟩)
  · intro resolved definition member occurrence isOccurrence
    obtain ⟨together, same, mergeable, equal⟩ := (mem_definitions_iff registers).mp member
    rw [equal] at isOccurrence
    obtain ⟨fragment, inside, isOccurrence⟩ := mergeable.mem_occurrences_body.mp isOccurrence
    obtain ⟨isFragment, named⟩ := mem_fragmentsNamed.mp (same ▸ inside)
    rw [same, ← named] at mergeable
    exact resolved fragment isFragment mergeable occurrence isOccurrence

theorem inherits_iff (registers : corpus.Registers fragments)
    (all : ∀ identifier, Mergeable policy (fragmentsNamed fragments identifier))
    {parent child : Identifier} :
    Inherits (ofHeld policy interner corpus.groups).definitions parent child ↔
      ∃ fragment ∈ fragments, fragment.identifier = child ∧ parent ∈ fragment.body.inherited?
        ∧ ∃ other ∈ fragments, other.identifier = parent ∧ other.kind = fragment.kind := by
  constructor
  · rintro ⟨definition, member, rfl, stated, isDefined⟩
    obtain ⟨together, named, mergeable, equal⟩ := fragments_of_definition registers member
    rw [isDefined_iff registers all] at isDefined
    rw [equal] at stated isDefined
    obtain ⟨fragment, inside, stated⟩ := mergeable.inherited?_body_iff.mp stated
    refine ⟨fragment, (named fragment inside).1, (named fragment inside).2, stated, ?_⟩
    rw [mergeable.kind_eq fragment inside, ← together.kind_body]
    exact isDefined
  · rintro ⟨fragment, member, rfl, stated, isDefined⟩
    obtain ⟨together, inside, mergeable, isDefinition⟩ :=
      definition_of_fragment registers member (all _)
    refine ⟨_, isDefinition, rfl, mergeable.inherited?_body_iff.mpr ⟨fragment, inside, stated⟩, ?_⟩
    rw [isDefined_iff registers all]
    rw [mergeable.kind_eq fragment inside, ← together.kind_body] at isDefined
    exact isDefined

theorem isType_iff (registers : corpus.Registers fragments)
    (all : ∀ identifier, Mergeable policy (fragmentsNamed fragments identifier))
    {name : Identifier} :
    IsType (ofHeld policy interner corpus.groups).definitions interner name ↔
      (∃ builtin : BuiltinType, builtin.spelling = interner.spell name)
        ∨ ∃ other ∈ fragments, other.identifier = name := by
  refine or_congr_right ⟨fun ⟨definition, member, same⟩ => ?_, fun ⟨other, member, same⟩ => ?_⟩
  · obtain ⟨other, member, same, -⟩ :=
      (isDefined_iff registers all).mp ⟨definition, member, same, rfl⟩
    exact ⟨other, member, same⟩
  · obtain ⟨definition, member, same, -⟩ :=
      (isDefined_iff registers all).mpr ⟨other, member, same, rfl⟩
    exact ⟨definition, member, same⟩

theorem inherits_eq (registers : corpus.Registers fragments)
    (all : ∀ identifier, Mergeable policy (fragmentsNamed fragments identifier))
    (parents : ∀ fragment ∈ fragments, ∀ parent ∈ fragment.body.inherited?,
      ∃ other ∈ fragments, other.identifier = parent ∧ other.kind = fragment.kind) :
    Inherits (ofHeld policy interner corpus.groups).definitions
      = fun parent child => ∃ fragment ∈ fragments,
        fragment.identifier = child ∧ parent ∈ fragment.body.inherited? := by
  funext parent child
  refine propext ((inherits_iff registers all).trans ?_)
  constructor
  · exact fun ⟨fragment, member, same, stated, _⟩ => ⟨fragment, member, same, stated⟩
  · exact fun ⟨fragment, member, same, stated⟩ =>
      ⟨fragment, member, same, stated, parents fragment member parent stated⟩

end Merged

structure Coherent (policy : AttributePolicy) (interner : Interner) (fragments : List Fragment) :
    Prop where
  oneKind : ∀ one ∈ fragments, ∀ other ∈ fragments, one.identifier = other.identifier →
    one.kind = other.kind
  defined : ∀ fragment ∈ fragments, fragment.kind.allowsPartial →
    ∃ other ∈ fragments, other.identifier = fragment.identifier ∧ other.isPartial = false
  agree : ∀ one ∈ fragments, ∀ other ∈ fragments, one.identifier = other.identifier →
    one.body.Agrees other.body
  attributes : ∀ one ∈ fragments, ∀ other ∈ fragments, one.identifier = other.identifier →
    ∀ entry ∈ one.attributes.entries, ∀ entry' ∈ other.attributes.entries,
      entry.key = entry'.key → policy.isRepeatable entry.key = false → entry = entry'
  types : ∀ fragment ∈ fragments, ∀ type ∈ fragment.body.types, ∀ name ∈ type.leaves,
    (∃ builtin : BuiltinType, interner.spelling? name = some builtin.spelling)
      ∨ ∃ other ∈ fragments, other.identifier = name
  parents : ∀ fragment ∈ fragments, ∀ parent ∈ fragment.body.inherited?,
    ∃ other ∈ fragments, other.identifier = parent ∧ other.kind = fragment.kind

structure WellFormed (policy : AttributePolicy) (interner : Interner) (fragments : List Fragment) :
    Prop extends Coherent policy interner fragments where
  mixins : ∀ fragment ∈ fragments, ∀ mixin ∈ fragment.body.includes,
    ∃ other ∈ fragments, other.identifier = mixin ∧ other.kind = .interfaceMixin
  acyclic : ∀ identifier, ¬ Relation.TransGen (fun parent child => ∃ fragment ∈ fragments,
    fragment.identifier = child ∧ parent ∈ fragment.body.inherited?) identifier identifier

theorem Resolution.accepts_iff {policy : AttributePolicy} {interner : Interner} {corpus : Corpus}
    {fragments : List Fragment} (registers : corpus.Registers fragments)
    (all : ∀ identifier, Mergeable policy (fragmentsNamed fragments identifier)) :
    (ofHeld interner [] (Merged.ofHeld policy interner corpus.groups).definitions).problems = [] ↔
      (∀ fragment ∈ fragments, ∀ type ∈ fragment.body.types, ∀ name ∈ type.leaves,
        (∃ builtin : BuiltinType, builtin.spelling = interner.spell name)
          ∨ ∃ other ∈ fragments, other.identifier = name)
      ∧ (∀ fragment ∈ fragments, ∀ parent ∈ fragment.body.inherited?,
        ∃ other ∈ fragments, other.identifier = parent ∧ other.kind = fragment.kind)
      ∧ (∀ fragment ∈ fragments, ∀ mixin ∈ fragment.body.includes,
        ∃ other ∈ fragments, other.identifier = mixin ∧ other.kind = .interfaceMixin)
      ∧ ∀ identifier, ¬ Relation.TransGen (fun parent child => ∃ fragment ∈ fragments,
        fragment.identifier = child ∧ parent ∈ fragment.body.inherited?) identifier identifier := by
  have distinct : DistinctlyNamed (Merged.ofHeld policy interner corpus.groups).definitions :=
    Merged.nodup_definitions registers
  rw [problems_eq_nil_iff distinct, Merged.forall_occurrences_iff registers]
  simp only [all, forall_const, Body.forall_occurrences_iff, Merged.isDefined_iff registers all,
    Merged.isType_iff registers all]
  constructor
  · rintro ⟨acyclic, references⟩
    have parents := fun fragment member => (references fragment member).1
    rw [Merged.inherits_eq registers all parents] at acyclic
    exact ⟨fun fragment member => (references fragment member).2.2, parents,
      fun fragment member => (references fragment member).2.1, acyclic⟩
  · rintro ⟨types, parents, mixins, acyclic⟩
    rw [Merged.inherits_eq registers all parents]
    exact ⟨acyclic, fun fragment member =>
      ⟨parents fragment member, mixins fragment member, types fragment member⟩⟩

theorem Model.ofCorpus_accepts_iff {policy : AttributePolicy} {interner : Interner}
    {fragments : List Fragment}
    (held : ∀ fragment ∈ fragments, ∀ name ∈ fragment.names, interner.Holds name) :
    (∃ model, ofCorpus policy interner (.ofFragments fragments) = .ok (.ok model))
      ↔ WellFormed policy interner fragments := by
  have registers := Corpus.registers_ofFragments fragments
  rw [ofCorpus_eq_ofHeld held]
  simp only [Except.ok.injEq, ofHeld_eq_ok_iff registers]
  have spelled {fragment : Fragment} (member : fragment ∈ fragments) {type : RawType}
      (isType : type ∈ fragment.body.types) {name : Identifier} (isLeaf : name ∈ type.leaves)
      (builtin : BuiltinType) :
      builtin.spelling = interner.spell name
        ↔ interner.spelling? name = some builtin.spelling := by
    have isName : name ∈ fragment.names :=
      List.mem_cons_of_mem _ (List.mem_cons_of_mem _
        (Body.mem_names_iff.mpr (.inr (.inr (.inr ⟨type, isType, isLeaf⟩)))))
    rw [(held fragment member name isName).spelling?_eq, Option.some.injEq, eq_comm]
  constructor
  · rintro ⟨model, all, none, -⟩
    obtain ⟨oneKind, defined, agree, attributes⟩ := forall_mergeable_iff.mp all
    obtain ⟨types, parents, mixins, acyclic⟩ := (Resolution.accepts_iff registers all).mp none
    refine { oneKind, defined, agree, attributes, parents, mixins, acyclic, types := ?_ }
    intro fragment member type isType name isLeaf
    refine (types fragment member type isType name isLeaf).imp_left fun ⟨builtin, same⟩ => ?_
    exact ⟨builtin, (spelled member isType isLeaf builtin).mp same⟩
  · intro wellFormed
    have all : ∀ identifier, Mergeable policy (fragmentsNamed fragments identifier) :=
      forall_mergeable_iff.mpr
        ⟨wellFormed.oneKind, wellFormed.defined, wellFormed.agree, wellFormed.attributes⟩
    refine ⟨⟨_⟩, all, (Resolution.accepts_iff registers all).mpr ?_, rfl⟩
    refine ⟨fun fragment member type isType name isLeaf => ?_, wellFormed.parents,
      wellFormed.mixins, wellFormed.acyclic⟩
    refine (wellFormed.types fragment member type isType name isLeaf).imp_left
      fun ⟨builtin, same⟩ => ?_
    exact ⟨builtin, (spelled member isType isLeaf builtin).mpr same⟩

/-- A build can be evaluated once it is known how its definitions are ordered. -/
theorem Model.ofCorpus_of_ordered (policy : AttributePolicy) (interner : Interner)
    (fragments : List Fragment) (places : List Nat) (problems : List Problem)
    (held : ∀ fragment ∈ fragments, ∀ name ∈ fragment.names, interner.Holds name) :
    let merged := Merged.ofHeld policy interner (Corpus.ofFragments fragments).groups
    let ordered := places.filterMap (merged.definitions[·]?)
    let resolution := (Scope.ofDefinitions interner ordered merged.failed).resolution ordered
    ordered.Perm merged.definitions →
    (ordered.Pairwise fun one other =>
      interner.spell one.identifier < interner.spell other.identifier) →
    merged.problems ++ resolution.problems = problems →
    ofCorpus policy interner (.ofFragments fragments)
      = .ok (match problems with
        | [] => .ok ⟨resolution.definitions⟩
        | problems => .error (.ofProblems problems)) := by
  intro merged ordered resolution perm sorted found
  have resolved : Resolution.ofHeld interner merged.failed merged.definitions = resolution := by
    rw [Resolution.ofHeld, sortedByName_eq perm sorted]
  rw [ofCorpus_eq_ofHeld held, ← found, ← resolved]
  rfl

def Fragment.bare (identifier : Identifier) (parent : Option Identifier)
    (includes : List Identifier) : Fragment where
  identifier
  body := .interface parent [] includes
  isPartial := false
  sourceOrder := 0
  component := .unspecified
  attributes := .empty
  hints := .unset
  locations := .empty

theorem Fragment.coherent_bare {policy : AttributePolicy} {interner : Interner}
    {identifier : Identifier} {parent : Option Identifier} (includes : List Identifier)
    (own : ∀ name ∈ parent, name = identifier) :
    Coherent policy interner [bare identifier parent includes] := by
  constructor <;> simp only [List.forall_mem_singleton]
  · exact fun _ => trivial
  · exact fun _ => ⟨_, List.mem_singleton_self _, rfl, rfl⟩
  · refine fun _ => ⟨fun name stated name' stated' => ?_, nofun, nofun, nofun⟩
    rw [own name stated, own name' stated']
  · exact fun _ => nofun
  · exact nofun
  · exact fun name stated => ⟨_, List.mem_singleton_self _, (own name stated).symm, rfl⟩

def Interner.assorted : Interner :=
  Interner.new.holdAll
    ["Node", "next", "Init", "size", "Base", "Mixin", "core", "dom", "Done", "Mode"]

/-- `Node` inherits from `Base` and includes `Mixin` twice. Its partial fragment and that of `Init`
    are of `dom`. They arrive last but come first among the sources. -/
def Fragment.assorted : List Fragment :=
  [ { core ⟨0x20000000⟩ (.interface (some ⟨0x10000002⟩)
        [⟨.attr ⟨0x30000002⟩ (.wrapped .nullable (.leaf ⟨0x20000000⟩)) .empty,
          .empty, .empty, default⟩] [⟨0x10000003⟩]) with
      attributes := ⟨[⟨"Exposed", .ident "Window"⟩, ⟨"Serializable", .flag⟩]⟩
      locations := .single ⟨"node.idl", .line 1⟩ },
    core ⟨0x10000002⟩ (.interface none
      [⟨.constant ⟨0x10000001⟩ (.leaf ⟨0xC0000002⟩) "4", .empty, .empty, default⟩] []),
    core ⟨0x10000003⟩ (.interfaceMixin
      [⟨.operation ⟨0x30000002⟩ (.leaf ⟨0x20000000⟩)
        [⟨⟨0x10000001⟩, .leaf ⟨3⟩, true, false, some "null", .empty⟩] .empty,
        .empty, .empty, default⟩]),
    core ⟨3⟩ (.dictionary none
      [⟨⟨0x10000001⟩, .leaf ⟨0xC0000002⟩, true, none, .empty, .empty, default⟩]),
    core ⟨0x30000003⟩ (.enumeration ["open", "closed"]),
    core ⟨0x30000003⟩ (.enumeration ["open", "closed"]),
    core ⟨0x20000002⟩ (.callbackFunction (.wrapped .sequence (.leaf ⟨0x20000000⟩))
      [⟨⟨0x30000002⟩, .leaf ⟨0x30000003⟩, false, true, none, .empty⟩]),
    { dom ⟨0x20000000⟩ (.interface none
        [⟨.attr ⟨0x10000001⟩ (.leaf ⟨0xC0000002⟩) ⟨[.readonly]⟩, .empty, .empty, default⟩]
        [⟨0x10000003⟩]) with
      attributes := ⟨[⟨"Exposed", .ident "Worker"⟩]⟩
      locations := .single ⟨"partial.idl", .line 7⟩ },
    dom ⟨3⟩ (.dictionary none
      [⟨⟨0x30000002⟩, .union [.leaf ⟨0x20000000⟩,
          .record (.leaf ⟨0xC0000002⟩) (.leaf ⟨0x30000003⟩)],
        false, some "null", .empty, .empty, default⟩]) ]
where
  core (identifier : Identifier) (body : RawBody) : Fragment :=
    { bare identifier none [] with
      body, sourceOrder := 1, component := ⟨⟨0xF0000004⟩⟩ }
  dom (identifier : Identifier) (body : RawBody) : Fragment :=
    { bare identifier none [] with body, isPartial := true, component := ⟨⟨0x20000001⟩⟩ }

def Model.assorted : Model :=
  ⟨[ ⟨core ⟨0x10000002⟩, .interface none
      [⟨.constant ⟨0x10000001⟩ (.leaf (.builtin .long)) "4", .empty, .empty,
        ⟨⟨⟨0xF0000004⟩⟩, false⟩⟩] []⟩,
    ⟨core ⟨0x20000002⟩, .callbackFunction
      (.wrapped .sequence (.leaf (.definition ⟨⟨0x20000000⟩, 5⟩)))
      [⟨⟨0x30000002⟩, .leaf (.definition ⟨⟨0x30000003⟩, 4⟩), false, true, none, .empty⟩]⟩,
    ⟨⟨⟨3⟩, .empty, .unset, [], [⟨⟨0x20000001⟩⟩, ⟨⟨0xF0000004⟩⟩], .empty⟩, .dictionary none
      [⟨⟨0x30000002⟩, .union [.leaf (.definition ⟨⟨0x20000000⟩, 5⟩),
          .record (.leaf (.builtin .long)) (.leaf (.definition ⟨⟨0x30000003⟩, 4⟩))],
        false, some "null", .empty, .empty, ⟨⟨⟨0x20000001⟩⟩, true⟩⟩,
        ⟨⟨0x10000001⟩, .leaf (.builtin .long), true, none, .empty, .empty,
          ⟨⟨⟨0xF0000004⟩⟩, false⟩⟩]⟩,
    ⟨core ⟨0x10000003⟩, .interfaceMixin
      [⟨.operation ⟨0x30000002⟩ (.leaf (.definition ⟨⟨0x20000000⟩, 5⟩))
        [⟨⟨0x10000001⟩, .leaf (.definition ⟨⟨3⟩, 2⟩), true, false, some "null", .empty⟩] .empty,
        .empty, .empty, ⟨⟨⟨0xF0000004⟩⟩, false⟩⟩]⟩,
    ⟨core ⟨0x30000003⟩, .enumeration ["open", "closed"]⟩,
    ⟨⟨⟨0x20000000⟩,
        ⟨[⟨"Exposed", .ident "Worker"⟩, ⟨"Exposed", .ident "Window"⟩, ⟨"Serializable", .flag⟩]⟩,
        .unset, [], [⟨⟨0x20000001⟩⟩, ⟨⟨0xF0000004⟩⟩],
        ⟨[⟨"partial.idl", .line 7⟩, ⟨"node.idl", .line 1⟩]⟩⟩,
      .interface (some ⟨⟨0x10000002⟩, 0⟩)
        [⟨.attr ⟨0x10000001⟩ (.leaf (.builtin .long)) ⟨[.readonly]⟩, .empty, .empty,
            ⟨⟨⟨0x20000001⟩⟩, true⟩⟩,
          ⟨.attr ⟨0x30000002⟩ (.wrapped .nullable (.leaf (.definition ⟨⟨0x20000000⟩, 5⟩))) .empty,
            .empty, .empty, ⟨⟨⟨0xF0000004⟩⟩, false⟩⟩]
        [⟨⟨0x10000003⟩, 3⟩]⟩ ]⟩
where
  core (identifier : Identifier) : Declaration :=
    ⟨identifier, .empty, .unset, [], [⟨⟨0xF0000004⟩⟩], .empty⟩

namespace Model

theorem held_assorted :
    ∀ fragment ∈ Fragment.assorted, ∀ name ∈ fragment.names, Interner.assorted.Holds name := by
  decide +kernel

theorem ofCorpus_assorted :
    ofCorpus .standard .assorted (.ofFragments Fragment.assorted) = .ok (.ok assorted) :=
  -- Merging leaves the definitions in the order of their handles.
  (ofCorpus_of_ordered _ _ _ [1, 4, 0, 2, 5, 3] [] held_assorted (by decide +kernel)
    (by decide +kernel) (by decide +kernel)).trans (by decide +kernel)

theorem ofCorpus_accepts_assorted :
    (∀ fragment ∈ Fragment.assorted, ∀ name ∈ fragment.names, Interner.assorted.Holds name)
      ∧ ofCorpus .standard .assorted (.ofFragments Fragment.assorted) = .ok (.ok assorted)
      ∧ WellFormed .standard .assorted Fragment.assorted :=
  ⟨held_assorted, ofCorpus_assorted, (ofCorpus_accepts_iff held_assorted).mp ⟨_, ofCorpus_assorted⟩⟩

end Model

/-- Coherent fragments are refused if an interface inherits from itself or includes an interface. -/
theorem Model.ofCorpus_refuses_coherent :
    (Coherent .standard (Interner.new.holdAll ["Node"])
        [Fragment.bare ⟨0x20000000⟩ (some ⟨0x20000000⟩) []]
      ∧ ¬ ∃ model, ofCorpus .standard (Interner.new.holdAll ["Node"])
        (.ofFragments [Fragment.bare ⟨0x20000000⟩ (some ⟨0x20000000⟩) []]) = .ok (.ok model))
    ∧ Coherent .standard (Interner.new.holdAll ["Node"])
        [Fragment.bare ⟨0x20000000⟩ none [⟨0x20000000⟩]]
      ∧ ¬ ∃ model, ofCorpus .standard (Interner.new.holdAll ["Node"])
        (.ofFragments [Fragment.bare ⟨0x20000000⟩ none [⟨0x20000000⟩]]) = .ok (.ok model) := by
  have refused (fragment : Fragment) (problem : Problem)
      (outcome : ofCorpus .standard (Interner.new.holdAll ["Node"]) (.ofFragments [fragment])
        = .ok (.error (.ofProblems [problem]))) :
      ¬ ∃ model, ofCorpus .standard (Interner.new.holdAll ["Node"]) (.ofFragments [fragment])
        = .ok (.ok model) := by
    rintro ⟨model, accepted⟩
    rw [accepted] at outcome
    nomatch outcome
  constructor
  · constructor
    · exact Fragment.coherent_bare [] fun name stated => (Option.some.inj stated).symm
    · apply refused _ ⟨⟨0x20000000⟩, "Node", .inheritanceCycle ["Node", "Node"] .empty⟩
      exact ofCorpus_of_ordered _ _ _ [0] [_] (by decide +kernel) (by decide +kernel)
        (by decide +kernel) (by decide +kernel)
  · constructor
    · exact Fragment.coherent_bare _ fun name stated => absurd stated (Option.not_mem_none name)
    · apply refused _ ⟨⟨0x20000000⟩, "Node",
        .invalidReference "Node" "includes statement" .interfaceMixin .interface .empty⟩
      exact ofCorpus_of_ordered _ _ _ [0] [_] (by decide +kernel) (by decide +kernel)
        (by decide +kernel) (by decide +kernel)

end WebIdl
