import Mathlib.Data.Fintype.Sum
import WebIdl.Proofs.Closure
import WebIdl.Proofs.RenamedResolving

namespace WebIdl

section
variable {one other : Interner} {label : Identifier → Identifier}

theorem sortedByName_rename {definitions definitions' : List RawDefinition}
    (distinct : DistinctlyNamed definitions)
    (perm : definitions'.Perm (definitions.map (·.rename label)))
    (alike : ∀ definition ∈ definitions, SpelledAlike one other label definition.identifier) :
    sortedByName other.spell definitions'
      = (sortedByName one.spell definitions).map (·.rename label) := by
  have ranking := isRanking_names fun definition : RawDefinition => other.spell definition.identifier
  have sorted : sortedByName other.spell (definitions.map (·.rename label))
      = sortedByName other.spell definitions' := by
    refine mergeSort_eq_of_perm ranking perm.symm fun first isFirst second isSecond ties => ?_
    obtain ⟨definition, member, rfl⟩ := List.mem_map.mp isFirst
    obtain ⟨definition', member', rfl⟩ := List.mem_map.mp isSecond
    have named := alike definition member
    have named' := alike definition' member'
    have spelled : other.spell (label definition.identifier)
        = other.spell (label definition'.identifier) := (tied_names _ _ _).mp ties
    have same := named.holds.spell_inj named'.holds
      (named.spell_eq.symm.trans (spelled.trans named'.spell_eq))
    rw [List.inj_on_of_nodup_map distinct member member' same]
  rw [← sorted]
  refine (List.map_mergeSort fun first isFirst second isSecond => ?_).symm
  have named : other.spell (first.rename label).identifier = one.spell first.identifier :=
    (alike first isFirst).spell_eq
  have named' : other.spell (second.rename label).identifier = one.spell second.identifier :=
    (alike second isSecond).spell_eq
  rw [named, named']

theorem Resolution.ofHeld_rename (injective : Function.Injective label)
    (empty : label .empty = .empty) {definitions definitions' : List RawDefinition}
    {failed failed' : List Identifier} (distinct : DistinctlyNamed definitions)
    (perm : definitions'.Perm (definitions.map (·.rename label)))
    (sameFailed : ∀ name, label name ∈ failed' ↔ name ∈ failed)
    (alike : ∀ definition ∈ definitions, ∀ name ∈ definition.lookups,
      SpelledAlike one other label name) :
    ofHeld other failed' definitions' = ⟨(ofHeld one failed definitions).definitions.map (·.rename label),
      (ofHeld one failed definitions).problems.map (·.rename label)⟩ := by
  have sorted := sortedByName_rename distinct perm fun definition member =>
    alike definition member _ List.mem_cons_self
  have isRenamed : Scope.IsRenamed label
      (Scope.ofDefinitions one (sortedByName one.spell definitions) failed)
      (Scope.ofDefinitions other ((sortedByName one.spell definitions).map (·.rename label)) failed') :=
    .ofDefinitions injective empty sameFailed _
  unfold ofHeld
  rw [sorted]
  exact isRenamed.resolution_eq fun definition member =>
    alike definition ((sortedByName_perm one.spell definitions).mem_iff.mp member)

theorem Report.ofProblems_rename {problems problems' : List Problem}
    (same : ∀ problem, problems'.filter (tied precedes problem)
      = (problems.map (·.rename label)).filter (tied precedes problem)) :
    ofProblems problems' = (ofProblems problems).rename label := by
  have sorted : (problems.mergeSort precedes).map (·.rename label)
      = (problems.map (·.rename label)).mergeSort precedes := List.map_mergeSort fun _ _ _ _ => rfl
  rw [ofProblems, mergeSort_eq_of_filter_tied isRanking_precedes same, ← sorted]
  rfl

/-- Renaming all handles by a permutation renames them in the outcome and changes nothing else. -/
theorem Model.ofHeld_rename (policy : AttributePolicy) (injective : Function.Injective label)
    (empty : label .empty = .empty) {fragments : List Fragment}
    (alike : ∀ fragment ∈ fragments, ∀ name ∈ fragment.names, SpelledAlike one other label name) :
    ofHeld policy other (.ofFragments (fragments.map (·.rename label)))
      = ((ofHeld policy one (.ofFragments fragments)).map (·.rename label)).mapError
        (·.rename label) := by
  have registers := Corpus.registers_ofFragments fragments
  have identifiers : ∀ fragment ∈ fragments, SpelledAlike one other label fragment.identifier :=
    fun fragment member => alike fragment member _ List.mem_cons_self
  have merged := Merged.filter_problems_rename policy injective identifiers
  have resolved := Resolution.ofHeld_rename injective empty (Merged.nodup_definitions registers)
    (Merged.definitions_rename_perm policy injective identifiers)
    (fun _ => Merged.mem_failed_rename policy injective identifiers)
    fun definition member name isName => by
      obtain ⟨fragment, isFragment, written⟩ := Merged.names_of_lookups registers member isName
      exact alike fragment isFragment name written
  unfold ofHeld
  dsimp only
  rw [resolved]
  generalize (Merged.ofHeld policy other _).problems = problems' at merged
  generalize (Merged.ofHeld policy one _).problems = problems at merged
  generalize Resolution.ofHeld one _ _ = resolution
  have same (problem : Problem) :
      (problems' ++ resolution.problems.map (·.rename label)).filter (tied Report.precedes problem)
        = ((problems ++ resolution.problems).map (·.rename label)).filter
          (tied Report.precedes problem) := by
    rw [List.map_append, List.filter_append, List.filter_append, merged]
  have length := length_eq_of_filter_tied isRanking_precedes same
  rw [List.length_map] at length
  cases found : problems ++ resolution.problems with
  | nil =>
    rw [found] at length
    rw [List.eq_nil_of_length_eq_zero length]
    rfl
  | cons problem rest =>
    rw [found] at same length
    cases found' : problems' ++ resolution.problems.map (·.rename label) with
    | nil =>
      rw [found'] at length
      nomatch length
    | cons problem' rest' =>
      rw [found'] at same
      exact congrArg Except.error (Report.ofProblems_rename same)

end

namespace MadeFrom

variable {policy : AttributePolicy} {interner : Interner} {fragments : List Fragment}
  {model : Model} {definitions : List RawDefinition}

theorem exists_fragment (made : MadeFrom policy interner fragments model definitions)
    {raw : RawDefinition} (member : raw ∈ definitions) :
    ∃ fragment ∈ fragments, fragment.identifier = raw.identifier := by
  obtain ⟨together, same, -⟩ := (made.merged raw).mp member
  have first : together.first ∈ together.toList := List.mem_cons_self
  rw [same] at first
  exact ⟨together.first, mem_fragmentsNamed.mp first⟩

theorem names_of_definition (made : MadeFrom policy interner fragments model definitions)
    {definition : ResolvedDefinition} (member : definition ∈ model.definitions) {name : Identifier}
    (isName : name ∈ definition.names) : ∃ fragment ∈ fragments, name ∈ fragment.names := by
  rw [made.resolved] at member
  obtain ⟨raw, isRaw, rfl⟩ := List.mem_map.mp member
  have identified {raw : RawDefinition} (isRaw : raw ∈ definitions) :
      ∃ fragment ∈ fragments, raw.identifier ∈ fragment.names := by
    obtain ⟨fragment, isFragment, named⟩ := made.exists_fragment isRaw
    exact ⟨fragment, isFragment, named ▸ List.mem_cons_self⟩
  obtain ⟨together, same, equal⟩ := (made.merged raw).mp isRaw
  have inside {fragment : Fragment} (member : fragment ∈ together.toList) :
      fragment ∈ fragments := (mem_fragmentsNamed.mp (same ▸ member)).1
  rcases List.mem_cons.mp isName with rfl | isName
  · exact identified isRaw
  · rcases List.mem_append.mp isName with isName | isHandle
    · rcases List.mem_append.mp isName with isComponent | isLabel
      · obtain ⟨component, declared, rfl⟩ := List.mem_map.mp isComponent
        have same : ((Scope.ofDefinitions interner definitions []).resolved
            raw).declaration.components = together.components :=
          congrArg (·.declaration.components) equal
        have merged : component ∈ together.components := same ▸ declared
        obtain ⟨fragment, member, rfl⟩ := List.mem_map.mp (mem_firstOccurrences.mp merged)
        exact ⟨fragment, inside member, List.mem_cons_of_mem _ List.mem_cons_self⟩
      · have mergeable := same ▸ made.mergeable raw.identifier
        have labels : ((Scope.ofDefinitions interner definitions []).resolved raw).body.labels
            = raw.body.labels := by
          rw [Scope.resolved, Body.map_eq_rewrite, Body.labels_rewrite, List.map_id]
        rw [labels, equal] at isLabel
        obtain ⟨fragment, member, written⟩ := mergeable.names_of_mem_labels_body isLabel
        exact ⟨fragment, inside member, written⟩
    · obtain ⟨handle, among, rfl⟩ := List.mem_map.mp isHandle
      obtain ⟨place, target, placed, rfl⟩ := made.exists_target among
      exact identified (List.mem_of_getElem? placed)

end MadeFrom

instance : Finite Identifier :=
  Finite.of_injective (fun identifier => identifier.raw.toFin) fun one other same => by
    cases one
    cases other
    exact congrArg Identifier.mk (UInt32.toFin_inj.mp same)

theorem exists_injective_extending {label : Identifier → Identifier} {names : List Identifier}
    (distinct : ∀ name ∈ names, ∀ name' ∈ names, label name = label name' → name = name') :
    ∃ whole : Identifier → Identifier, Function.Injective whole
      ∧ ∀ name ∈ names, whole name = label name := by
  have := Fintype.ofFinite Identifier
  obtain ⟨extended, same⟩ := Set.MapsTo.exists_equiv_extend_of_card_eq
    (Finset.card_univ (α := Identifier)).symm (fun name _ => Finset.mem_coe.mpr (Finset.mem_univ _))
    (fun name member name' member' => distinct name member name' member')
  exact ⟨fun name => extended name, Subtype.val_injective.comp extended.injective, same⟩

inductive SameOutcome (one other : Interner) (label : Identifier → Identifier) :
    Except Fault (Except Report Model) → Except Fault (Except Report Model) → Prop where
  | accepted (model : Model)
      (names : ∀ definition ∈ model.definitions, ∀ name ∈ definition.names,
        SpelledAlike one other label name) :
      SameOutcome one other label (.ok (.ok model)) (.ok (.ok (model.rename label)))
  | rejected (report : Report)
      (names : ∀ problem ∈ report.problems, one.spelling? problem.identifier = some problem.name
        ∧ other.spelling? (label problem.identifier) = some problem.name) :
      SameOutcome one other label (.ok (.error report)) (.ok (.error (report.rename label)))

section
variable {one other : Interner} {label : Identifier → Identifier} {fragments : List Fragment}

/-- Handles that spell alike are related by renaming all handles. The empty spelling needs care, as
    its handle is fixed whether or not a fragment has it. -/
theorem exists_renaming (empty : one.spelling? .empty = some "")
    (empty' : other.spelling? .empty = some "")
    (alike : ∀ fragment ∈ fragments, ∀ name ∈ fragment.names, SpelledAlike one other label name) :
    ∃ whole : Identifier → Identifier, Function.Injective whole ∧ whole .empty = .empty
      ∧ ∀ fragment ∈ fragments, ∀ name ∈ fragment.names, whole name = label name := by
  have fixed : ∀ fragment ∈ fragments, ∀ name ∈ fragment.names,
      Function.update label .empty .empty name = label name := by
    intro fragment member name isName
    by_cases same : name = .empty
    · obtain ⟨spelling, held, held'⟩ := alike fragment member name isName
      rw [same] at held held' ⊢
      rw [empty] at held
      rw [Function.update_self]
      exact Interner.spelling?_inj empty' (Option.some.inj held ▸ held')
    · exact Function.update_of_ne same _ _
  have kept : ∀ name ∈ .empty :: fragments.flatMap (·.names),
      SpelledAlike one other (Function.update label .empty .empty) name := by
    intro name member
    rcases List.mem_cons.mp member with rfl | member
    · exact ⟨"", empty, by rw [Function.update_self, empty']⟩
    · obtain ⟨fragment, isFragment, isName⟩ := List.mem_flatMap.mp member
      rw [SpelledAlike, fixed fragment isFragment name isName]
      exact alike fragment isFragment name isName
  obtain ⟨whole, injective, extends_⟩ := exists_injective_extending
    fun name member name' member' => (kept name member).inj (kept name' member')
  refine ⟨whole, injective, ?_, fun fragment member name isName => ?_⟩
  · rw [extends_ _ List.mem_cons_self, Function.update_self]
  · rw [extends_ name (List.mem_cons_of_mem _ (List.mem_flatMap.mpr ⟨fragment, member, isName⟩))]
    exact fixed fragment member name isName

theorem MadeFrom.sameOutcome {policy : AttributePolicy} {model : Model}
    {definitions : List RawDefinition} (made : MadeFrom policy one fragments model definitions)
    {whole : Identifier → Identifier}
    (same : ∀ fragment ∈ fragments, ∀ name ∈ fragment.names, whole name = label name)
    (alike : ∀ fragment ∈ fragments, ∀ name ∈ fragment.names, SpelledAlike one other label name) :
    SameOutcome one other label (.ok (.ok model)) (.ok (.ok (model.rename whole))) := by
  have sameModel : model.rename whole = model.rename label := by
    refine Model.rename_congr fun definition member name isName => ?_
    obtain ⟨fragment, isFragment, written⟩ := made.names_of_definition member isName
    exact same fragment isFragment name written
  rw [sameModel]
  refine .accepted model fun definition member name isName => ?_
  obtain ⟨fragment, isFragment, written⟩ := made.names_of_definition member isName
  exact alike fragment isFragment name written

theorem SameOutcome.of_report {policy : AttributePolicy} {report : Report}
    (outcome : Model.ofHeld policy one (.ofFragments fragments) = .error report)
    {whole : Identifier → Identifier}
    (same : ∀ fragment ∈ fragments, ∀ name ∈ fragment.names, whole name = label name)
    (alike : ∀ fragment ∈ fragments, ∀ name ∈ fragment.names, SpelledAlike one other label name) :
    SameOutcome one other label (.ok (.error report)) (.ok (.error (report.rename whole))) := by
  have sites := Model.site_of_ofHeld (Corpus.registers_ofFragments fragments) outcome
  have sameReport : report.rename whole = report.rename label := by
    refine Report.rename_congr fun problem member => ?_
    obtain ⟨fragment, isFragment, named, -⟩ := sites problem member
    rw [named, same fragment isFragment _ List.mem_cons_self]
  rw [sameReport]
  refine .rejected report fun problem member => ?_
  obtain ⟨fragment, isFragment, named, spelled⟩ := sites problem member
  have atName := alike fragment isFragment _ List.mem_cons_self
  rw [named, spelled]
  exact ⟨atName.holds.spelling?_eq, atName.spell_eq ▸ atName.holds_label.spelling?_eq⟩

theorem Model.sameOutcome_of_empty (policy : AttributePolicy)
    (empty : one.spelling? .empty = some "") (empty' : other.spelling? .empty = some "")
    (alike : ∀ fragment ∈ fragments, ∀ name ∈ fragment.names, SpelledAlike one other label name) :
    SameOutcome one other label (ofCorpus policy one (.ofFragments fragments))
      (ofCorpus policy other (.ofFragments (fragments.map (·.rename label)))) := by
  obtain ⟨whole, injective, isEmpty, same⟩ := exists_renaming empty empty' alike
  have alike' : ∀ fragment ∈ fragments, ∀ name ∈ fragment.names,
      SpelledAlike one other whole name := by
    intro fragment member name isName
    rw [SpelledAlike, same fragment member name isName]
    exact alike fragment member name isName
  have renamed : fragments.map (·.rename label) = fragments.map (·.rename whole) :=
    List.map_congr_left fun fragment member => Fragment.rename_congr fun name isName =>
      (same fragment member name isName).symm
  have held : ∀ fragment ∈ fragments, ∀ name ∈ fragment.names, one.Holds name :=
    fun fragment member name isName => (alike fragment member name isName).holds
  have held' : ∀ fragment ∈ fragments.map (·.rename whole), ∀ name ∈ fragment.names,
      other.Holds name := by
    simp only [List.forall_mem_map, Fragment.names_rename]
    exact fun fragment member name isName => (alike' fragment member name isName).holds_label
  have built : ofCorpus policy one (.ofFragments fragments)
      = .ok (ofHeld policy one (.ofFragments fragments)) := ofCorpus_eq_ofHeld held
  rw [renamed, ofCorpus_eq_ofHeld held', built,
    ofHeld_rename policy injective isEmpty alike']
  cases outcome : ofHeld policy one (.ofFragments fragments) with
  | ok model =>
    rw [outcome] at built
    obtain ⟨definitions, made⟩ := exists_madeFrom built
    exact made.sameOutcome same alike
  | error report => exact .of_report outcome same alike

end

/-- The outcome of a build does not depend on what was interned before it, nor in which order. -/
theorem Model.sameOutcome_of_spelledAlike (policy : AttributePolicy) (history history' : List String)
    (label : Identifier → Identifier) (fragments : List Fragment)
    (alike : ∀ fragment ∈ fragments, ∀ name ∈ fragment.names,
      SpelledAlike (Interner.new.holdAll history) (Interner.new.holdAll history') label name) :
    SameOutcome (Interner.new.holdAll history) (Interner.new.holdAll history') label
      (ofCorpus policy (Interner.new.holdAll history) (.ofFragments fragments))
      (ofCorpus policy (Interner.new.holdAll history')
        (.ofFragments (fragments.map (·.rename label)))) :=
  sameOutcome_of_empty policy (Interner.spelling?_holdAll Interner.spelling?_empty_new history)
    (Interner.spelling?_holdAll Interner.spelling?_empty_new history') alike

def Fragment.withParent (child parent : Identifier) : List Fragment :=
  [bare child (some parent) [], bare parent none []]

theorem Fragment.names_withParent {child parent : Identifier} :
    ∀ fragment ∈ withParent child parent, ∀ name ∈ fragment.names,
      name = child ∨ name = parent ∨ name = .empty := by
  simp [withParent, bare, names, Body.names, Body.inherited?, Body.includes, Body.labels,
    Body.members, Body.types, Component.unspecified]

theorem Fragment.alike_withParent :
    ∀ fragment ∈ withParent ⟨0x20000000⟩ ⟨0x20000001⟩, ∀ name ∈ fragment.names,
      SpelledAlike (Interner.new.holdAll ["Node", "Cache"])
        (Interner.new.holdAll ["Cache", "Node"]) (Equiv.swap ⟨0x20000000⟩ ⟨0x20000001⟩) name := by
  intro fragment member name isName
  rcases Fragment.names_withParent fragment member name isName with same | same | same <;> rw [same]
  · exact ⟨"Node", by decide +kernel, by decide +kernel⟩
  · exact ⟨"Cache", by decide +kernel, by decide +kernel⟩
  · exact ⟨"", by decide +kernel, by decide +kernel⟩

theorem Model.sameOutcome_withParent :
    (∀ fragment ∈ Fragment.withParent ⟨0x20000000⟩ ⟨0x20000001⟩, ∀ name ∈ fragment.names,
        SpelledAlike (Interner.new.holdAll ["Node", "Cache"])
          (Interner.new.holdAll ["Cache", "Node"])
          (Equiv.swap ⟨0x20000000⟩ ⟨0x20000001⟩) name)
      ∧ SameOutcome (Interner.new.holdAll ["Node", "Cache"])
        (Interner.new.holdAll ["Cache", "Node"]) (Equiv.swap ⟨0x20000000⟩ ⟨0x20000001⟩)
        (ofCorpus .standard (Interner.new.holdAll ["Node", "Cache"])
          (.ofFragments (Fragment.withParent ⟨0x20000000⟩ ⟨0x20000001⟩)))
        (ofCorpus .standard (Interner.new.holdAll ["Cache", "Node"])
          (.ofFragments ((Fragment.withParent ⟨0x20000000⟩ ⟨0x20000001⟩).map
            (·.rename (Equiv.swap ⟨0x20000000⟩ ⟨0x20000001⟩))))) :=
  ⟨Fragment.alike_withParent, sameOutcome_of_spelledAlike _ _ _ _ _ Fragment.alike_withParent⟩

end WebIdl
