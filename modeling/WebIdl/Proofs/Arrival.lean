import Mathlib.Data.List.Sort
import WebIdl.Model
import WebIdl.Proofs.Registration

namespace WebIdl

theorem eq_of_strictly_ordered {α : Type} {before : α → α → Prop}
    (asymmetric : ∀ one other, before one other → ¬ before other one) {ones others : List α}
    (ordered : ones.Pairwise before) (ordered' : others.Pairwise before)
    (same : ∀ item, item ∈ ones ↔ item ∈ others) : ones = others := by
  have irreflexive : Std.Irrefl before := ⟨fun item itself => asymmetric item item itself itself⟩
  have antisymmetric : Std.Antisymm before :=
    ⟨fun one other first second => absurd second (asymmetric one other first)⟩
  exact ordered.eq_of_mem_iff ordered' same

def tiesAt (fragments : List Fragment) (identifier : Identifier) (sourceOrder : Nat) :
    List Fragment :=
  fragments.filter fun fragment =>
    fragment.identifier = identifier ∧ fragment.sourceOrder = sourceOrder

/-- Fragments that only their arrival puts in order arrive in the same order in both lists. -/
def TiesAlike (fragments fragments' : List Fragment) : Prop :=
  ∀ identifier sourceOrder,
    tiesAt fragments identifier sourceOrder = tiesAt fragments' identifier sourceOrder

def Untied (fragments : List Fragment) : Prop :=
  fragments.Pairwise fun one other =>
    one.identifier = other.identifier → one.sourceOrder ≠ other.sourceOrder

section
variable {fragments fragments' : List Fragment}

theorem tiesAt_of_untied (untied : Untied fragments) (identifier : Identifier)
    (sourceOrder : Nat) :
    tiesAt fragments identifier sourceOrder = []
      ∨ ∃ fragment, tiesAt fragments identifier sourceOrder = [fragment] := by
  have apart := untied.filter fun fragment =>
    fragment.identifier = identifier ∧ fragment.sourceOrder = sourceOrder
  change (tiesAt fragments identifier sourceOrder).Pairwise _ at apart
  have tied : ∀ fragment ∈ tiesAt fragments identifier sourceOrder,
      fragment.identifier = identifier ∧ fragment.sourceOrder = sourceOrder :=
    fun fragment member => of_decide_eq_true (List.mem_filter.mp member).2
  cases ties : tiesAt fragments identifier sourceOrder with
  | nil => exact .inl rfl
  | cons first rest =>
    rw [ties] at apart tied
    cases rest with
    | nil => exact .inr ⟨first, rfl⟩
    | cons second rest =>
      have atFirst := tied first List.mem_cons_self
      have atSecond := tied second (List.mem_cons_of_mem _ List.mem_cons_self)
      have differ := List.rel_of_pairwise_cons apart List.mem_cons_self
        (atFirst.1.trans atSecond.1.symm)
      exact absurd (atFirst.2.trans atSecond.2.symm) differ

theorem TiesAlike.of_untied (perm : fragments.Perm fragments') (untied : Untied fragments) :
    TiesAlike fragments fragments' := by
  intro identifier sourceOrder
  have ties : (tiesAt fragments identifier sourceOrder).Perm
      (tiesAt fragments' identifier sourceOrder) := perm.filter _
  rcases tiesAt_of_untied untied identifier sourceOrder with none | ⟨fragment, one⟩
  · rw [none] at ties ⊢
    exact ties.nil_eq
  · rw [one] at ties ⊢
    exact List.singleton_perm.mp ties

theorem TiesAlike.fragmentsNamed_eq (alike : TiesAlike fragments fragments')
    (identifier : Identifier) :
    fragmentsNamed fragments identifier = fragmentsNamed fragments' identifier := by
  refine mergeSort_eq_of_filter_tied isRanking_notAfter fun fragment => ?_
  have sameTies := alike identifier fragment.sourceOrder
  rw [List.filter_filter, List.filter_filter]
  simp only [tied_notAfter, ← Bool.decide_and, eq_comm (a := fragment.sourceOrder)]
  simpa only [tiesAt, and_comm] using sameTies

theorem Corpus.Registers.ext {corpus corpus' : Corpus} (registers : corpus.Registers fragments)
    (registers' : corpus'.Registers fragments')
    (same : ∀ identifier,
      fragmentsNamed fragments identifier = fragmentsNamed fragments' identifier) :
    corpus = corpus' := by
  have groups : corpus.groups = corpus'.groups := by
    refine eq_of_strictly_ordered (fun _ _ => UInt32.lt_asymm) registers.ordered
      registers'.ordered fun group => ?_
    rw [registers.mem_groups, registers'.mem_groups, same]
  exact congrArg Corpus.mk groups

end

/-- Nothing that is read from the registered fragments, and no build of them, tells in which of two
    orders they were registered. -/
structure SameRegistration (fragments fragments' : List Fragment) : Prop where
  groups : (Corpus.ofFragments fragments).groups = (Corpus.ofFragments fragments').groups
  fragmentsOf : ∀ identifier, (Corpus.ofFragments fragments).fragmentsOf identifier
    = (Corpus.ofFragments fragments').fragmentsOf identifier
  identifiers : (Corpus.ofFragments fragments).identifiers
    = (Corpus.ofFragments fragments').identifiers
  outcome : ∀ policy interner, Model.ofCorpus policy interner (.ofFragments fragments)
    = Model.ofCorpus policy interner (.ofFragments fragments')

theorem TiesAlike.sameRegistration {fragments fragments' : List Fragment}
    (alike : TiesAlike fragments fragments') : SameRegistration fragments fragments' := by
  have same : Corpus.ofFragments fragments = Corpus.ofFragments fragments' :=
    (Corpus.registers_ofFragments fragments).ext (Corpus.registers_ofFragments fragments')
      alike.fragmentsNamed_eq
  constructor <;> simp only [same, implies_true]

/-- The order of registration matters only to fragments of one definition with the same source
    order. Where there are none, it does not matter at all. -/
theorem Model.sameRegistration_of_perm {fragments fragments' : List Fragment}
    (perm : fragments.Perm fragments') :
    (TiesAlike fragments fragments' → SameRegistration fragments fragments')
      ∧ (Untied fragments → SameRegistration fragments fragments') :=
  ⟨TiesAlike.sameRegistration, fun untied => (TiesAlike.of_untied perm untied).sameRegistration⟩

def Fragment.listing (identifier : Identifier) (values : List String) (sourceOrder : Nat) :
    Fragment where
  identifier
  body := .enumeration values
  isPartial := false
  sourceOrder
  component := .unspecified
  attributes := .empty
  hints := .unset
  locations := .empty

theorem TiesAlike.swap (before after : List Fragment) {one other : Fragment}
    (differ : one.identifier ≠ other.identifier) :
    TiesAlike (before ++ one :: other :: after) (before ++ other :: one :: after) := by
  intro identifier sourceOrder
  simp only [tiesAt, List.filter_append, List.filter_cons]
  by_cases first : one.identifier = identifier
  · have second : other.identifier ≠ identifier := fun same => differ (first.trans same.symm)
    simp [second]
  · simp [first]

theorem Model.sameRegistration_listing :
    ([Fragment.listing ⟨1⟩ ["a"] 0, .listing ⟨1⟩ ["b"] 0, .listing ⟨2⟩ [] 0].Perm
        [.listing ⟨1⟩ ["a"] 0, .listing ⟨2⟩ [] 0, .listing ⟨1⟩ ["b"] 0]
      ∧ TiesAlike [.listing ⟨1⟩ ["a"] 0, .listing ⟨1⟩ ["b"] 0, .listing ⟨2⟩ [] 0]
        [.listing ⟨1⟩ ["a"] 0, .listing ⟨2⟩ [] 0, .listing ⟨1⟩ ["b"] 0]
      ∧ SameRegistration [.listing ⟨1⟩ ["a"] 0, .listing ⟨1⟩ ["b"] 0, .listing ⟨2⟩ [] 0]
        [.listing ⟨1⟩ ["a"] 0, .listing ⟨2⟩ [] 0, .listing ⟨1⟩ ["b"] 0])
    ∧ [Fragment.listing ⟨1⟩ ["a"] 0, .listing ⟨1⟩ ["b"] 1].Perm
        [.listing ⟨1⟩ ["b"] 1, .listing ⟨1⟩ ["a"] 0]
      ∧ Untied [.listing ⟨1⟩ ["a"] 0, .listing ⟨1⟩ ["b"] 1]
      ∧ SameRegistration [.listing ⟨1⟩ ["a"] 0, .listing ⟨1⟩ ["b"] 1]
        [.listing ⟨1⟩ ["b"] 1, .listing ⟨1⟩ ["a"] 0] := by
  have perm : [Fragment.listing ⟨1⟩ ["a"] 0, .listing ⟨1⟩ ["b"] 0, .listing ⟨2⟩ [] 0].Perm
      [.listing ⟨1⟩ ["a"] 0, .listing ⟨2⟩ [] 0, .listing ⟨1⟩ ["b"] 0] := .cons _ (.swap ..)
  have alike : TiesAlike [.listing ⟨1⟩ ["a"] 0, .listing ⟨1⟩ ["b"] 0, .listing ⟨2⟩ [] 0]
      [.listing ⟨1⟩ ["a"] 0, .listing ⟨2⟩ [] 0, .listing ⟨1⟩ ["b"] 0] :=
    TiesAlike.swap [.listing ⟨1⟩ ["a"] 0] [] (by decide)
  have perm' : [Fragment.listing ⟨1⟩ ["a"] 0, .listing ⟨1⟩ ["b"] 1].Perm
      [.listing ⟨1⟩ ["b"] 1, .listing ⟨1⟩ ["a"] 0] := .swap ..
  have untied : Untied [.listing ⟨1⟩ ["a"] 0, .listing ⟨1⟩ ["b"] 1] := by
    simp [Untied, Fragment.listing]
  exact ⟨⟨perm, alike, (sameRegistration_of_perm perm).1 alike⟩, perm', untied,
    (sameRegistration_of_perm perm').2 untied⟩

end WebIdl
