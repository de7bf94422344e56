import WebIdl.Proofs.MergeConflicts

namespace WebIdl

namespace Locations

inductive Accumulated : Locations → Prop where
  | empty : Accumulated .empty
  | single (location : SourceLocation) : Accumulated (.single location)
  | within (file : String) (one other : UInt32) : Accumulated (.within file one other)
  | union {locations more : Locations} (first : Accumulated locations) (later : Accumulated more) :
    Accumulated (locations.union more)

/-- The union of all parts in their order, whichever unions are made first. -/
inductive Groups : List Locations → Locations → Prop where
  | nothing : Groups [] .empty
  | part (locations : Locations) : Groups [locations] locations
  | union {parts others : List Locations} {locations more : Locations}
      (first : Groups parts locations) (later : Groups others more) :
    Groups (parts ++ others) (locations.union more)

structure OrderedUnion (one other third : Locations) : Prop where
  distinct : one.entries.Nodup
  entries_union : (one.union other).entries
    = one.entries ++ other.entries.filter (· ∉ one.entries)
  associative : (one.union other).union third = one.union (other.union third)
  empty_union : Locations.empty.union one = one
  union_empty : one.union .empty = one
  union_same : one.union one = one
  union_again : (one.union other).union one = one.union other

theorem union_of_subset {locations more : Locations}
    (known : ∀ location ∈ more.entries, location ∈ locations.entries) :
    locations.union more = locations :=
  congrArg mk (appendNew_of_subset known)

theorem union_assoc (one other third : Locations) :
    (one.union other).union third = one.union (other.union third) := by
  unfold union
  rw [appendNew_appendNew, appendNew_append]

theorem empty_union {locations : Locations} (distinct : locations.entries.Nodup) :
    Locations.empty.union locations = locations := by
  have appended : appendNew [] locations.entries
      = [] ++ locations.entries.filter (· ∉ []) := appendNew_eq_append_filter distinct
  have unknown : locations.entries.filter (· ∉ []) = locations.entries := by simp
  rw [unknown] at appended
  exact congrArg mk appended

theorem Accumulated.nodup {locations : Locations} (accumulated : Accumulated locations) :
    locations.entries.Nodup := by
  induction accumulated with
  | empty => exact List.nodup_nil
  | single | within => exact List.nodup_singleton _
  | union _ _ distinct _ => exact nodup_appendNew distinct _

theorem Groups.entries_eq {parts : List Locations} {locations : Locations}
    (groups : Groups parts locations) (distinct : ∀ part ∈ parts, part.entries.Nodup) :
    locations.entries = firstOccurrences (parts.flatMap (·.entries)) := by
  induction groups with
  | nothing => rfl
  | part locations =>
    have alone := congrArg entries (empty_union (distinct locations (List.mem_singleton_self _)))
    rw [List.flatMap_singleton]
    exact alone.symm
  | @union parts others locations more _ _ ihFirst ihLater =>
    have first := ihFirst fun part member => distinct part (List.mem_append_left others member)
    have later := ihLater fun part member => distinct part (List.mem_append_right parts member)
    show appendNew locations.entries more.entries = _
    rw [first, later, List.flatMap_append]
    unfold firstOccurrences
    rw [appendNew_appendNew, List.nil_append, ← appendNew_append]

/-- Locations are accumulated as an ordered union, so those of a definition do not depend on how
    the locations of its fragments are grouped. -/
theorem orderedUnion_of_accumulated {one other third grouped : Locations} {fragments : Fragments}
    (first : Accumulated one) (second : Accumulated other)
    (all : ∀ fragment ∈ fragments.toList, Accumulated fragment.locations)
    (groups : Groups (fragments.toList.map (·.locations)) grouped) :
    OrderedUnion one other third ∧ ∀ (policy : AttributePolicy) (identifier : Identifier),
      (fragments.definition policy identifier).declaration.locations = grouped := by
  have laws : OrderedUnion one other third := {
    distinct := first.nodup
    entries_union := appendNew_eq_append_filter second.nodup
    associative := union_assoc one other third
    empty_union := empty_union first.nodup
    union_empty := rfl
    union_same := union_of_subset fun _ member => member
    union_again := union_of_subset fun _ member => mem_appendNew.mpr (.inl member) }
  have distinct : ∀ part ∈ fragments.toList.map (·.locations), part.entries.Nodup := by
    intro part member
    obtain ⟨fragment, inside, rfl⟩ := List.mem_map.mp member
    exact (all fragment inside).nodup
  have same : fragments.locations.entries = grouped.entries := by
    rw [groups.entries_eq distinct, fragments.locations_entries, List.flatMap_map]
  exact ⟨laws, fun _ _ => congrArg mk same⟩

end Locations

def Fragments.returning : Fragments := ⟨.onLine 1 none, [.onLine 2 none, .onLine 1 none]⟩

theorem Locations.orderedUnion_returning :
    Accumulated (.union (.within "node.idl" 9 4) (.single ⟨"core.idl", .line 1⟩))
      ∧ Accumulated (.union (.single ⟨"core.idl", .line 1⟩) (.within "core.idl" 2 3))
      ∧ (∀ fragment ∈ Fragments.returning.toList, Accumulated fragment.locations)
      ∧ Groups (Fragments.returning.toList.map (·.locations))
        (.union (.single ⟨"node.idl", .line 1⟩)
          (.union (.single ⟨"node.idl", .line 2⟩) (.single ⟨"node.idl", .line 1⟩)))
      ∧ OrderedUnion (.union (.within "node.idl" 9 4) (.single ⟨"core.idl", .line 1⟩))
        (.union (.single ⟨"core.idl", .line 1⟩) (.within "core.idl" 2 3)) (.within "node.idl" 4 9)
      ∧ ∀ (policy : AttributePolicy) (identifier : Identifier),
        (Fragments.returning.definition policy identifier).declaration.locations
          = .union (.single ⟨"node.idl", .line 1⟩)
            (.union (.single ⟨"node.idl", .line 2⟩) (.single ⟨"node.idl", .line 1⟩)) := by
  have first : Accumulated (.union (.within "node.idl" 9 4) (.single ⟨"core.idl", .line 1⟩)) :=
    .union (.within ..) (.single _)
  have second : Accumulated (.union (.single ⟨"core.idl", .line 1⟩) (.within "core.idl" 2 3)) :=
    .union (.single _) (.within ..)
  have all : ∀ fragment ∈ Fragments.returning.toList, Accumulated fragment.locations := by
    intro fragment member
    simp only [Fragments.returning, Fragments.toList, List.mem_cons, List.not_mem_nil,
      or_false] at member
    rcases member with rfl | rfl | rfl <;> exact .single _
  have groups : Groups (Fragments.returning.toList.map (·.locations))
      (.union (.single ⟨"node.idl", .line 1⟩)
        (.union (.single ⟨"node.idl", .line 2⟩) (.single ⟨"node.idl", .line 1⟩))) :=
    .union (.part _) (.union (.part _) (.part _))
  exact ⟨first, second, all, groups, orderedUnion_of_accumulated first second all groups⟩

end WebIdl
