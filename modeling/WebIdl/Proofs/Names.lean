import WebIdl.Proofs.Merging
import WebIdl.Proofs.Resolving

namespace WebIdl

namespace Member

variable {τ : Type}

/-- The names that a member gives: its own, those of its arguments and its component. -/
def labels (member : Member τ) : List Identifier :=
  member.origin.component.name :: (member.name?.toList ++ member.arguments.map (·.name))

end Member

namespace DictionaryMember

variable {τ : Type}

def labels (member : DictionaryMember τ) : List Identifier :=
  [member.origin.component.name, member.name]

end DictionaryMember

namespace Body

variable {ρ τ : Type}

def labels : Body ρ τ → List Identifier
  | .callbackFunction _ arguments => arguments.map (·.name)
  | .dictionary _ members => members.flatMap (·.labels)
  | body => body.members.flatMap (·.labels)

def names (body : RawBody) : List Identifier :=
  body.inherited?.toList ++ body.includes ++ body.labels ++ body.types.flatMap (·.leaves)

end Body

/-- Every name that is written in a fragment, wherever it stands. -/
def Fragment.names (fragment : Fragment) : List Identifier :=
  fragment.identifier :: fragment.component.name :: fragment.body.names

section
variable {occurrence : Occurrence} {name : Identifier}

theorem TypeExpr.names_of_mem_occurrences {position : Position} {type : RawType}
    (member : occurrence ∈ type.occurrences position) (isName : name ∈ occurrence.names) :
    name ∈ position.names ∨ name ∈ type.leaves := by
  obtain ⟨leaf, isLeaf, rfl⟩ := List.mem_map.mp member
  rcases List.mem_cons.mp isName with rfl | isName
  · exact .inr isLeaf
  · exact .inl isName

theorem Argument.names_of_mem_occurrences {position : Identifier → Position}
    {arguments : List (Argument RawType)} {others : List Identifier}
    (positions : ∀ argument, (position argument).names ⊆ argument :: others)
    (member : occurrence ∈ arguments.flatMap (·.occurrences position))
    (isName : name ∈ occurrence.names) :
    name ∈ others ++ arguments.map (·.name)
      ∨ ∃ type ∈ arguments.map (·.type), name ∈ type.leaves := by
  obtain ⟨argument, inside, member⟩ := List.mem_flatMap.mp member
  rcases TypeExpr.names_of_mem_occurrences member isName with placed | isLeaf
  · rcases List.mem_cons.mp (positions argument.name placed) with rfl | other
    · exact .inl (List.mem_append_right _ (List.mem_map_of_mem inside))
    · exact .inl (List.mem_append_left _ other)
  · exact .inr ⟨argument.type, List.mem_map_of_mem inside, isLeaf⟩

theorem Member.names_of_mem_occurrences {member : Member RawType}
    (inside : occurrence ∈ member.occurrences) (isName : name ∈ occurrence.names) :
    name ∈ member.labels ∨ ∃ type ∈ member.types, name ∈ type.leaves := by
  obtain ⟨shape, _, _, _⟩ := member
  cases shape with
  | attr memberName type _ | constant memberName type _ =>
    rcases TypeExpr.names_of_mem_occurrences inside isName with placed | isLeaf
    · exact .inl (List.mem_cons_of_mem _ placed)
    · exact .inr ⟨type, List.mem_singleton_self _, isLeaf⟩
  | operation memberName returnType arguments _ =>
    rcases List.mem_append.mp inside with inside | inside
    · rcases TypeExpr.names_of_mem_occurrences inside isName with placed | isLeaf
      · exact .inl (List.mem_cons_of_mem _ (List.mem_append_left _ placed))
      · exact .inr ⟨returnType, List.mem_cons_self, isLeaf⟩
    · rcases Argument.names_of_mem_occurrences (fun _ => List.Subset.refl _) inside isName with
        label | ⟨type, isType, isLeaf⟩
      · exact .inl (List.mem_cons_of_mem _ label)
      · exact .inr ⟨type, List.mem_cons_of_mem _ isType, isLeaf⟩
  | constructor arguments =>
    rcases Argument.names_of_mem_occurrences (fun _ => List.Subset.refl _) inside isName with
      label | inType
    · exact .inl (List.mem_cons_of_mem _ label)
    · exact .inr inType

theorem DictionaryMember.names_of_mem_occurrences {member : DictionaryMember RawType}
    (inside : occurrence ∈ member.occurrences) (isName : name ∈ occurrence.names) :
    name ∈ member.labels ∨ name ∈ member.type.leaves :=
  (TypeExpr.names_of_mem_occurrences inside isName).imp_left (List.mem_cons_of_mem _)

end

namespace Body

theorem mem_occurrences_iff {body : RawBody} {occurrence : Occurrence} :
    occurrence ∈ body.occurrences ↔
      (∃ parent ∈ body.inherited?, occurrence = .reference body.kind .inheritance parent)
        ∨ (∃ mixin ∈ body.includes, occurrence = .reference .interfaceMixin .includes mixin)
        ∨ (∃ member ∈ body.members, occurrence ∈ member.occurrences)
        ∨ (∃ member ∈ body.dictionaryMembers, occurrence ∈ member.occurrences)
        ∨ body.IsWhole ∧ occurrence ∈ body.occurrences := by
  cases body <;>
    simp [occurrences, inherited?, includes, members, dictionaryMembers, IsWhole, kind, eq_comm]

theorem mem_names_iff {body : RawBody} {name : Identifier} :
    name ∈ body.names ↔ name ∈ body.inherited? ∨ name ∈ body.includes ∨ name ∈ body.labels
      ∨ ∃ type ∈ body.types, name ∈ type.leaves := by
  simp only [names, List.mem_append, Option.mem_toList, Option.mem_def, List.mem_flatMap, or_assoc]

theorem mem_labels_iff {body : RawBody} {name : Identifier} :
    name ∈ body.labels ↔ (∃ member ∈ body.members, name ∈ member.labels)
      ∨ (∃ member ∈ body.dictionaryMembers, name ∈ member.labels)
      ∨ body.IsWhole ∧ name ∈ body.labels := by
  cases body <;> simp [labels, members, dictionaryMembers, IsWhole, kind]

theorem names_of_mem_occurrences {body : RawBody} {occurrence : Occurrence}
    (inside : occurrence ∈ body.occurrences) {name : Identifier} (isName : name ∈ occurrence.names) :
    name ∈ body.names := by
  have inMembers (members : List (Member RawType))
      (inside : occurrence ∈ members.flatMap (·.occurrences)) :
      name ∈ members.flatMap (·.labels)
        ∨ ∃ type ∈ members.flatMap (·.types), name ∈ type.leaves := by
    obtain ⟨member, isMember, inside⟩ := List.mem_flatMap.mp inside
    rcases Member.names_of_mem_occurrences inside isName with label | ⟨type, isType, isLeaf⟩
    · exact .inl (List.mem_flatMap.mpr ⟨member, isMember, label⟩)
    · exact .inr ⟨type, List.mem_flatMap.mpr ⟨member, isMember, isType⟩, isLeaf⟩
  rw [mem_names_iff]
  rcases mem_occurrences_iff.mp inside with
    ⟨parent, stated, rfl⟩ | ⟨mixin, stated, rfl⟩ | ⟨member, isMember, stands⟩
      | ⟨member, isMember, stands⟩ | ⟨whole, -⟩
  · exact .inl (List.mem_singleton.mp isName ▸ stated)
  · exact .inr (.inl (List.mem_singleton.mp isName ▸ stated))
  · have found := inMembers body.members (List.mem_flatMap.mpr ⟨member, isMember, stands⟩)
    cases body <;> first | exact .inr (.inr found) | nomatch isMember
  · cases body with
    | dictionary inherited members =>
      refine .inr (.inr ?_)
      rcases DictionaryMember.names_of_mem_occurrences stands isName with label | isLeaf
      · exact .inl (List.mem_flatMap.mpr ⟨member, isMember, label⟩)
      · exact .inr ⟨member.type, List.mem_map_of_mem isMember, isLeaf⟩
    | _ => nomatch isMember
  · refine .inr (.inr ?_)
    cases body with
    | callbackFunction returnType arguments =>
      rcases List.mem_append.mp inside with inside | inside
      · have isLeaf := (TypeExpr.names_of_mem_occurrences inside isName).resolve_left
          List.not_mem_nil
        exact .inr ⟨returnType, List.mem_cons_self, isLeaf⟩
      · rcases Argument.names_of_mem_occurrences (fun _ => List.Subset.refl _) inside isName with
          label | ⟨type, isType, isLeaf⟩
        · exact .inl label
        · exact .inr ⟨type, List.mem_cons_of_mem _ isType, isLeaf⟩
    | enumeration values => nomatch inside
    | typedef target =>
      have isLeaf := (TypeExpr.names_of_mem_occurrences inside isName).resolve_left
        List.not_mem_nil
      exact .inr ⟨target, List.mem_singleton_self _, isLeaf⟩
    | _ => simp [IsWhole, kind] at whole

theorem Agrees.eq_of_isWhole {one other : RawBody} (agrees : one.Agrees other)
    (same : one.kind = other.kind) (whole : one.IsWhole) : one = other := by
  cases one <;> cases other <;> simp only [kind, reduceCtorEq, IsWhole, or_self] at same whole
  · obtain ⟨rfl, rfl⟩ := agrees.signature _ _ _ _ rfl rfl
    rfl
  · rw [agrees.values _ _ rfl rfl]
  · rw [agrees.target _ _ rfl rfl]

end Body

theorem Fragments.isWhole_first {fragments : Fragments} (whole : fragments.body.IsWhole) :
    fragments.first.body.IsWhole := by
  have same : fragments.body.kind = fragments.first.body.kind := fragments.kind_body
  unfold Body.IsWhole at whole ⊢
  rwa [← same]

namespace Mergeable

variable {policy : AttributePolicy} {fragments : Fragments}

theorem kind_eq (mergeable : Mergeable policy fragments.toList) :
    ∀ fragment ∈ fragments.toList, fragment.kind = fragments.kind :=
  fun fragment member => mergeable.oneKind fragment member _ List.mem_cons_self

theorem inherited?_body_iff (mergeable : Mergeable policy fragments.toList) {parent : Identifier} :
    parent ∈ fragments.body.inherited?
      ↔ ∃ fragment ∈ fragments.toList, parent ∈ fragment.body.inherited? := by
  rw [Fragments.inherited?_body mergeable.kind_eq]
  constructor
  · intro stated
    obtain ⟨_, fragment, _, same, isParent, _⟩ := List.findSome?_eq_some_iff.mp stated
    exact ⟨fragment, by simp [same], isParent⟩
  · rintro ⟨fragment, member, stated⟩
    cases found : fragments.toList.findSome? (·.body.inherited?) with
    | none =>
      have unstated := List.findSome?_eq_none_iff.mp found fragment member
      rw [unstated] at stated
      nomatch stated
    | some first =>
      obtain ⟨_, other, _, same, isFirst, _⟩ := List.findSome?_eq_some_iff.mp found
      have member' : other ∈ fragments.toList := by simp [same]
      rw [(mergeable.agree fragment member other member').parent _ stated _ isFirst]
      rfl

theorem mem_includes_body_iff (mergeable : Mergeable policy fragments.toList) {mixin : Identifier} :
    mixin ∈ fragments.body.includes
      ↔ ∃ fragment ∈ fragments.toList, mixin ∈ fragment.body.includes := by
  rw [Fragments.includes_body mergeable.kind_eq, mem_firstOccurrences, List.mem_flatMap]

theorem mem_members_body_iff (mergeable : Mergeable policy fragments.toList)
    {member : Member RawType} :
    member ∈ fragments.body.members ↔ ∃ fragment ∈ fragments.toList,
      ∃ original ∈ fragment.body.members, original.setOrigin fragment.origin = member := by
  rw [Fragments.members_body mergeable.kind_eq, List.mem_flatMap]
  simp only [List.mem_map]

theorem mem_dictionaryMembers_body_iff (mergeable : Mergeable policy fragments.toList)
    {member : DictionaryMember RawType} :
    member ∈ fragments.body.dictionaryMembers ↔ ∃ fragment ∈ fragments.toList,
      ∃ original ∈ fragment.body.dictionaryMembers,
        original.setOrigin fragment.origin = member := by
  rw [Fragments.dictionaryMembers_body mergeable.kind_eq, List.mem_flatMap]
  simp only [List.mem_map]

theorem body_eq_of_isWhole (mergeable : Mergeable policy fragments.toList) {fragment : Fragment}
    (member : fragment ∈ fragments.toList) (whole : fragment.body.IsWhole) :
    fragments.body = fragment.body := by
  have first := mergeable.agree fragment member fragments.first List.mem_cons_self
  have same := first.eq_of_isWhole (mergeable.kind_eq fragment member) whole
  rw [Fragments.body_of_isWhole (same ▸ whole), ← same]

theorem mem_occurrences_body (mergeable : Mergeable policy fragments.toList)
    {occurrence : Occurrence} :
    occurrence ∈ fragments.body.occurrences
      ↔ ∃ fragment ∈ fragments.toList, occurrence ∈ fragment.body.occurrences := by
  have kind (fragment : Fragment) (member : fragment ∈ fragments.toList) :
      fragments.body.kind = fragment.body.kind :=
    fragments.kind_body.trans (mergeable.kind_eq fragment member).symm
  constructor
  · intro inside
    rcases Body.mem_occurrences_iff.mp inside with
      ⟨parent, stated, rfl⟩ | ⟨mixin, stated, rfl⟩ | ⟨merged, isMerged, inside⟩
        | ⟨merged, isMerged, inside⟩ | ⟨whole, inside⟩
    · obtain ⟨fragment, member, stated⟩ := mergeable.inherited?_body_iff.mp stated
      exact ⟨fragment, member,
        Body.mem_occurrences_iff.mpr (.inl ⟨parent, stated, by rw [kind fragment member]⟩)⟩
    · obtain ⟨fragment, member, stated⟩ := mergeable.mem_includes_body_iff.mp stated
      exact ⟨fragment, member, Body.mem_occurrences_iff.mpr (.inr (.inl ⟨mixin, stated, rfl⟩))⟩
    · obtain ⟨fragment, member, original, isOriginal, rfl⟩ :=
        mergeable.mem_members_body_iff.mp isMerged
      exact ⟨fragment, member,
        Body.mem_occurrences_iff.mpr (.inr (.inr (.inl ⟨original, isOriginal, inside⟩)))⟩
    · obtain ⟨fragment, member, original, isOriginal, rfl⟩ :=
        mergeable.mem_dictionaryMembers_body_iff.mp isMerged
      exact ⟨fragment, member,
        Body.mem_occurrences_iff.mpr (.inr (.inr (.inr (.inl ⟨original, isOriginal, inside⟩))))⟩
    · have same := Fragments.body_of_isWhole (Fragments.isWhole_first whole)
      exact ⟨fragments.first, List.mem_cons_self, same ▸ inside⟩
  · rintro ⟨fragment, member, inside⟩
    rcases Body.mem_occurrences_iff.mp inside with
      ⟨parent, stated, rfl⟩ | ⟨mixin, stated, rfl⟩ | ⟨original, isOriginal, inside⟩
        | ⟨original, isOriginal, inside⟩ | ⟨whole, inside⟩
    · have merged := mergeable.inherited?_body_iff.mpr ⟨fragment, member, stated⟩
      exact Body.mem_occurrences_iff.mpr (.inl ⟨parent, merged, by rw [kind fragment member]⟩)
    · have merged := mergeable.mem_includes_body_iff.mpr ⟨fragment, member, stated⟩
      exact Body.mem_occurrences_iff.mpr (.inr (.inl ⟨mixin, merged, rfl⟩))
    · have merged := mergeable.mem_members_body_iff.mpr ⟨fragment, member, original, isOriginal, rfl⟩
      exact Body.mem_occurrences_iff.mpr (.inr (.inr (.inl ⟨_, merged, inside⟩)))
    · have merged := mergeable.mem_dictionaryMembers_body_iff.mpr
        ⟨fragment, member, original, isOriginal, rfl⟩
      exact Body.mem_occurrences_iff.mpr (.inr (.inr (.inr (.inl ⟨_, merged, inside⟩))))
    · rw [mergeable.body_eq_of_isWhole member whole]
      exact inside

theorem names_of_mem_labels_body (mergeable : Mergeable policy fragments.toList)
    {name : Identifier} (label : name ∈ fragments.body.labels) :
    ∃ fragment ∈ fragments.toList, name ∈ fragment.names := by
  have given {fragment : Fragment} (label : name ∈ fragment.body.labels) :
      name ∈ fragment.names := by
    refine List.mem_cons_of_mem _ (List.mem_cons_of_mem _ ?_)
    exact Body.mem_names_iff.mpr (.inr (.inr (.inl label)))
  rcases Body.mem_labels_iff.mp label with
    ⟨merged, isMerged, label⟩ | ⟨merged, isMerged, label⟩ | ⟨whole, label⟩
  · obtain ⟨fragment, member, original, isOriginal, rfl⟩ :=
      mergeable.mem_members_body_iff.mp isMerged
    refine ⟨fragment, member, ?_⟩
    rcases List.mem_cons.mp label with rfl | label
    · exact List.mem_cons_of_mem _ List.mem_cons_self
    · exact given (Body.mem_labels_iff.mpr
        (.inl ⟨original, isOriginal, List.mem_cons_of_mem _ label⟩))
  · obtain ⟨fragment, member, original, isOriginal, rfl⟩ :=
      mergeable.mem_dictionaryMembers_body_iff.mp isMerged
    refine ⟨fragment, member, ?_⟩
    rcases List.mem_cons.mp label with rfl | label
    · exact List.mem_cons_of_mem _ List.mem_cons_self
    · exact given (Body.mem_labels_iff.mpr
        (.inr (.inl ⟨original, isOriginal, List.mem_cons_of_mem _ label⟩)))
  · have same := Fragments.body_of_isWhole (Fragments.isWhole_first whole)
    exact ⟨fragments.first, List.mem_cons_self, given (same ▸ label)⟩

end Mergeable

end WebIdl
