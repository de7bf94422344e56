namespace WebIdl

inductive Wrapper where
  | nullable
  | sequence
  | frozenArray
  | observableArray
  | promise
deriving DecidableEq, Repr

def Wrapper.text : Wrapper → String → String
  | .nullable, inner => inner ++ "?"
  | .sequence, inner => "sequence<" ++ inner ++ ">"
  | .frozenArray, inner => "FrozenArray<" ++ inner ++ ">"
  | .observableArray, inner => "ObservableArray<" ++ inner ++ ">"
  | .promise, inner => "Promise<" ++ inner ++ ">"

/-- A type expression over leaves of type `α`: names before resolution, builtin types and handles
    after it. -/
inductive TypeExpr (α : Type) where
  | leaf (name : α)
  | wrapped (wrapper : Wrapper) (inner : TypeExpr α)
  | record (key value : TypeExpr α)
  | union (members : List (TypeExpr α))
deriving Repr

namespace TypeExpr

variable {α β : Type}

@[elab_as_elim, induction_eliminator]
theorem induction {motive : TypeExpr α → Prop} (leaf : ∀ name, motive (.leaf name))
    (wrapped : ∀ wrapper inner, motive inner → motive (.wrapped wrapper inner))
    (record : ∀ key value, motive key → motive value → motive (.record key value))
    (union : ∀ members, (∀ member ∈ members, motive member) → motive (.union members)) :
    ∀ type, motive type
  | .leaf name => leaf name
  | .wrapped wrapper inner => wrapped wrapper inner (induction leaf wrapped record union inner)
  | .record key value =>
    record key value (induction leaf wrapped record union key)
      (induction leaf wrapped record union value)
  | .union members =>
    union members fun member _ => induction leaf wrapped record union member

mutual

def decEq [DecidableEq α] : (one other : TypeExpr α) → Decidable (one = other)
  | .leaf one, .leaf other =>
    if same : one = other then isTrue (congrArg _ same) else isFalse (same ∘ TypeExpr.leaf.inj)
  | .wrapped wrapper inner, .wrapped wrapper' inner' =>
    match decEq inner inner' with
    | isTrue same =>
      if sameWrapper : wrapper = wrapper' then isTrue (by rw [same, sameWrapper])
      else isFalse fun equal => sameWrapper (TypeExpr.wrapped.inj equal).1
    | isFalse differ => isFalse fun equal => differ (TypeExpr.wrapped.inj equal).2
  | .record key value, .record key' value' =>
    match decEq key key', decEq value value' with
    | isTrue sameKey, isTrue sameValue => isTrue (by rw [sameKey, sameValue])
    | isFalse differ, _ => isFalse fun equal => differ (TypeExpr.record.inj equal).1
    | _, isFalse differ => isFalse fun equal => differ (TypeExpr.record.inj equal).2
  | .union members, .union members' =>
    match decEqList members members' with
    | isTrue same => isTrue (congrArg _ same)
    | isFalse differ => isFalse (differ ∘ TypeExpr.union.inj)
  | .leaf _, .wrapped .. | .leaf _, .record .. | .leaf _, .union _
  | .wrapped .., .leaf _ | .wrapped .., .record .. | .wrapped .., .union _
  | .record .., .leaf _ | .record .., .wrapped .. | .record .., .union _
  | .union _, .leaf _ | .union _, .wrapped .. | .union _, .record .. => isFalse nofun

def decEqList [DecidableEq α] : (one other : List (TypeExpr α)) → Decidable (one = other)
  | [], [] => isTrue rfl
  | type :: types, type' :: types' =>
    match decEq type type', decEqList types types' with
    | isTrue same, isTrue sameRest => isTrue (by rw [same, sameRest])
    | isFalse differ, _ => isFalse fun equal => differ (List.cons.inj equal).1
    | _, isFalse differ => isFalse fun equal => differ (List.cons.inj equal).2
  | [], _ :: _ | _ :: _, [] => isFalse nofun

end

instance [DecidableEq α] : DecidableEq (TypeExpr α) := decEq

mutual

def leaves : TypeExpr α → List α
  | .leaf name => [name]
  | .wrapped _ inner => inner.leaves
  | .record key value => key.leaves ++ value.leaves
  | .union members => leavesList members

def leavesList : List (TypeExpr α) → List α
  | [] => []
  | type :: types => type.leaves ++ leavesList types

end

@[simp] theorem leavesList_eq_flatMap (types : List (TypeExpr α)) :
    leavesList types = types.flatMap leaves := by
  induction types with
  | nil => rfl
  | cons type types ih => simp [leavesList, ih]

mutual

/-- Runs `f` on the leaves from left to right and puts its results in their places. -/
def mapM {m : Type → Type} [Monad m] (f : α → m β) : TypeExpr α → m (TypeExpr β)
  | .leaf name => return .leaf (← f name)
  | .wrapped wrapper inner => return .wrapped wrapper (← inner.mapM f)
  | .record key value => return .record (← key.mapM f) (← value.mapM f)
  | .union members => return .union (← mapMList f members)

def mapMList {m : Type → Type} [Monad m] (f : α → m β) :
    List (TypeExpr α) → m (List (TypeExpr β))
  | [] => return []
  | type :: types => return (← type.mapM f) :: (← mapMList f types)

end

theorem mapMList_eq_mapM {m : Type → Type} [Monad m] [LawfulMonad m] (f : α → m β)
    (types : List (TypeExpr α)) : mapMList f types = types.mapM (mapM f) := by
  induction types with
  | nil => simp [mapMList]
  | cons type types ih => simp [mapMList, ih]

mutual

def text : TypeExpr String → String
  | .leaf spelling => spelling
  | .wrapped wrapper inner => wrapper.text inner.text
  | .record key value => "record<" ++ key.text ++ ", " ++ value.text ++ ">"
  | .union members => "(" ++ " or ".intercalate (textList members) ++ ")"

def textList : List (TypeExpr String) → List String
  | [] => []
  | type :: types => type.text :: textList types

end

def isNullable : TypeExpr α → Bool
  | .wrapped .nullable _ => true
  | _ => false

def withoutNullable : TypeExpr α → TypeExpr α
  | .wrapped .nullable inner => inner
  | type => type

end TypeExpr

end WebIdl
