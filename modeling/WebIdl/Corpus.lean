import WebIdl.Fragment

namespace WebIdl

/-- The fragments registered so far. Groups are in the order of their handles. In a group the
    fragments are in source order, and in the order of arrival where that is the same. -/
structure Corpus where
  groups : List FragmentGroup
deriving DecidableEq, Repr

namespace Corpus

def empty : Corpus := ⟨[]⟩

instance : Inhabited Corpus := ⟨empty⟩

def insertFragment (fragment : Fragment) : List Fragment → List Fragment
  | [] => [fragment]
  | next :: rest =>
    if fragment.sourceOrder < next.sourceOrder then fragment :: next :: rest
    else next :: insertFragment fragment rest

def insertGroup (fragment : Fragment) : List FragmentGroup → List FragmentGroup
  | [] => [⟨fragment.identifier, [fragment]⟩]
  | group :: rest =>
    if fragment.identifier.raw < group.identifier.raw then
      ⟨fragment.identifier, [fragment]⟩ :: group :: rest
    else if fragment.identifier = group.identifier then
      ⟨group.identifier, insertFragment fragment group.fragments⟩ :: rest
    else
      group :: insertGroup fragment rest

def insert (corpus : Corpus) (fragment : Fragment) : Corpus :=
  ⟨insertGroup fragment corpus.groups⟩

def ofFragments (fragments : List Fragment) : Corpus := fragments.foldl insert empty

def fragmentsOf (corpus : Corpus) (identifier : Identifier) : List Fragment :=
  ((corpus.groups.find? (·.identifier = identifier)).map (·.fragments)).getD []

def identifiers (corpus : Corpus) : List Identifier := corpus.groups.map (·.identifier)

def size (corpus : Corpus) : Nat := corpus.groups.length

def fragments (corpus : Corpus) : List Fragment := corpus.groups.flatMap (·.fragments)

def fragmentCount (corpus : Corpus) : Nat := corpus.fragments.length

def isEmpty (corpus : Corpus) : Bool := corpus.fragmentCount == 0

end Corpus

end WebIdl
