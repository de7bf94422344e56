namespace WebIdl

/-- What sort of problem was found. Codes below 2000 come from merging fragments, the others from
    resolving references. -/
inductive ProblemCode where
  | kindMismatch
  | conflictingDeclaration
  | duplicateAttribute
  | partialOnly
  | unresolvedReference
  | invalidReference
  | inheritanceCycle
deriving DecidableEq, Repr

namespace ProblemCode

def all : List ProblemCode :=
  [.kindMismatch, .conflictingDeclaration, .duplicateAttribute, .partialOnly,
    .unresolvedReference, .invalidReference, .inheritanceCycle]

def number : ProblemCode → Nat
  | .kindMismatch => 1001
  | .conflictingDeclaration => 1002
  | .duplicateAttribute => 1003
  | .partialOnly => 1004
  | .unresolvedReference => 2001
  | .invalidReference => 2002
  | .inheritanceCycle => 2003

def text (code : ProblemCode) : String := s!"E{code.number}"

def ofText? (text : String) : Option ProblemCode :=
  all.find? (·.text == text.map Char.toUpper)

def description : ProblemCode → String
  | .kindMismatch => "kind mismatch between fragments"
  | .conflictingDeclaration => "conflicting declaration"
  | .duplicateAttribute => "duplicate extended attribute"
  | .partialOnly => "partial definition without a definition"
  | .unresolvedReference => "unresolved reference"
  | .invalidReference => "reference to a definition of the wrong kind"
  | .inheritanceCycle => "inheritance cycle"

def isMerge : ProblemCode → Bool
  | .kindMismatch | .conflictingDeclaration | .duplicateAttribute | .partialOnly => true
  | _ => false

def isResolution : ProblemCode → Bool
  | .unresolvedReference | .invalidReference | .inheritanceCycle => true
  | _ => false

end ProblemCode

end WebIdl
