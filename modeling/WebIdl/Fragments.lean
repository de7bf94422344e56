import WebIdl.Definition
import WebIdl.ExtendedAttribute.Policy
import WebIdl.Problem.Basic
import WebIdl.Statement

namespace WebIdl

def AttributePolicy.agreement (policy : AttributePolicy) : Agreement ExtendedAttribute String :=
  ⟨ExtendedAttribute.key, policy.isRepeatable⟩

namespace Fragment

def sourcedAttributes (fragment : Fragment) : List (Sourced ExtendedAttribute) :=
  fragment.attributes.entries.map (⟨·, fragment.locations⟩)

def sourcedStatements (fragment : Fragment) : List (Sourced Statement) :=
  fragment.body.statements.map (⟨·, fragment.locations⟩)

def sourcedHints (fragment : Fragment) : GeneratorHints × Locations :=
  (fragment.hints, fragment.locations)

def originBody (fragment : Fragment) : RawBody := fragment.body.setOrigin fragment.origin

end Fragment

def Conflict.attributeCause (conflict : Conflict ExtendedAttribute) : Problem.Cause :=
  .duplicateAttribute conflict.later.value.key conflict.earlier.locations conflict.later.locations

def Conflict.statementCause (conflict : Conflict Statement) : Problem.Cause :=
  .conflictingDeclaration conflict.later.value.field conflict.earlier.locations
    conflict.later.locations

structure Fragments where
  first : Fragment
  others : List Fragment

namespace Fragments

def toList (fragments : Fragments) : List Fragment := fragments.first :: fragments.others

def kind (fragments : Fragments) : Kind := fragments.first.kind

def sameKind (fragments : Fragments) : Bool := fragments.others.all (·.kind = fragments.kind)

def onlyPartial (fragments : Fragments) : Bool :=
  fragments.kind.allowsPartial && fragments.toList.all (·.isPartial)

def locations (fragments : Fragments) : Locations :=
  fragments.toList.foldl (·.union ·.locations) .empty

def components (fragments : Fragments) : List Component :=
  firstOccurrences (fragments.toList.map (·.component))

def body (fragments : Fragments) : RawBody :=
  fragments.others.foldl (·.append ·.originBody) fragments.first.originBody.withDistinctIncludes

def attributes (policy : AttributePolicy) (fragments : Fragments) :
    List (Sourced ExtendedAttribute) × List (List (Conflict ExtendedAttribute)) :=
  policy.agreement.addEach [] (fragments.toList.map (·.sourcedAttributes))

def statements (fragments : Fragments) :
    List (Sourced Statement) × List (List (Conflict Statement)) :=
  Statement.agreement.addEach [] (fragments.toList.map (·.sourcedStatements))

def hints (fragments : Fragments) : GeneratorHints × List GeneratorHints.Override :=
  GeneratorHints.unset.updateAll (fragments.toList.map (·.sourcedHints))

/-- What the fragments disagree on. The causes of one fragment stand together: first those of its
    extended attributes, then those of its statements. -/
def disagreements (policy : AttributePolicy) (fragments : Fragments) : List Problem.Cause :=
  let causes := List.zipWith
    (fun attributes statements =>
      attributes.map Conflict.attributeCause ++ statements.map Conflict.statementCause)
    (fragments.attributes policy).2 fragments.statements.2
  causes.flatten

def causes (policy : AttributePolicy) (fragments : Fragments) : List Problem.Cause :=
  if fragments.onlyPartial then
    .partialOnly fragments.kind fragments.locations :: fragments.disagreements policy
  else
    fragments.disagreements policy

def kindMismatch (fragments : Fragments) : Problem.Cause :=
  .kindMismatch (fragments.toList.map fun fragment => (fragment.kind, fragment.locations))

def definition (policy : AttributePolicy) (identifier : Identifier) (fragments : Fragments) :
    RawDefinition where
  declaration :=
    { identifier
      attributes := ⟨(fragments.attributes policy).1.map (·.value)⟩
      hints := fragments.hints.1
      overrides := fragments.hints.2
      components := fragments.components
      locations := fragments.locations }
  body := fragments.body

/-- The merged definition, or everything that is wrong with its fragments. Fragments of several
    kinds are not compared any further. -/
def merge (policy : AttributePolicy) (identifier : Identifier) (name : String)
    (fragments : Fragments) : Except (List Problem) RawDefinition :=
  if fragments.sameKind then
    match fragments.causes policy with
    | [] => .ok (fragments.definition policy identifier)
    | causes => .error (causes.map (⟨identifier, name, ·⟩))
  else
    .error [⟨identifier, name, fragments.kindMismatch⟩]

end Fragments

end WebIdl
