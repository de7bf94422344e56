import WebIdl.Problem.Code
import WebIdl.SourceLocation

namespace WebIdl

inductive Severity where
  | error
  | warning
  | note
deriving DecidableEq, Repr

def Severity.text : Severity → String
  | .error => "error"
  | .warning => "warning"
  | .note => "note"

structure Label where
  location : SourceLocation
  message : String
  isPrimary : Bool
deriving DecidableEq, Repr

/-- A primary label is marked by an arrow. -/
def Label.text (label : Label) : String :=
  let marker := if label.isPrimary then "-->" else "   "
  s!"\n  {marker} {label.location.text}: {label.message}"

structure Diagnostic where
  code : ProblemCode
  severity : Severity
  message : String
  labels : List Label
  notes : List String
deriving DecidableEq, Repr

namespace Diagnostic

def new (code : ProblemCode) (severity : Severity) : Diagnostic := ⟨code, severity, "", [], []⟩

def error (code : ProblemCode) : Diagnostic := new code .error

def warning (code : ProblemCode) : Diagnostic := new code .warning

def setMessage (diagnostic : Diagnostic) (message : String) : Diagnostic :=
  { diagnostic with message }

def addLabel (diagnostic : Diagnostic) (label : Label) : Diagnostic :=
  { diagnostic with labels := diagnostic.labels ++ [label] }

def addPrimary (diagnostic : Diagnostic) (location : SourceLocation) (message : String) :
    Diagnostic :=
  diagnostic.addLabel ⟨location, message, true⟩

def addSecondary (diagnostic : Diagnostic) (location : SourceLocation) (message : String) :
    Diagnostic :=
  diagnostic.addLabel ⟨location, message, false⟩

def addNote (diagnostic : Diagnostic) (note : String) : Diagnostic :=
  { diagnostic with notes := diagnostic.notes ++ [note] }

/-- Labels every location with the same message. If they are `leading`, the first one is primary. -/
def addLocations (diagnostic : Diagnostic) (locations : Locations) (message : String)
    (leading : Bool) : Diagnostic :=
  match locations.entries with
  | [] => diagnostic
  | first :: rest =>
    rest.foldl (·.addSecondary · message) (diagnostic.addLabel ⟨first, message, leading⟩)

def primary? (diagnostic : Diagnostic) : Option SourceLocation :=
  (diagnostic.labels.find? (·.isPrimary)).map (·.location)

def isError (diagnostic : Diagnostic) : Bool := diagnostic.severity == .error

def text (diagnostic : Diagnostic) : String :=
  s!"{diagnostic.severity.text} [{diagnostic.code.text}]: {diagnostic.message}"
    ++ String.join (diagnostic.labels.map (·.text))
    ++ String.join (diagnostic.notes.map fun note => s!"\n  = note: {note}")

end Diagnostic

end WebIdl
