import WebIdl.Distinct

namespace WebIdl

/-- The lines from `first` to `last`, both included. A caller may hold a range whose ends are
    reversed; `LineRange.of?` never gives one. -/
structure LineRange where
  first : UInt32
  last : UInt32
deriving DecidableEq, Repr

namespace LineRange

structure Reversed where
  first : UInt32
  last : UInt32
deriving DecidableEq, Repr

def Reversed.message (reversed : Reversed) : String :=
  s!"line range end {reversed.last} precedes start {reversed.first}"

def of? (first last : UInt32) : Except Reversed LineRange :=
  if last < first then .error ⟨first, last⟩ else .ok ⟨first, last⟩

def between (one other : UInt32) : LineRange :=
  if other < one then ⟨other, one⟩ else ⟨one, other⟩

def line (line : UInt32) : LineRange := ⟨line, line⟩

/-- The number of lines, if it fits in 32 bits. The range of all lines has one too many and a
    reversed range has less than none. -/
def count? (range : LineRange) : Option UInt32 :=
  if range.last < range.first then none
  else if range.last - range.first = 0xFFFFFFFF then none
  else some (range.last - range.first + 1)

def contains (range : LineRange) (line : UInt32) : Bool :=
  range.first ≤ line && line ≤ range.last

def merge (one other : LineRange) : LineRange where
  first := if one.first ≤ other.first then one.first else other.first
  last := if one.last ≤ other.last then other.last else one.last

def order (one other : LineRange) : Ordering :=
  (compare one.first other.first).then (compare one.last other.last)

def text (range : LineRange) : String :=
  if range.first = range.last then s!"{range.first}" else s!"{range.first}-{range.last}"

end LineRange

structure SourceLocation where
  file : String
  lines : LineRange
deriving DecidableEq, Repr

namespace SourceLocation

def order (one other : SourceLocation) : Ordering :=
  (compare one.file other.file).then (one.lines.order other.lines)

def text (location : SourceLocation) : String := s!"{location.file}:{location.lines.text}"

end SourceLocation

/-- Where a definition comes from: one location for each fragment that contributed, in the order
    of the fragments. -/
structure Locations where
  entries : List SourceLocation
deriving DecidableEq, Repr

namespace Locations

def empty : Locations := ⟨[]⟩

instance : Inhabited Locations := ⟨empty⟩

def single (location : SourceLocation) : Locations := ⟨[location]⟩

def within (file : String) (one other : UInt32) : Locations :=
  single ⟨file, .between one other⟩

def isEmpty (locations : Locations) : Bool := locations.entries.isEmpty

def first? (locations : Locations) : Option SourceLocation := locations.entries.head?

def union (locations more : Locations) : Locations :=
  ⟨appendNew locations.entries more.entries⟩

def text (locations : Locations) : String :=
  if locations.isEmpty then "<unknown location>"
  else ", ".intercalate (locations.entries.map (·.text))

end Locations

end WebIdl
