import WebIdl.Interner
import WebIdl.TypeExpr.Basic

namespace WebIdl

abbrev RawType := TypeExpr Identifier

def RawType.text (interner : Interner) (type : RawType) : Except Fault String :=
  return (← type.mapM interner.lookup).text

/-- A reference to a definition of a model: its name and its place there. -/
structure Handle where
  identifier : Identifier
  definition : UInt32
deriving DecidableEq, Repr

inductive Referent where
  | builtin (type : BuiltinType)
  | definition (handle : Handle)
deriving DecidableEq, Repr

namespace Referent

def builtin? : Referent → Option BuiltinType
  | .builtin type => some type
  | .definition _ => none

def handle? : Referent → Option Handle
  | .builtin _ => none
  | .definition handle => some handle

def spelling (interner : Interner) : Referent → Except Fault String
  | .builtin type => .ok type.spelling
  | .definition handle => interner.lookup handle.identifier

end Referent

abbrev ResolvedType := TypeExpr Referent

namespace ResolvedType

def text (interner : Interner) (type : ResolvedType) : Except Fault String :=
  return (← type.mapM (Referent.spelling interner)).text

def references (type : ResolvedType) : List Handle := type.leaves.filterMap (·.handle?)

def builtin? : ResolvedType → Option BuiltinType
  | .leaf referent => referent.builtin?
  | _ => none

def reference? : ResolvedType → Option Handle
  | .leaf referent => referent.handle?
  | _ => none

end ResolvedType

end WebIdl
