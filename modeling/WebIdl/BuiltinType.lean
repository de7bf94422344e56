namespace WebIdl

inductive BuiltinType where
  | any
  | undefined
  | void
  | boolean
  | byte
  | octet
  | short
  | unsignedShort
  | long
  | unsignedLong
  | longLong
  | unsignedLongLong
  | float
  | unrestrictedFloat
  | double
  | unrestrictedDouble
  | bigint
  | domString
  | byteString
  | usvString
  | object
  | symbol
  | arrayBuffer
  | sharedArrayBuffer
  | dataView
  | int8Array
  | int16Array
  | int32Array
  | uint8Array
  | uint16Array
  | uint32Array
  | uint8ClampedArray
  | bigInt64Array
  | bigUint64Array
  | float32Array
  | float64Array
  | arrayBufferView
  | bufferSource
deriving DecidableEq, Repr

namespace BuiltinType

def spelling : BuiltinType → String
  | .any => "any"
  | .undefined => "undefined"
  | .void => "void"
  | .boolean => "boolean"
  | .byte => "byte"
  | .octet => "octet"
  | .short => "short"
  | .unsignedShort => "unsigned short"
  | .long => "long"
  | .unsignedLong => "unsigned long"
  | .longLong => "long long"
  | .unsignedLongLong => "unsigned long long"
  | .float => "float"
  | .unrestrictedFloat => "unrestricted float"
  | .double => "double"
  | .unrestrictedDouble => "unrestricted double"
  | .bigint => "bigint"
  | .domString => "DOMString"
  | .byteString => "ByteString"
  | .usvString => "USVString"
  | .object => "object"
  | .symbol => "symbol"
  | .arrayBuffer => "ArrayBuffer"
  | .sharedArrayBuffer => "SharedArrayBuffer"
  | .dataView => "DataView"
  | .int8Array => "Int8Array"
  | .int16Array => "Int16Array"
  | .int32Array => "Int32Array"
  | .uint8Array => "Uint8Array"
  | .uint16Array => "Uint16Array"
  | .uint32Array => "Uint32Array"
  | .uint8ClampedArray => "Uint8ClampedArray"
  | .bigInt64Array => "BigInt64Array"
  | .bigUint64Array => "BigUint64Array"
  | .float32Array => "Float32Array"
  | .float64Array => "Float64Array"
  | .arrayBufferView => "ArrayBufferView"
  | .bufferSource => "BufferSource"

def integers : List BuiltinType :=
  [.byte, .octet, .short, .unsignedShort, .long, .unsignedLong, .longLong, .unsignedLongLong]

def floats : List BuiltinType := [.float, .unrestrictedFloat, .double, .unrestrictedDouble]

def strings : List BuiltinType := [.domString, .byteString, .usvString]

def bufferSources : List BuiltinType :=
  [.arrayBuffer, .sharedArrayBuffer, .dataView, .int8Array, .int16Array, .int32Array, .uint8Array,
    .uint16Array, .uint32Array, .uint8ClampedArray, .bigInt64Array, .bigUint64Array,
    .float32Array, .float64Array, .arrayBufferView, .bufferSource]

/-- Every builtin type, in the order in which a new interner holds their spellings. -/
def all : List BuiltinType :=
  [.any, .undefined, .void, .boolean] ++ integers ++ floats ++ [.bigint] ++ strings
    ++ [.object, .symbol] ++ bufferSources

theorem mem_all (builtin : BuiltinType) : builtin ∈ all := by
  cases builtin <;> decide

def isInteger (builtin : BuiltinType) : Bool := integers.contains builtin

def isNumeric (builtin : BuiltinType) : Bool :=
  builtin.isInteger || floats.contains builtin || builtin == .bigint

def isString (builtin : BuiltinType) : Bool := strings.contains builtin

def isBufferSource (builtin : BuiltinType) : Bool := bufferSources.contains builtin

def ofSpelling? (spelling : String) : Option BuiltinType :=
  all.find? (·.spelling == spelling)

end BuiltinType

end WebIdl
