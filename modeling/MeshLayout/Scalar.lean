/-!
# Scalars

The values of a field are numbers of one of six types. Whole numbers add modulo the width of
their type; binary fractions add by the rules of IEEE 754, so their sums depend on the order of
the terms.
-/

set_option autoImplicit false

namespace MeshLayout

inductive Scalar
  | i32
  | i64
  | u32
  | u64
  | f32
  | f64
  deriving DecidableEq, Repr

namespace Scalar

abbrev Carrier : Scalar → Type
  | i32 => Int32
  | i64 => Int64
  | u32 => UInt32
  | u64 => UInt64
  | f32 => Float32
  | f64 => Float

def zero : (scalar : Scalar) → scalar.Carrier
  | i32 => (0 : Int32)
  | i64 => (0 : Int64)
  | u32 => (0 : UInt32)
  | u64 => (0 : UInt64)
  | f32 => (0 : Float32)
  | f64 => (0 : Float)

def add : (scalar : Scalar) → scalar.Carrier → scalar.Carrier → scalar.Carrier
  | i32, (a : Int32), b => a + b
  | i64, (a : Int64), b => a + b
  | u32, (a : UInt32), b => a + b
  | u64, (a : UInt64), b => a + b
  | f32, (a : Float32), b => a + b
  | f64, (a : Float), b => a + b

def isInteger : Scalar → Bool
  | i32 | i64 | u32 | u64 => true
  | f32 | f64 => false

def width : Scalar → Nat
  | i32 | u32 | f32 => 4
  | i64 | u64 | f64 => 8

def all : List Scalar := [i32, i64, u32, u64, f32, f64]

def label : Scalar → String
  | i32 => "i32"
  | i64 => "i64"
  | u32 => "u32"
  | u64 => "u64"
  | f32 => "f32"
  | f64 => "f64"

def title : Scalar → String
  | i32 => "I32"
  | i64 => "I64"
  | u32 => "U32"
  | u64 => "U64"
  | f32 => "F32"
  | f64 => "F64"

def ofLabel? (label : String) : Option Scalar := all.find? (·.label == label)

instance : ToString Scalar := ⟨label⟩

end Scalar

structure Cell (scalar : Scalar) where
  value : scalar.Carrier

namespace Cell

variable {scalar : Scalar}

def store (_ : Cell scalar) (value : scalar.Carrier) : Cell scalar := ⟨value⟩

def fetchAdd (cell : Cell scalar) (value : scalar.Carrier) : scalar.Carrier × Cell scalar :=
  (cell.value, ⟨scalar.add cell.value value⟩)

end Cell

end MeshLayout
