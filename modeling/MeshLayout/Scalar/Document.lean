import MeshLayout.Json
import MeshLayout.Scalar

/-!
# Values as documents

Whole numbers are written as numbers. A fraction is written as a text with its bits in
hexadecimal, so that no digit is lost; all values that are no number are written `nan`.
-/

set_option autoImplicit false

namespace MeshLayout

namespace Bits

def digit (c : Char) : Nat :=
  if c.isDigit then c.toNat - '0'.toNat else c.toNat - 'a'.toNat + 10

def read (text : String) : Nat := (text.toList.drop 2).foldl (fun n c => 16 * n + digit c) 0

def write (width n : Nat) : String :=
  let digits := Nat.toDigits 16 n
  "0x" ++ String.ofList (List.replicate (width - digits.length) '0' ++ digits)

end Bits

namespace Scalar

def ofJson? : Json → Option Scalar
  | .text label => ofLabel? label
  | _ => none

def writeFloat (x : Float) : Json := .text (if x.isNaN then "nan" else Bits.write 16 x.toBits.toNat)

def readFloat (text : String) : Float :=
  Float.ofBits (if text = "nan" then 0x7FF8000000000000 else (Bits.read text).toUInt64)

def writeValue : (scalar : Scalar) → scalar.Carrier → Json
  | i32, (n : Int32) => .integer n.toInt
  | i64, (n : Int64) => .integer n.toInt
  | u32, (n : UInt32) => .ofNat n.toNat
  | u64, (n : UInt64) => .ofNat n.toNat
  | f32, (x : Float32) => .text (if x.isNaN then "nan" else Bits.write 8 x.toBits.toNat)
  | f64, (x : Float) => writeFloat x

def readValue : (scalar : Scalar) → Json → Option scalar.Carrier
  | i32, value => value.integer?.map Int32.ofInt
  | i64, value => value.integer?.map Int64.ofInt
  | u32, value => value.integer?.map fun n => UInt32.ofNat n.toNat
  | u64, value => value.integer?.map fun n => UInt64.ofNat n.toNat
  | f32, value => value.text?.map fun text =>
    Float32.ofBits (if text = "nan" then 0x7FC00000 else (Bits.read text).toUInt32)
  | f64, value => value.text?.map readFloat

def writeValues (scalar : Scalar) (values : Array scalar.Carrier) : Json :=
  .ofList (writeValue scalar) values.toList

def readValues (scalar : Scalar) (value : Json) : Option (Array scalar.Carrier) := do
  return (← (← value.items?).mapM (readValue scalar)).toArray

end Scalar

end MeshLayout
