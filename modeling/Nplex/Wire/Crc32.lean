import Nplex.Types

/-!
# CRC-32

`CRC32::CRC32` of `cppcrc.h`: the reflected CRC with polynomial `0x04C11DB7`, whose initial value and
final exclusive or are `0xFFFFFFFF`. A calculation over pieces hands the value of one piece to the
next one, and gives the value over all the bytes.
-/

namespace Nplex

namespace Crc32

/-- The polynomial. -/
def poly : UInt32 := 0x04C11DB7

/-- The final mask. -/
def xOrOut : UInt32 := 0xFFFFFFFF

/-- The reversed half bytes. -/
def lookup : List UInt8 :=
  [0x0, 0x8, 0x4, 0xc, 0x2, 0xa, 0x6, 0xe, 0x1, 0x9, 0x5, 0xd, 0x3, 0xb, 0x7, 0xf]

/-- `reverse_bits` of a `uint8_t`. -/
def reverseBits8 (x : UInt8) : UInt8 :=
  (lookup.getD (x &&& 0x0f).toNat 0 <<< 4) ||| lookup.getD (x >>> 4).toNat 0

/-- `reverse_bits` of a `uint16_t`. -/
def reverseBits16 (x : UInt16) : UInt16 :=
  ((reverseBits8 x.toUInt8).toUInt16 <<< 8) ||| (reverseBits8 (x >>> 8).toUInt8).toUInt16

/-- `reverse_bits` of a `uint32_t`. -/
def reverseBits (x : UInt32) : UInt32 :=
  ((reverseBits16 x.toUInt16).toUInt32 <<< 16) ||| (reverseBits16 (x >>> 16).toUInt16).toUInt32

/-- One turn of the loop of `get_crc_table_value_at_index`. -/
def tableTurn (remainder : UInt32) : UInt32 :=
  if remainder &&& 0x80000000 != 0 then (remainder <<< 1) ^^^ poly else remainder <<< 1

/-- `get_crc_table_value_at_index`. -/
def tableValue (index : UInt8) : UInt32 :=
  reverseBits (Nat.iterate tableTurn 32 (reverseBits index.toUInt32 >>> 24))

/-- One turn of the loop of `calculate_crc`. -/
def turn (crc : UInt32) (byte : UInt8) : UInt32 :=
  tableValue (byte ^^^ crc.toUInt8) ^^^ (crc >>> 8)

/-- `calculate_crc`, whose reflections are in the table. -/
def calculateCrc (bytes : Bytes) (crc : UInt32) : UInt32 :=
  bytes.foldl turn (reverseBits crc) ^^^ xOrOut

/-- The CRC of no data. -/
def nullCrc : UInt32 := reverseBits 0xFFFFFFFF ^^^ xOrOut

/-- `crc::calc`, which goes on from a prior value. -/
def crcCalc (bytes : Bytes) (prior : UInt32) : UInt32 :=
  calculateCrc bytes (reverseBits (prior ^^^ xOrOut))

example : crcCalc [84, 104, 101] nullCrc = 0x04082b06 := by decide +kernel

/-- Reversing the bits of a byte twice. -/
theorem reverseBits8_reverseBits8 (x : UInt8) : reverseBits8 (reverseBits8 x) = x := by
  have hall : ∀ n : Fin 256, reverseBits8 (reverseBits8 (UInt8.ofNat n)) = UInt8.ofNat n := by
    decide +kernel
  simpa using hall ⟨x.toNat, x.toNat_lt⟩

/-- The two bytes of a word. -/
theorem toNat_join16 (hi lo : UInt8) :
    ((hi.toUInt16 <<< 8) ||| lo.toUInt16).toNat = hi.toNat * 256 + lo.toNat := by
  have hlo : lo.toNat < 2 ^ 8 := lo.toNat_lt
  have hhi := hi.toNat_lt
  have hshift : (hi.toUInt16 <<< 8).toNat = hi.toNat <<< 8 := by
    simp [Nat.shiftLeft_eq]
    omega
  rw [UInt16.toNat_or, hshift, UInt8.toNat_toUInt16, ← Nat.shiftLeft_add_eq_or_of_lt hlo,
    Nat.shiftLeft_eq]

/-- The two halves of a double word. -/
theorem toNat_join32 (hi lo : UInt16) :
    ((hi.toUInt32 <<< 16) ||| lo.toUInt32).toNat = hi.toNat * 65536 + lo.toNat := by
  have hlo : lo.toNat < 2 ^ 16 := lo.toNat_lt
  have hhi := hi.toNat_lt
  have hshift : (hi.toUInt32 <<< 16).toNat = hi.toNat <<< 16 := by
    simp [Nat.shiftLeft_eq]
    omega
  rw [UInt32.toNat_or, hshift, UInt16.toNat_toUInt32, ← Nat.shiftLeft_add_eq_or_of_lt hlo,
    Nat.shiftLeft_eq]

/-- Reversing those of two bytes twice. -/
theorem reverseBits16_reverseBits16 (x : UInt16) : reverseBits16 (reverseBits16 x) = x := by
  have hjoin := toNat_join16 (reverseBits8 x.toUInt8) (reverseBits8 (x >>> 8).toUInt8)
  have hhi := (reverseBits8 x.toUInt8).toNat_lt
  have hlo := (reverseBits8 (x >>> 8).toUInt8).toNat_lt
  have hfirst : (reverseBits16 x).toUInt8 = reverseBits8 (x >>> 8).toUInt8 := by
    apply UInt8.toNat_inj.mp
    rw [reverseBits16, UInt16.toNat_toUInt8, hjoin]
    omega
  have hsecond : (reverseBits16 x >>> 8).toUInt8 = reverseBits8 x.toUInt8 := by
    apply UInt8.toNat_inj.mp
    rw [reverseBits16, UInt16.toNat_toUInt8, UInt16.toNat_shiftRight, hjoin, Nat.shiftRight_eq_div_pow]
    simp
    omega
  apply UInt16.toNat_inj.mp
  rw [reverseBits16, hfirst, hsecond, reverseBits8_reverseBits8, reverseBits8_reverseBits8,
    toNat_join16]
  simp [Nat.shiftRight_eq_div_pow]
  have hx := x.toNat_lt
  omega

/-- Reversing twice changes nothing. -/
theorem reverseBits_reverseBits (x : UInt32) : reverseBits (reverseBits x) = x := by
  have hjoin := toNat_join32 (reverseBits16 x.toUInt16) (reverseBits16 (x >>> 16).toUInt16)
  have hhi := (reverseBits16 x.toUInt16).toNat_lt
  have hlo := (reverseBits16 (x >>> 16).toUInt16).toNat_lt
  have hfirst : (reverseBits x).toUInt16 = reverseBits16 (x >>> 16).toUInt16 := by
    apply UInt16.toNat_inj.mp
    rw [reverseBits, UInt32.toNat_toUInt16, hjoin]
    omega
  have hsecond : (reverseBits x >>> 16).toUInt16 = reverseBits16 x.toUInt16 := by
    apply UInt16.toNat_inj.mp
    rw [reverseBits, UInt32.toNat_toUInt16, UInt32.toNat_shiftRight, hjoin, Nat.shiftRight_eq_div_pow]
    simp
    omega
  apply UInt32.toNat_inj.mp
  rw [reverseBits, hfirst, hsecond, reverseBits16_reverseBits16, reverseBits16_reverseBits16,
    toNat_join32]
  simp [Nat.shiftRight_eq_div_pow]
  have hx := x.toNat_lt
  omega

/-- A calculation that goes on from the value of the first bytes is one over all the bytes. -/
theorem crcCalc_append (first second : Bytes) (prior : UInt32) :
    crcCalc second (crcCalc first prior) = crcCalc (first ++ second) prior := by
  simp [crcCalc, calculateCrc, reverseBits_reverseBits, List.foldl_append]

end Crc32

end Nplex
