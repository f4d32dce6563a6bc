import Tun2Http.Machine.SerialNumber
import Tun2Http.Machine.Wire
import Tun2Http.Native.Basic

/-! `util.c`: serial comparison, and the readers of multi-byte fields that the
packet code shares. -/
namespace Tun2Http

open Machine Machine.SerialNumber

/-- `compare_u32`. The subtractions are on `int`; where they overflow the
result is the wrapped one, as the target's instructions compute it. -/
def compareU32 (s1 s2 : U32) : Int :=
  if s1 = s2 then 0
  else
    let i1 := s1.toInt
    let i2 := s2.toInt
    if (i1 < i2 ∧ (s2 - s1).toInt < 0x7FFFFFFF) ∨ (i1 > i2 ∧ (s1 - s2).toInt > 0x7FFFFFFF) then -1
    else 1

@[simp] theorem compareU32_self (s : U32) : compareU32 s s = 0 := by simp [compareU32]

theorem compareU32_eq_zero_iff {s1 s2 : U32} : compareU32 s1 s2 = 0 ↔ s1 = s2 := by
  unfold compareU32
  by_cases hEq : s1 = s2
  · simp [hEq]
  · simp only [hEq, if_false, iff_false]
    split_ifs <;> decide

/-- The comparison is the signed one, but for two numbers `0x7FFFFFFF` apart. -/
theorem compareU32_neg_iff {s1 s2 : U32} :
    compareU32 s1 s2 < 0 ↔ s1.toInt < s2.toInt ∧ ahead s1 s2 ≠ 2 ^ 31 - 1 := by
  unfold compareU32
  by_cases hEq : s1 = s2
  · simp [hEq]
  · rw [if_neg hEq]
    have hMax : ¬ (s1 - s2).toInt > 0x7FFFFFFF := by
      have := (s1 - s2).toInt_lt
      omega
    have hLt : (s2 - s1).toInt < 0x7FFFFFFF ↔ ahead s1 s2 ≠ 2 ^ 31 - 1 := by
      have hBound := (s2 - s1).isLt
      rw [ahead, BitVec.toInt_eq_toNat_cond]
      split_ifs <;> omega
    simp only [hMax, hLt, and_false, or_false]
    split_ifs with h
    · exact iff_of_true (by decide) h
    · exact iff_of_false (by decide) h

theorem compareU32_nonpos_iff {s1 s2 : U32} :
    compareU32 s1 s2 ≤ 0 ↔ s1 = s2 ∨ (s1.toInt < s2.toInt ∧ ahead s1 s2 ≠ 2 ^ 31 - 1) := by
  rw [le_iff_lt_or_eq, compareU32_neg_iff, compareU32_eq_zero_iff, or_comm]

/-- `*buf++` over the words of a buffer, as a little-endian host loads them,
and the byte that may be left over. -/
def wordSum : List UInt8 → U32 → U32
  | low :: high :: rest, sum => wordSum rest (sum + BitVec.ofNat 32 (low.toNat + 256 * high.toNat))
  | [low], sum => sum + BitVec.ofNat 32 low.toNat
  | [], sum => sum

/-- `while (sum >> 16)`: the carries are added to the sum. -/
def foldCarries (sum : U32) : U32 :=
  if sum >>> 16 = 0 then sum else foldCarries ((sum &&& 0xFFFF#32) + (sum >>> 16))
termination_by sum.toNat
decreasing_by
  rename_i hCarries
  have hMask : (sum &&& 0xFFFF#32).toNat = sum.toNat % 2 ^ 16 :=
    (BitVec.toNat_and ..).trans (Nat.and_two_pow_sub_one_eq_mod sum.toNat 16)
  have hShift : (sum >>> 16).toNat = sum.toNat / 2 ^ 16 := by
    rw [BitVec.toNat_ushiftRight, Nat.shiftRight_eq_div_pow]
  have hSome : (sum >>> 16).toNat ≠ 0 := fun h => hCarries (BitVec.eq_of_toNat_eq h)
  have hBound := sum.isLt
  rw [hShift] at hSome
  rw [BitVec.toNat_add, hMask, hShift, Nat.mod_eq_of_lt (by omega)]
  omega

/-- `calc_checksum`. -/
def calcChecksum (start : U16) (buffer : List UInt8) : U16 :=
  (foldCarries (wordSum buffer (start.setWidth 32))).setWidth 16

/-- A 16-bit field in network order. -/
def be16 (offset : Nat) : Reader Nat := do
  let high ← Reader.byte offset
  let low ← Reader.byte (offset + 1)
  pure (256 * high.toNat + low.toNat)

/-- A 16-bit field as a little-endian host loads it. -/
def le16 (offset : Nat) : Reader U16 := do
  let low ← Reader.byte offset
  let high ← Reader.byte (offset + 1)
  pure (BitVec.ofNat 16 (low.toNat + 256 * high.toNat))

/-- A 32-bit field in network order. -/
def be32 (offset : Nat) : Reader U32 := do
  let high ← be16 offset
  let low ← be16 (offset + 2)
  pure (BitVec.ofNat 32 (65536 * high + low))

/-- `count` consecutive bytes. -/
def readBytes (offset : Nat) : Nat → Reader (List UInt8)
  | 0 => pure []
  | count + 1 => do
      let first ← Reader.byte offset
      let rest ← readBytes (offset + 1) count
      pure (first :: rest)

@[simp] theorem within_be16 (length offset : Nat) (mem : Memory) :
    (be16 offset).Within length mem ↔ offset + 1 < length := by
  simp only [be16, Reader.within_bind, Reader.within_byte, Reader.within_pure, and_true]
  omega

@[simp] theorem value_be16 (offset : Nat) (mem : Memory) :
    (be16 offset).value mem = 256 * (mem offset).toNat + (mem (offset + 1)).toNat := rfl

@[simp] theorem within_le16 (length offset : Nat) (mem : Memory) :
    (le16 offset).Within length mem ↔ offset + 1 < length := by
  simp only [le16, Reader.within_bind, Reader.within_byte, Reader.within_pure, and_true]
  omega

@[simp] theorem value_le16 (offset : Nat) (mem : Memory) :
    (le16 offset).value mem =
      BitVec.ofNat 16 ((mem offset).toNat + 256 * (mem (offset + 1)).toNat) := rfl

@[simp] theorem within_be32 (length offset : Nat) (mem : Memory) :
    (be32 offset).Within length mem ↔ offset + 3 < length := by
  simp only [be32, Reader.within_bind, within_be16, Reader.within_pure, and_true]
  omega

@[simp] theorem length_readBytes (offset count : Nat) (mem : Memory) :
    ((readBytes offset count).value mem).length = count := by
  induction count generalizing offset with
  | zero => simp [readBytes]
  | succ count ih => simp [readBytes, ih]

theorem within_readBytes {length offset count : Nat} {mem : Memory} (h : offset + count ≤ length) :
    (readBytes offset count).Within length mem := by
  induction count generalizing offset with
  | zero => simp [readBytes]
  | succ count ih =>
      simp only [readBytes, Reader.within_bind, Reader.within_byte, Reader.within_pure, and_true]
      exact ⟨by omega, ih (by omega)⟩

/-- A field of a message reads as the number that was put there. -/
theorem value_be16_of_holds {mem : Memory} {offset n : Nat} (hField : Holds mem offset (field16 n))
    (hSmall : n < 2 ^ 16) : (be16 offset).value mem = n := by
  obtain ⟨hHigh, hLow, -⟩ := hField
  rw [value_be16, hHigh, hLow]
  simp only [Nat.toUInt8_eq, UInt8.toNat_ofNat']
  omega

/-- The bytes of a message read as they are. -/
theorem value_readBytes_of_holds {mem : Memory} {offset : Nat} {bytes : List UInt8}
    (h : Holds mem offset bytes) : (readBytes offset bytes.length).value mem = bytes := by
  induction bytes generalizing offset with
  | nil => rfl
  | cons b rest ih =>
      simp only [List.length_cons, readBytes, Reader.value_bind, Reader.value_byte,
        Reader.value_pure, h.1, ih h.2]

/-- The bytes read are in the memory. -/
theorem holds_readBytes (mem : Memory) (offset count : Nat) :
    Holds mem offset ((readBytes offset count).value mem) := by
  induction count generalizing offset with
  | zero => trivial
  | succ count ih => exact ⟨rfl, ih (offset + 1)⟩

end Tun2Http
