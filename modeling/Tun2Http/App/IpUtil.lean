import Mathlib.Data.Nat.Log
import Tun2Http.Native.Basic

/-! `IPUtil`: the CIDR blocks of a range of IPv4 addresses. The expressions in
floating point, `floor(log(n) / log(2))` and `pow(2, k)`, are exact here. -/
namespace Tun2Http

/-- A `long` of Java. -/
abbrev JavaLong := BitVec 64

/-- An IPv4 address in an `InetAddress`: the bytes that `getAddress` returns. -/
structure Inet4Address where
  bytes : List UInt8
  length_bytes : bytes.length = 4

/-- The first `bits` of 32 bits are ones; a shift takes the last six bits of `bits`. -/
def prefix2mask (bits : Nat) : JavaLong :=
  BitVec.sshiftRight 0xFFFFFFFF00000000#64 (bits % 64) &&& 0xFFFFFFFF#64

/-- `result << 8 | (b & 0xFF)` over the bytes. -/
def inet2long (addr : Inet4Address) : JavaLong :=
  addr.bytes.foldl (fun result b => result <<< 8 ||| BitVec.ofNat 64 b.toNat) 0

/-- The last `count` bytes of a number, in front of `back`. -/
def bytesOfLong : Nat → JavaLong → List UInt8 → List UInt8
  | 0, _, back => back
  | count + 1, addr, back =>
      bytesOfLong count (addr.sshiftRight 8) ((addr &&& 0xFF#64).toNat.toUInt8 :: back)

theorem length_bytesOfLong (count : Nat) (addr : JavaLong) (back : List UInt8) :
    (bytesOfLong count addr back).length = count + back.length := by
  induction count generalizing addr back with
  | zero => exact (Nat.zero_add _).symm
  | succ count ih =>
      rw [bytesOfLong, ih, List.length_cons]
      omega

/-- Four bytes are an address, so `getByAddress` does not throw. -/
def long2inet (addr : JavaLong) : Inet4Address :=
  ⟨bytesOfLong 4 addr [], length_bytesOfLong 4 addr []⟩

/-- `CIDR`, with a `prefix` that a block of addresses can have. -/
structure Cidr where
  address : Inet4Address
  prefixBits : Nat
  prefixBits_le : prefixBits ≤ 32

namespace Cidr

def getStart (block : Cidr) : Inet4Address :=
  long2inet (inet2long block.address &&& prefix2mask block.prefixBits)

def getEnd (block : Cidr) : Inet4Address :=
  long2inet ((inet2long block.address &&& prefix2mask block.prefixBits) +
    1#64 <<< (32 - block.prefixBits) - 1#64)

end Cidr

/-- `while (prefix > 0)`: the prefix gets shorter while the address is the first
one of the block. -/
def alignedPrefix (first : JavaLong) : Nat → Nat
  | 0 => 0
  | bits + 1 => if first &&& prefix2mask bits ≠ first then bits + 1 else alignedPrefix first bits

/-- `max`: the prefix of the longest block that has no more addresses than the range. -/
def fittingPrefix (first last : JavaLong) : Nat := 32 - Nat.log 2 (last - first + 1).toNat

/-- The prefix of the next block. -/
def nextPrefix (first last : JavaLong) : Nat :=
  if alignedPrefix first 32 < fittingPrefix first last then fittingPrefix first last
  else alignedPrefix first 32

theorem alignedPrefix_le (first : JavaLong) (bits : Nat) : alignedPrefix first bits ≤ bits := by
  induction bits with
  | zero => exact Nat.le_refl 0
  | succ bits ih =>
      rw [alignedPrefix]
      split_ifs
      · exact Nat.le_refl _
      · exact Nat.le_succ_of_le ih

theorem nextPrefix_le (first last : JavaLong) : nextPrefix first last ≤ 32 := by
  rw [nextPrefix]
  split_ifs
  · exact Nat.sub_le _ _
  · exact alignedPrefix_le first 32

/-- `new CIDR(long2inet(from), prefix)`. -/
def nextBlock (first last : JavaLong) : Cidr :=
  ⟨long2inet first, nextPrefix first last, nextPrefix_le first last⟩

/-- `while (to >= from)`, for no more than `turns` turns. -/
def toCidrLoop (last : JavaLong) : Nat → JavaLong → Option (List Cidr)
  | 0, _ => none
  | turns + 1, first =>
      if first.sle last then
        (toCidrLoop last turns (first + BitVec.ofNat 64 (2 ^ (32 - nextPrefix first last)))).map
          (nextBlock first last :: ·)
      else some []

/-- `toCIDR`, where `none` is a loop that has not come to its end. -/
def toCidr (turns : Nat) (start finish : Inet4Address) : Option (List Cidr) :=
  toCidrLoop (inet2long finish) turns (inet2long start)

end Tun2Http
