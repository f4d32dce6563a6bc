import Tun2Http.App.IpUtil
import Tun2Http.Machine.Dyadic

/-! The blocks of a range of addresses. `toCIDR` goes through the range from its
lower end, and cuts off the longest block each time. -/
namespace Tun2Http

open Machine

/-! ### Addresses and numbers -/

/-- The number of bytes in network order, behind those that come to `value`. -/
def bytesNumber (value : Nat) (bytes : List UInt8) : Nat :=
  bytes.foldl (fun value b => 256 * value + b.toNat) value

theorem toNat_append_byte {result : JavaLong} (hRoom : result.toNat < 2 ^ 56) (b : UInt8) :
    (result <<< 8 ||| BitVec.ofNat 64 b.toNat).toNat = 256 * result.toNat + b.toNat := by
  have hByte := b.toNat_lt
  have hShift : result.toNat <<< 8 % 2 ^ 64 = result.toNat <<< 8 := by
    rw [Nat.shiftLeft_eq]
    omega
  rw [BitVec.toNat_or, BitVec.toNat_shiftLeft, BitVec.toNat_ofNat, hShift,
    Nat.mod_eq_of_lt (by omega : b.toNat < 2 ^ 64), ← Nat.shiftLeft_add_eq_or_of_lt hByte,
    Nat.shiftLeft_eq]
  omega

/-- Up to seven bytes are loaded as they are. -/
theorem toNat_foldl_bytes {bytes : List UInt8} {result : JavaLong} {count : Nat}
    (hResult : result.toNat < 2 ^ (8 * count)) (hCount : count + bytes.length ≤ 7) :
    (bytes.foldl (fun (result : JavaLong) b => result <<< 8 ||| BitVec.ofNat 64 b.toNat) result).toNat =
        bytesNumber result.toNat bytes ∧
      bytesNumber result.toNat bytes < 2 ^ (8 * (count + bytes.length)) := by
  induction bytes generalizing result count with
  | nil => exact ⟨rfl, hResult⟩
  | cons b rest ih =>
      rw [List.length_cons] at hCount
      have hByte := b.toNat_lt
      have hRoom : 2 ^ (8 * count) ≤ 2 ^ 56 := Nat.pow_le_pow_right (by decide) (by omega)
      have hNext : (result <<< 8 ||| BitVec.ofNat 64 b.toNat).toNat = 256 * result.toNat + b.toNat :=
        toNat_append_byte (by omega) b
      have hLess : (result <<< 8 ||| BitVec.ofNat 64 b.toNat).toNat < 2 ^ (8 * (count + 1)) := by
        rw [hNext, Nat.mul_add, Nat.pow_add]
        omega
      obtain ⟨hLoaded, hBound⟩ := ih hLess (by omega)
      rw [hNext] at hLoaded hBound
      rw [Nat.add_assoc, Nat.add_comm 1] at hBound
      exact ⟨hLoaded, hBound⟩

theorem toNat_inet2long (addr : Inet4Address) :
    (inet2long addr).toNat = bytesNumber 0 addr.bytes ∧ (inet2long addr).toNat < 2 ^ 32 := by
  have hZero : (0 : JavaLong).toNat < 2 ^ (8 * 0) := by decide
  obtain ⟨hLoaded, hBound⟩ := toNat_foldl_bytes hZero (by rw [addr.length_bytes]; decide)
  rw [addr.length_bytes] at hBound
  exact ⟨hLoaded, hLoaded.trans_lt hBound⟩

/-- The bytes that are stored are the last bytes of the number. -/
theorem bytesNumber_bytesOfLong (count : Nat) {addr : JavaLong} (hAddr : addr.toNat < 2 ^ 63)
    (back : List UInt8) : bytesNumber 0 (bytesOfLong count addr back) =
      bytesNumber (addr.toNat % 256 ^ count) back := by
  induction count generalizing addr back with
  | zero => rw [bytesOfLong, Nat.pow_zero, Nat.mod_one]
  | succ count ih =>
      have hShift : (addr.sshiftRight 8).toNat = addr.toNat / 256 := by
        rw [BitVec.toNat_sshiftRight_of_msb_false (BitVec.msb_eq_false_iff_two_mul_lt.mpr (by omega)),
          Nat.shiftRight_eq_div_pow]
      have hByte : (addr &&& 0xFF#64).toNat.toUInt8.toNat = addr.toNat % 256 := by
        have hMask : (addr &&& 0xFF#64).toNat = addr.toNat % 256 :=
          (BitVec.toNat_and ..).trans (Nat.and_two_pow_sub_one_eq_mod addr.toNat 8)
        rw [hMask, Nat.toUInt8_eq, UInt8.toNat_ofNat']
        omega
      rw [bytesOfLong, ih (by omega), bytesNumber, List.foldl_cons, hByte, hShift, Nat.pow_succ',
        Nat.mod_mul, Nat.add_comm (addr.toNat % 256)]
      rfl

theorem inet2long_long2inet {addr : JavaLong} (hAddr : addr.toNat < 2 ^ 32) :
    inet2long (long2inet addr) = addr := by
  apply BitVec.eq_of_toNat_eq
  rw [(toNat_inet2long _).1]
  exact (bytesNumber_bytesOfLong 4 (by omega) []).trans (Nat.mod_eq_of_lt hAddr)

/-! ### Masks and blocks -/

theorem prefix2mask_eq : ∀ bits ≤ 32, prefix2mask bits = BitVec.ofNat 64 (2 ^ 32 - 2 ^ (32 - bits)) := by
  decide

/-- A mask leaves the first address of the block. -/
theorem toNat_and_prefix2mask {addr : JavaLong} (hAddr : addr.toNat < 2 ^ 32) {bits : Nat}
    (hBits : bits ≤ 32) : (addr &&& prefix2mask bits).toNat =
      2 ^ (32 - bits) * (addr.toNat / 2 ^ (32 - bits)) := by
  have hMask : 2 ^ 32 - 2 ^ (32 - bits) < 2 ^ 64 := Nat.lt_of_le_of_lt (Nat.sub_le _ _) (by decide)
  rw [prefix2mask_eq bits hBits, BitVec.toNat_and, BitVec.toNat_ofNat, Nat.mod_eq_of_lt hMask]
  exact DyadicBlock.and_mask (Nat.sub_le 32 bits) hAddr

theorem and_prefix2mask_eq_iff {addr : JavaLong} (hAddr : addr.toNat < 2 ^ 32) {bits : Nat}
    (hBits : bits ≤ 32) : addr &&& prefix2mask bits = addr ↔ 2 ^ (32 - bits) ∣ addr.toNat := by
  rw [← BitVec.toNat_inj, toNat_and_prefix2mask hAddr hBits]
  exact ⟨fun hSame => ⟨_, hSame.symm⟩, Nat.mul_div_cancel'⟩

namespace Cidr

/-- The address is the first one of its block. -/
def Aligned (block : Cidr) : Prop :=
  inet2long block.address &&& prefix2mask block.prefixBits = inet2long block.address

/-- The address is none before `getStart` and none behind `getEnd`. -/
def Contains (block : Cidr) (addr : Inet4Address) : Prop :=
  (inet2long block.getStart).toNat ≤ (inet2long addr).toNat ∧
    (inet2long addr).toNat ≤ (inet2long block.getEnd).toNat

/-- The numbers of the addresses. -/
def numbers (block : Cidr) : DyadicBlock where
  first := (inet2long block.address &&& prefix2mask block.prefixBits).toNat
  order := 32 - block.prefixBits
  aligned := by
    rw [toNat_and_prefix2mask (toNat_inet2long block.address).2 block.prefixBits_le]
    exact Nat.dvd_mul_right _ _

theorem Aligned.first_numbers {block : Cidr} (h : block.Aligned) :
    block.numbers.first = (inet2long block.address).toNat := congrArg BitVec.toNat h

variable (block : Cidr)

theorem first_numbers_lt : block.numbers.first < 2 ^ 32 := by
  have hAddr := (toNat_inet2long block.address).2
  show (inet2long block.address &&& prefix2mask block.prefixBits).toNat < 2 ^ 32
  rw [toNat_and_prefix2mask hAddr block.prefixBits_le]
  exact Nat.lt_of_le_of_lt (Nat.mul_div_le _ _) hAddr

theorem stop_numbers_le : block.numbers.stop ≤ 2 ^ 32 :=
  DyadicBlock.stop_le (Nat.sub_le 32 _) block.first_numbers_lt

theorem toNat_getStart : (inet2long block.getStart).toNat = block.numbers.first := by
  rw [getStart, inet2long_long2inet block.first_numbers_lt]
  rfl

theorem toNat_getEnd : (inet2long block.getEnd).toNat = block.numbers.stop - 1 := by
  have hStop : block.numbers.first + 2 ^ (32 - block.prefixBits) ≤ 2 ^ 32 := block.stop_numbers_le
  have hSize : (1#64 <<< (32 - block.prefixBits)).toNat = 2 ^ (32 - block.prefixBits) := by
    rw [BitVec.toNat_shiftLeft, Nat.shiftLeft_eq, BitVec.toNat_ofNat]
    omega
  have hSome : 0 < 2 ^ (32 - block.prefixBits) := Nat.two_pow_pos _
  have hLast : ((inet2long block.address &&& prefix2mask block.prefixBits) +
      1#64 <<< (32 - block.prefixBits) - 1#64).toNat = block.numbers.stop - 1 := by
    have hFirst : (inet2long block.address &&& prefix2mask block.prefixBits).toNat =
      block.numbers.first := rfl
    have hEnd : block.numbers.stop = block.numbers.first + 2 ^ (32 - block.prefixBits) := rfl
    rw [BitVec.toNat_sub, BitVec.toNat_add, hSize, hFirst, hEnd, BitVec.toNat_ofNat]
    omega
  have hBound := block.stop_numbers_le
  rw [getEnd, inet2long_long2inet (by rw [hLast]; omega), hLast]

theorem contains_iff {block : Cidr} (addr : Inet4Address) :
    block.Contains addr ↔ (inet2long addr).toNat ∈ block.numbers := by
  have hStart := block.numbers.first_lt_stop
  rw [Contains, toNat_getStart, toNat_getEnd, DyadicBlock.mem_iff]
  omega

end Cidr

/-! ### The next block -/

section Range

variable {first last : JavaLong}

/-- The prefix is as short as the last bits of the address allow. -/
theorem alignedPrefix_spec (hFirst : first.toNat < 2 ^ 32) {bits : Nat} (hBits : bits ≤ 32)
    (hAligned : 2 ^ (32 - bits) ∣ first.toNat) :
    2 ^ (32 - alignedPrefix first bits) ∣ first.toNat ∧
      ∀ k ≤ 32, 2 ^ k ∣ first.toNat → alignedPrefix first bits ≤ 32 - k := by
  induction bits with
  | zero => exact ⟨hAligned, fun k _ _ => Nat.zero_le _⟩
  | succ bits ih =>
      rw [alignedPrefix]
      split_ifs with hStop
      · refine ⟨hAligned, fun k hK hDvd => ?_⟩
        rw [ne_eq, and_prefix2mask_eq_iff hFirst (by omega)] at hStop
        have hLess : k < 32 - bits := by
          by_contra hMore
          exact hStop ((Nat.pow_dvd_pow 2 (not_lt.mp hMore)).trans hDvd)
        omega
      · rw [ne_eq, not_not, and_prefix2mask_eq_iff hFirst (by omega)] at hStop
        exact ih (by omega) hStop

theorem toNat_size (hRange : first.toNat ≤ last.toNat) (hLast : last.toNat < 2 ^ 32) :
    (last - first + 1).toNat = last.toNat + 1 - first.toNat := by
  have hOne : (1 : JavaLong).toNat = 1 := rfl
  rw [BitVec.toNat_add, BitVec.toNat_sub, hOne]
  omega

/-- The next block is the longest one that the range begins with. -/
theorem nextPrefix_spec (hRange : first.toNat ≤ last.toNat) (hLast : last.toNat < 2 ^ 32) :
    2 ^ (32 - nextPrefix first last) ∣ first.toNat ∧
      first.toNat + 2 ^ (32 - nextPrefix first last) ≤ last.toNat + 1 ∧
      ∀ k, 2 ^ k ∣ first.toNat → first.toNat + 2 ^ k ≤ last.toNat + 1 →
        k ≤ 32 - nextPrefix first last := by
  have hSize := toNat_size hRange hLast
  set size := (last - first + 1).toNat
  have hSome : size ≠ 0 := by omega
  have hPower : 2 ^ Nat.log 2 size ≤ size := Nat.pow_log_le_self 2 hSome
  have hLog : Nat.log 2 size ≤ 32 := by
    have hLess : Nat.log 2 size < 33 := Nat.log_lt_of_lt_pow hSome (by omega)
    omega
  obtain ⟨hDvd, hShortest⟩ := alignedPrefix_spec (by omega : first.toNat < 2 ^ 32) (Nat.le_refl 32)
    (Nat.one_dvd _)
  have hFitting : fittingPrefix first last = 32 - Nat.log 2 size := rfl
  have hOrder : 32 - nextPrefix first last =
      min (32 - alignedPrefix first 32) (Nat.log 2 size) := by
    have hAligned := alignedPrefix_le first 32
    rw [nextPrefix, hFitting]
    split_ifs <;> omega
  rw [hOrder]
  refine ⟨(Nat.pow_dvd_pow 2 (Nat.min_le_left _ _)).trans hDvd, ?_, ?_⟩
  · have hShorter : 2 ^ min (32 - alignedPrefix first 32) (Nat.log 2 size) ≤ 2 ^ Nat.log 2 size :=
      Nat.pow_le_pow_right (by decide) (Nat.min_le_right _ _)
    omega
  · intro k hK hFits
    have hLogK : k ≤ Nat.log 2 size := Nat.le_log_of_pow_le (by decide) (by omega)
    have hAlignedK := hShortest k (by omega) hK
    have hAligned := alignedPrefix_le first 32
    omega

/-- It begins where the range does, and ends where the loop goes on. -/
theorem nextBlock_spec (hRange : first.toNat ≤ last.toNat) (hLast : last.toNat < 2 ^ 32) :
    (nextBlock first last).Aligned ∧ (nextBlock first last).numbers.first = first.toNat ∧
      (first + BitVec.ofNat 64 (2 ^ (32 - nextPrefix first last))).toNat =
        (nextBlock first last).numbers.stop := by
  obtain ⟨hDvd, hFits, -⟩ := nextPrefix_spec hRange hLast
  have hAddress : inet2long (nextBlock first last).address = first := inet2long_long2inet (by omega)
  have hAligned : (nextBlock first last).Aligned := by
    rw [Cidr.Aligned, hAddress]
    exact (and_prefix2mask_eq_iff (by omega) (nextPrefix_le first last)).mpr hDvd
  have hStart : (nextBlock first last).numbers.first = first.toNat := by
    rw [hAligned.first_numbers, hAddress]
  have hStop : (nextBlock first last).numbers.stop =
      first.toNat + 2 ^ (32 - nextPrefix first last) := by
    rw [DyadicBlock.stop, hStart]
    rfl
  refine ⟨hAligned, hStart, ?_⟩
  rw [BitVec.toNat_add, BitVec.toNat_ofNat, hStop]
  omega

end Range

/-! ### The loop -/

theorem sle_iff_toNat_le {first last : JavaLong} (hFirst : first.toNat < 2 ^ 63)
    (hLast : last.toNat < 2 ^ 63) : first.sle last = true ↔ first.toNat ≤ last.toNat := by
  rw [BitVec.sle_iff_toInt_le, BitVec.toInt_eq_toNat_of_lt (by omega),
    BitVec.toInt_eq_toNat_of_lt (by omega)]
  exact Int.ofNat_le

/-- Every turn cuts off the longest block, and the loop comes to its end. -/
theorem toCidrLoop_spec {last : JavaLong} (hLast : last.toNat < 2 ^ 32) {left : Nat}
    (first : JavaLong) (hFirst : first.toNat ≤ 2 ^ 32) (hLeft : last.toNat + 1 - first.toNat ≤ left) :
    ∃ blocks, (∀ turns, left < turns → toCidrLoop last turns first = some blocks) ∧
      LongestFirst first.toNat (last.toNat + 1) (blocks.map Cidr.numbers) ∧
      ∀ block ∈ blocks, block.Aligned := by
  induction left generalizing first with
  | zero =>
      refine ⟨[], fun turns hTurns => ?_, .done (by omega), List.forall_mem_nil _⟩
      obtain ⟨turns, rfl⟩ := Nat.exists_eq_succ_of_ne_zero (by omega : turns ≠ 0)
      rw [toCidrLoop, if_neg]
      rw [sle_iff_toNat_le (by omega) (by omega)]
      omega
  | succ left ih =>
      by_cases hRange : first.toNat ≤ last.toNat
      · obtain ⟨-, hFits, hLongest⟩ := nextPrefix_spec hRange hLast
        obtain ⟨hAligned, hStart, hStop⟩ := nextBlock_spec hRange hLast
        set next := first + BitVec.ofNat 64 (2 ^ (32 - nextPrefix first last)) with hNext
        have hEnd : (nextBlock first last).numbers.stop ≤ last.toNat + 1 := by
          rw [DyadicBlock.stop, hStart]
          exact hFits
        have hLater := (nextBlock first last).numbers.first_lt_stop
        obtain ⟨rest, hLoop, hCut, hAll⟩ := ih next (by omega) (by omega)
        refine ⟨nextBlock first last :: rest, fun turns hTurns => ?_, ?_,
          List.forall_mem_cons.mpr ⟨hAligned, hAll⟩⟩
        · obtain ⟨turns, rfl⟩ := Nat.exists_eq_succ_of_ne_zero (by omega : turns ≠ 0)
          rw [toCidrLoop, if_pos ((sle_iff_toNat_le (by omega) (by omega)).mpr hRange), ← hNext,
            hLoop turns (by omega)]
          rfl
        · rw [hStop] at hCut
          rw [← hStart] at hLongest ⊢
          exact .cut _ hEnd hLongest hCut
      · obtain ⟨blocks, hLoop, hRest⟩ := ih first hFirst (by omega)
        exact ⟨blocks, fun turns hTurns => hLoop turns (by omega), hRest⟩

theorem exists_mem_numbers {blocks : List Cidr} {x : Nat} :
    (∃ b ∈ blocks.map Cidr.numbers, x ∈ b) ↔ ∃ block ∈ blocks, x ∈ block.numbers := by
  simp only [List.mem_map, exists_exists_and_eq_and]

/-- Blocks that cover the addresses of a range cover their numbers. -/
theorem covers_numbers {blocks : List Cidr} {start finish : Inet4Address}
    (h : ∀ addr, (∃ block ∈ blocks, block.Contains addr) ↔
      (inet2long start).toNat ≤ (inet2long addr).toNat ∧
        (inet2long addr).toNat ≤ (inet2long finish).toNat) :
    Covers (blocks.map Cidr.numbers) (inet2long start).toNat ((inet2long finish).toNat + 1) := by
  intro x
  have hFinish := (toNat_inet2long finish).2
  rw [exists_mem_numbers, Nat.lt_succ_iff]
  by_cases hX : x < 2 ^ 32
  · have hNumber : (inet2long (long2inet (BitVec.ofNat 64 x))).toNat = x := by
      have hSmall : (BitVec.ofNat 64 x).toNat = x := by
        rw [BitVec.toNat_ofNat]
        omega
      rw [inet2long_long2inet (by rwa [hSmall]), hSmall]
    have hHere := h (long2inet (BitVec.ofNat 64 x))
    simp only [Cidr.contains_iff, hNumber] at hHere
    exact hHere
  · constructor
    · rintro ⟨block, -, hIn⟩
      have hStop := block.stop_numbers_le
      have hLess := hIn.2
      omega
    · rintro ⟨-, hHigh⟩
      omega

/-- `toCIDR` comes to its end with blocks in increasing order, each of them at
its first address and apart from the others, that hold the addresses of the
range and no others; no list of blocks with these addresses is shorter. -/
theorem toCidr_covers (start finish : Inet4Address) :
    ∃ blocks, (∃ turns, ∀ more, turns ≤ more → toCidr more start finish = some blocks) ∧
      blocks.Pairwise (fun a b => (inet2long a.address).toNat < (inet2long b.address).toNat) ∧
      (∀ block ∈ blocks,
        inet2long block.address &&& prefix2mask block.prefixBits = inet2long block.address) ∧
      blocks.Pairwise (fun a b => ∀ addr, ¬ (a.Contains addr ∧ b.Contains addr)) ∧
      (∀ addr, (∃ block ∈ blocks, block.Contains addr) ↔
        (inet2long start).toNat ≤ (inet2long addr).toNat ∧
          (inet2long addr).toNat ≤ (inet2long finish).toNat) ∧
      ∀ other : List Cidr,
        (∀ addr, (∃ block ∈ other, block.Contains addr) ↔
          ∃ block ∈ blocks, block.Contains addr) → blocks.length ≤ other.length := by
  have hLast := (toNat_inet2long finish).2
  have hFirst := (toNat_inet2long start).2
  obtain ⟨blocks, hLoop, hCut, hAligned⟩ :=
    toCidrLoop_spec hLast (inet2long start) hFirst.le (Nat.le_refl _)
  have hCover : ∀ addr, (∃ block ∈ blocks, block.Contains addr) ↔
      (inet2long start).toNat ≤ (inet2long addr).toNat ∧
        (inet2long addr).toNat ≤ (inet2long finish).toNat := fun addr => by
    simp only [Cidr.contains_iff]
    rw [← exists_mem_numbers, hCut.covers, Nat.lt_succ_iff]
  have hOrdered := List.pairwise_map.mp hCut.ordered
  refine ⟨blocks, ⟨_, fun more hMore => hLoop more hMore⟩, ?_, hAligned, ?_, hCover, ?_⟩
  · refine hOrdered.imp_of_mem fun {a b} hA hB hBehind => ?_
    rw [← (hAligned a hA).first_numbers, ← (hAligned b hB).first_numbers]
    exact Nat.lt_of_lt_of_le a.numbers.first_lt_stop hBehind
  · refine hOrdered.imp fun {a b} hBehind addr hBoth => ?_
    have hBefore := ((Cidr.contains_iff addr).mp hBoth.1).2
    have hLater := ((Cidr.contains_iff addr).mp hBoth.2).1
    omega
  · intro other hOther
    have hFewest := hCut.length_le (covers_numbers fun addr => (hOther addr).trans (hCover addr))
    rwa [List.length_map, List.length_map] at hFewest

end Tun2Http
