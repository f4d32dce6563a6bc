import Tun2Http.Packet.Checksum

/-! Checksums in several calls. A sum that is handed on from one part of a
message to the next one is the sum of the whole, where all parts but the last
have whole words. -/
namespace Tun2Http

open Machine

/-- No `sum += *buf++` leaves the 32 bits of the sum, nor does the addition of
the byte that may be left over. -/
def SumsExactly : List UInt8 → U32 → Prop
  | low :: high :: rest, sum => sum.toNat + (low.toNat + 256 * high.toNat) < 2 ^ 32 ∧
      SumsExactly rest (sum + BitVec.ofNat 32 (low.toNat + 256 * high.toNat))
  | [low], sum => sum.toNat + low.toNat < 2 ^ 32
  | [], _ => True

/-- Nor does an addition of the carries. -/
inductive FoldsExactly : U32 → Prop where
  | done {sum : U32} (hNone : sum >>> 16 = 0) : FoldsExactly sum
  | carry {sum : U32} (hSome : sum >>> 16 ≠ 0)
      (hRoom : (sum &&& 0xFFFF#32).toNat + (sum >>> 16).toNat < 2 ^ 32)
      (next : FoldsExactly ((sum &&& 0xFFFF#32) + (sum >>> 16))) : FoldsExactly sum

/-- The accumulator of a call does not overflow. -/
structure AddsExactly (start : U16) (buffer : List UInt8) : Prop where
  words : SumsExactly buffer (start.setWidth 32)
  carries : FoldsExactly (wordSum buffer (start.setWidth 32))

theorem sumsExactly_of_lt {buffer : List UInt8} {sum : U32}
    (hRoom : sum.toNat + hostSum buffer < 2 ^ 32) : SumsExactly buffer sum := by
  induction buffer using words.induct generalizing sum with
  | case1 low high rest ih =>
      rw [hostSum_cons_cons] at hRoom
      have hAdded : (sum + BitVec.ofNat 32 (low.toNat + 256 * high.toNat)).toNat =
          sum.toNat + (low.toNat + 256 * high.toNat) := toNat_add_word (by omega)
      exact ⟨by omega, ih (by omega)⟩
  | case2 low => rwa [hostSum_singleton] at hRoom
  | case3 => exact trivial

/-- The two halves of a sum have room on their own. -/
theorem foldsExactly (sum : U32) : FoldsExactly sum := by
  induction sum using foldCarries.induct with
  | case1 sum hNone => exact .done hNone
  | case2 sum hSome ih =>
      refine .carry hSome ?_ ih
      obtain ⟨hMask, hShift⟩ := toNat_halves sum
      have hBound := sum.isLt
      rw [hMask, hShift]
      omega

theorem addsExactly_of_lt {start : U16} {buffer : List UInt8}
    (hRoom : start.toNat + hostSum buffer < 2 ^ 32) : AddsExactly start buffer :=
  ⟨sumsExactly_of_lt (by rwa [toNat_start]), foldsExactly _⟩

/-- The words of up to 65575 bytes leave room for the carries. -/
theorem room_of_length (start : U16) {buffer : List UInt8} (hLength : buffer.length ≤ 65575) :
    start.toNat + hostSum buffer < 2 ^ 32 := by
  have hStart := start.isLt
  have hSum := hostSum_le buffer
  omega

section Call

variable {start other : U16} {buffer rest : List UInt8}

/-- What a call returns depends on the words in one's complement alone. -/
theorem calcChecksum_eq_of_onesEq (hBuffer : start.toNat + hostSum buffer < 2 ^ 32)
    (hRest : other.toNat + hostSum rest < 2 ^ 32)
    (h : OnesEq (start.toNat + hostSum buffer) (other.toNat + hostSum rest)) :
    calcChecksum start buffer = calcChecksum other rest := by
  apply BitVec.eq_of_toNat_eq
  have hFirst := onesEq_calcChecksum_of_lt hBuffer
  have hSecond := onesEq_calcChecksum_of_lt hRest
  exact ((hFirst.trans h).trans hSecond.symm).eq (BitVec.isLt _) (BitVec.isLt _)

/-- The order of the words does not matter. -/
theorem calcChecksum_eq_of_hostSum (hRoom : start.toNat + hostSum buffer < 2 ^ 32)
    (h : hostSum rest = hostSum buffer) : calcChecksum start rest = calcChecksum start buffer := by
  apply calcChecksum_eq_of_onesEq _ hRoom
  · rw [h]
    exact .refl _
  · rwa [h]

/-- Zero is the sum of nothing but zeros: all ones is the other zero. -/
theorem calcChecksum_eq_zero_iff (hRoom : start.toNat + hostSum buffer < 2 ^ 32) :
    calcChecksum start buffer = 0 ↔ start = 0 ∧ ∀ b ∈ buffer, b = 0 := by
  have hNat : ∀ value : U16, value = 0 ↔ value.toNat = 0 := fun _ => BitVec.toNat_inj.symm
  rw [hNat, hNat, (onesEq_calcChecksum_of_lt hRoom).zero, Nat.add_eq_zero_iff, hostSum_eq_zero_iff]

end Call

/-- A call on the whole message, and one call after the other on its parts. -/
theorem calcChecksum_append (start : U16) {front back : List UInt8} (hFront : front.length % 2 = 0)
    (hLength : front.length + back.length ≤ 65575) :
    calcChecksum (calcChecksum start front) back = calcChecksum start (front ++ back) := by
  have hWhole : (front ++ back).length ≤ 65575 := by rwa [List.length_append]
  have hFirst := onesEq_calcChecksum_of_lt (room_of_length start (by omega : front.length ≤ 65575))
  apply calcChecksum_eq_of_onesEq (room_of_length _ (by omega)) (room_of_length start hWhole)
  rw [hostSum_append hFront, ← Nat.add_assoc]
  exact hFirst.add (.refl _)

/-- One call after the other is one call, in any order of the words of the
first part; no accumulator overflows, and zero comes of zeros alone. -/
theorem checksum_chains (start : U16) {front back : List UInt8} (hFront : front.length % 2 = 0)
    (hLength : front.length + back.length ≤ 65575) :
    calcChecksum (calcChecksum start front) back = calcChecksum start (front ++ back) ∧
      (AddsExactly start front ∧ AddsExactly (calcChecksum start front) back ∧
        AddsExactly start (front ++ back)) ∧
      (∀ other : List UInt8, other.length % 2 = 0 → (hostWords other).Perm (hostWords front) →
        calcChecksum (calcChecksum start other) back = calcChecksum (calcChecksum start front) back ∧
          calcChecksum start (other ++ back) = calcChecksum start (front ++ back)) ∧
      (calcChecksum start (front ++ back) = 0 ↔ start = 0 ∧ ∀ b ∈ front ++ back, b = 0) := by
  have hWhole : (front ++ back).length ≤ 65575 := by rwa [List.length_append]
  have hRoom := room_of_length start hWhole
  have hFirst := room_of_length start (by omega : front.length ≤ 65575)
  have hSecond := room_of_length (calcChecksum start front) (by omega : back.length ≤ 65575)
  refine ⟨calcChecksum_append start hFront hLength,
    ⟨addsExactly_of_lt hFirst, addsExactly_of_lt hSecond, addsExactly_of_lt hRoom⟩, ?_,
    calcChecksum_eq_zero_iff hRoom⟩
  intro other hOther hPerm
  have hSum := hostSum_perm hPerm
  refine ⟨?_, ?_⟩
  · rw [calcChecksum_eq_of_hostSum hFirst hSum]
  · apply calcChecksum_eq_of_hostSum hRoom
    rw [hostSum_append hOther, hostSum_append hFront, hSum]

/-- Two words exchanged, and a byte left over. -/
theorem checksum_chains_three :
    calcChecksum (calcChecksum 0xFFFF [1, 2, 3, 4]) [5] = calcChecksum 0xFFFF [1, 2, 3, 4, 5] ∧
      AddsExactly 0xFFFF [1, 2, 3, 4, 5] ∧
      calcChecksum 0xFFFF [3, 4, 1, 2, 5] = calcChecksum 0xFFFF [1, 2, 3, 4, 5] ∧
      calcChecksum 0xFFFF [1, 2, 3, 4, 5] ≠ 0 := by
  obtain ⟨hChain, ⟨-, -, hExact⟩, hPerm, hZero⟩ :=
    checksum_chains 0xFFFF (by decide : [(1 : UInt8), 2, 3, 4].length % 2 = 0)
      (by decide : [(1 : UInt8), 2, 3, 4].length + [(5 : UInt8)].length ≤ 65575)
  refine ⟨hChain, hExact, (hPerm [3, 4, 1, 2] rfl (.swap ..)).2, ?_⟩
  intro hNone
  exact absurd (hZero.mp hNone).1 (by decide)

end Tun2Http
