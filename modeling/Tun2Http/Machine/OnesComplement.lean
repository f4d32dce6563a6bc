import Mathlib.Data.Nat.ModEq
import Mathlib.Tactic.SplitIfs

/-! Sums of 16-bit words in one's complement. Two numbers that leave the same
rest modulo 65535, and of which both or none are zero, have the same sum of
words; that is kept by addition and by an exchange of the two bytes. -/
namespace Machine

/-- The words of a message, high byte first. A last byte is padded with zero. -/
def words : List UInt8 → List Nat
  | high :: low :: rest => (256 * high.toNat + low.toNat) :: words rest
  | [high] => [256 * high.toNat]
  | [] => []

/-- The same words, as a little-endian host loads them. -/
def hostWords : List UInt8 → List Nat
  | low :: high :: rest => (low.toNat + 256 * high.toNat) :: hostWords rest
  | [low] => [low.toNat]
  | [] => []

/-- Their sum, on a host with room for the carries. -/
def hostSum (message : List UInt8) : Nat := (hostWords message).sum

/-- An addition on 16 bits: a carry is added at the other end. -/
def onesAdd (a b : Nat) : Nat := if a + b < 2 ^ 16 then a + b else a + b - (2 ^ 16 - 1)

/-- The sum of a message that a receiver checks. -/
def onesSum (message : List UInt8) : Nat := (words message).foldl onesAdd 0

/-- The numbers are the same in one's complement. -/
structure OnesEq (a b : Nat) : Prop where
  modEq : a ≡ b [MOD 65535]
  zero : a = 0 ↔ b = 0

namespace OnesEq

variable {a b c d : Nat}

theorem refl (a : Nat) : OnesEq a a := ⟨rfl, Iff.rfl⟩

theorem symm (h : OnesEq a b) : OnesEq b a := ⟨h.modEq.symm, h.zero.symm⟩

theorem trans (hFirst : OnesEq a b) (hSecond : OnesEq b c) : OnesEq a c :=
  ⟨hFirst.modEq.trans hSecond.modEq, hFirst.zero.trans hSecond.zero⟩

theorem add (hFirst : OnesEq a b) (hSecond : OnesEq c d) : OnesEq (a + c) (b + d) := by
  refine ⟨hFirst.modEq.add hSecond.modEq, ?_⟩
  rw [Nat.add_eq_zero_iff, Nat.add_eq_zero_iff, hFirst.zero, hSecond.zero]

theorem mul (factor : Nat) (h : OnesEq a b) : OnesEq (factor * a) (factor * b) := by
  refine ⟨h.modEq.mul_left factor, ?_⟩
  rw [Nat.mul_eq_zero, Nat.mul_eq_zero, h.zero]

/-- On 16 bits all ones are told from other numbers. -/
theorem eq_iff (h : OnesEq a b) (hSmall : a < 2 ^ 16) : a = 65535 ↔ 0 < b ∧ 65535 ∣ b := by
  obtain ⟨hMod, hZero⟩ := h
  have hRest : a % 65535 = b % 65535 := hMod
  constructor
  · intro hOnes
    subst hOnes
    exact ⟨by omega, Nat.dvd_of_mod_eq_zero (by omega)⟩
  · rintro ⟨hSome, hDvd⟩
    have hNone := Nat.mod_eq_zero_of_dvd hDvd
    omega

/-- On 16 bits the sum is one number. -/
theorem eq (h : OnesEq a b) (hA : a < 2 ^ 16) (hB : b < 2 ^ 16) : a = b := by
  obtain ⟨hMod, hZero⟩ := h
  have hRest : a % 65535 = b % 65535 := hMod
  omega

/-- A carry may be added at the other end. -/
theorem fold (a : Nat) : OnesEq (a % 2 ^ 16 + a / 2 ^ 16) a := by
  refine ⟨?_, ?_⟩
  · show (a % 2 ^ 16 + a / 2 ^ 16) % 65535 = a % 65535
    omega
  · omega

/-- The bytes of a number exchanged twice. -/
theorem swap (n : Nat) : OnesEq n (256 * (256 * n)) := by
  refine ⟨?_, by omega⟩
  show n % 65535 = 256 * (256 * n) % 65535
  omega

/-- With its complement a sum is all ones. -/
theorem complement (h : OnesEq a b) (hSmall : a < 2 ^ 16) : OnesEq (b + (65535 - a)) 65535 := by
  obtain ⟨hMod, hZero⟩ := h
  have hRest : a % 65535 = b % 65535 := hMod
  refine ⟨?_, by omega⟩
  show (b + (65535 - a)) % 65535 = 65535 % 65535
  omega

end OnesEq

theorem onesEq_onesAdd {a b : Nat} (hA : a < 2 ^ 16) (hB : b < 2 ^ 16) :
    onesAdd a b < 2 ^ 16 ∧ OnesEq (onesAdd a b) (a + b) := by
  unfold onesAdd
  split_ifs with hCarry
  · exact ⟨hCarry, .refl _⟩
  · refine ⟨by omega, ?_, by omega⟩
    show (a + b - (2 ^ 16 - 1)) % 65535 = (a + b) % 65535
    omega

theorem words_lt (message : List UInt8) : ∀ w ∈ words message, w < 2 ^ 16 := by
  induction message using words.induct with
  | case1 high low rest ih =>
      have hHigh := high.toNat_lt
      have hLow := low.toNat_lt
      rw [words, List.forall_mem_cons]
      exact ⟨by omega, ih⟩
  | case2 high =>
      have hHigh := high.toNat_lt
      rw [words, List.forall_mem_singleton]
      omega
  | case3 => simp [words]

/-- The order of the additions does not matter, nor where the carries go. -/
theorem onesEq_foldl {list : List Nat} (hList : ∀ w ∈ list, w < 2 ^ 16) {start : Nat}
    (hStart : start < 2 ^ 16) :
    list.foldl onesAdd start < 2 ^ 16 ∧ OnesEq (list.foldl onesAdd start) (start + list.sum) := by
  induction list generalizing start with
  | nil => exact ⟨hStart, .refl _⟩
  | cons w rest ih =>
      obtain ⟨hWord, hRest⟩ := List.forall_mem_cons.mp hList
      obtain ⟨hSmall, hAdd⟩ := onesEq_onesAdd hStart hWord
      obtain ⟨hFoldSmall, hFold⟩ := ih hRest hSmall
      refine ⟨hFoldSmall, hFold.trans ?_⟩
      rw [List.sum_cons, ← Nat.add_assoc]
      exact hAdd.add (.refl _)

/-- The bytes of the words may be exchanged. -/
theorem onesEq_hostWords (message : List UInt8) :
    OnesEq (words message).sum (256 * hostSum message) := by
  unfold hostSum
  induction message using words.induct with
  | case1 high low rest ih =>
      have hWord : OnesEq (256 * high.toNat + low.toNat) (256 * (high.toNat + 256 * low.toNat)) := by
        rw [Nat.mul_add]
        exact (OnesEq.refl _).add (.swap _)
      rw [words, hostWords, List.sum_cons, List.sum_cons, Nat.mul_add]
      exact hWord.add ih
  | case2 high =>
      simp only [words, hostWords, List.sum_singleton]
      exact .refl _
  | case3 => exact .refl 0

/-- A receiver sees all ones just where the words of the host are some, and
their sum is a multiple of 65535. -/
theorem onesSum_eq_iff (message : List UInt8) :
    onesSum message = 65535 ↔ OnesEq (hostSum message) 65535 := by
  obtain ⟨hSmall, hSum⟩ := onesEq_foldl (words_lt message) (Nat.two_pow_pos 16)
  rw [Nat.zero_add] at hSum
  have hHost : OnesEq (onesSum message) (256 * hostSum message) :=
    hSum.trans (onesEq_hostWords message)
  have hOnes : OnesEq (256 * 65535) 65535 := ⟨by decide, by decide⟩
  constructor
  · intro hAll
    rw [hAll] at hHost
    exact (OnesEq.swap _).trans ((hHost.symm.mul 256).trans hOnes)
  · intro hAll
    exact ((hHost.trans (hAll.mul 256)).trans hOnes).eq_iff hSmall |>.mpr (by decide)

@[simp] theorem hostSum_nil : hostSum [] = 0 := rfl

@[simp] theorem hostSum_cons_cons (low high : UInt8) (rest : List UInt8) :
    hostSum (low :: high :: rest) = low.toNat + 256 * high.toNat + hostSum rest := by
  rw [hostSum, hostWords, List.sum_cons, hostSum]

/-- A message of whole words, and what follows. -/
theorem hostSum_append {front back : List UInt8} (hFront : front.length % 2 = 0) :
    hostSum (front ++ back) = hostSum front + hostSum back := by
  induction front using words.induct with
  | case1 high low rest ih =>
      have hRest : rest.length % 2 = 0 := by
        rw [List.length_cons, List.length_cons] at hFront
        omega
      rw [List.cons_append, List.cons_append, hostSum_cons_cons, hostSum_cons_cons, ih hRest]
      omega
  | case2 high => simp at hFront
  | case3 => exact (Nat.zero_add _).symm

/-- Each word takes two bytes. -/
theorem hostSum_le (message : List UInt8) : hostSum message ≤ 65535 * ((message.length + 1) / 2) := by
  induction message using words.induct with
  | case1 high low rest ih =>
      have hHigh := high.toNat_lt
      have hLow := low.toNat_lt
      rw [hostSum_cons_cons, List.length_cons, List.length_cons]
      omega
  | case2 high =>
      have hHigh := high.toNat_lt
      simp only [hostSum, hostWords, List.sum_singleton, List.length_singleton]
      omega
  | case3 => exact Nat.zero_le _

theorem hostSum_eq_zero_iff (message : List UInt8) : hostSum message = 0 ↔ ∀ b ∈ message, b = 0 := by
  have hByte : ∀ b : UInt8, b.toNat = 0 ↔ b = 0 := fun _ => UInt8.toNat_inj (b := 0)
  induction message using words.induct with
  | case1 low high rest ih =>
      have hRest : hostSum rest = 0 ↔ ∀ b ∈ rest, b = 0 := ih
      rw [List.forall_mem_cons, List.forall_mem_cons, ← hRest, ← hByte, ← hByte, hostSum_cons_cons]
      omega
  | case2 low =>
      rw [List.forall_mem_singleton, ← hByte]
      simp [hostSum, hostWords]
  | case3 => simp

theorem hostSum_perm {front other : List UInt8} (h : (hostWords other).Perm (hostWords front)) :
    hostSum other = hostSum front := h.sum_nat

end Machine
