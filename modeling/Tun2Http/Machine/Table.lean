import Mathlib.Data.List.Nodup
import Mathlib.Order.Basic

/-! Tables in which an entry may have a key, and no two entries have the same.
Treating every entry by a function that keeps the keys, and may drop entries,
leaves such a table; how many entries meet a condition is followed likewise. -/
namespace Machine

variable {α κ : Type*}

/-- No two entries of the table have the same key. -/
def Keyed (key : α → Option κ) (table : List α) : Prop := (table.filterMap key).Nodup

instance [DecidableEq κ] (key : α → Option κ) (table : List α) : Decidable (Keyed key table) :=
  inferInstanceAs (Decidable (List.Nodup _))

variable {key : α → Option κ} {table : List α} {f : α → Option α} {p : α → Bool}

theorem keyed_nil (key : α → Option κ) : Keyed key [] := List.nodup_nil

theorem keyed_cons_iff {a : α} : Keyed key (a :: table) ↔
    (∀ k, key a = some k → ∀ b ∈ table, key b ≠ some k) ∧ Keyed key table := by
  unfold Keyed
  cases hKey : key a with
  | none => simp [hKey]
  | some k => simp [hKey]

namespace Keyed

/-- An entry is told by its key. -/
theorem eq_of_key {a b : α} {k : κ} (h : Keyed key table) (ha : a ∈ table) (hb : b ∈ table)
    (hKeyA : key a = some k) (hKeyB : key b = some k) : a = b := by
  induction table with
  | nil => cases ha
  | cons c rest ih =>
      obtain ⟨hFresh, hRest⟩ := keyed_cons_iff.mp h
      rcases List.mem_cons.mp ha with rfl | hInA
      · rcases List.mem_cons.mp hb with rfl | hInB
        · rfl
        · exact absurd hKeyB (hFresh k hKeyA b hInB)
      · rcases List.mem_cons.mp hb with rfl | hInB
        · exact absurd hKeyA (hFresh k hKeyB a hInA)
        · exact ih hRest hInA hInB

/-- The search for a key finds the one entry that has it. -/
theorem find?_eq [DecidableEq κ] {a : α} {k : κ} (h : Keyed key table) (ha : a ∈ table)
    (hKey : key a = some k) : table.find? (fun b => key b = some k) = some a := by
  cases hFound : table.find? (fun b => key b = some k) with
  | none =>
      have hNone := List.find?_eq_none.mp hFound a ha
      simp [hKey] at hNone
  | some b =>
      have hKeyB : key b = some k := by simpa using List.find?_some hFound
      rw [h.eq_of_key (List.mem_of_find?_eq_some hFound) ha hKeyB hKey]

/-- Entries may be dropped, and changed where they keep their keys. -/
theorem filterMap (h : Keyed key table)
    (hKeep : ∀ a ∈ table, ∀ b, f a = some b → key b = key a) : Keyed key (table.filterMap f) := by
  induction table with
  | nil => exact h
  | cons a rest ih =>
      obtain ⟨hFresh, hRest⟩ := keyed_cons_iff.mp h
      have hTail := ih hRest fun b hb => hKeep b (List.mem_cons_of_mem a hb)
      cases hTreat : f a with
      | none => rwa [List.filterMap_cons_none hTreat]
      | some b =>
          rw [List.filterMap_cons_some hTreat, keyed_cons_iff]
          refine ⟨fun k hKey c hc => ?_, hTail⟩
          obtain ⟨d, hd, hTreatD⟩ := List.mem_filterMap.mp hc
          rw [hKeep a (List.mem_cons_self ..) b hTreat] at hKey
          rw [hKeep d (List.mem_cons_of_mem a hd) c hTreatD]
          exact hFresh k hKey d hd

end Keyed

/-! How many entries meet a condition. -/

/-- No entry comes to meet the condition. -/
theorem countP_filterMap_le (hKeep : ∀ a ∈ table, ∀ b, f a = some b → p b = true → p a = true) :
    (table.filterMap f).countP p ≤ table.countP p := by
  rw [List.countP_filterMap]
  apply List.countP_mono_left
  intro a ha hMeets
  cases hTreat : f a with
  | none => simp [hTreat] at hMeets
  | some b => exact hKeep a ha b hTreat (by simpa [hTreat] using hMeets)

/-- No entry ceases to meet it. -/
theorem countP_le_filterMap (hKeep : ∀ a ∈ table, p a = true → ∃ b, f a = some b ∧ p b = true) :
    table.countP p ≤ (table.filterMap f).countP p := by
  rw [List.countP_filterMap]
  apply List.countP_mono_left
  intro a ha hMeets
  obtain ⟨b, hTreat, hAfter⟩ := hKeep a ha hMeets
  simp [hTreat, hAfter]

/-- Only the entry with the key `k` may come to meet it. -/
theorem countP_filterMap_le_succ {k : κ} (h : Keyed key table)
    (hKeep : ∀ a ∈ table, key a ≠ some k → ∀ b, f a = some b → p b = true → p a = true) :
    (table.filterMap f).countP p ≤ table.countP p + 1 := by
  induction table with
  | nil => exact Nat.zero_le _
  | cons a rest ih =>
      obtain ⟨hFresh, hRest⟩ := keyed_cons_iff.mp h
      by_cases hKey : key a = some k
      · have hOthers : (rest.filterMap f).countP p ≤ rest.countP p :=
          countP_filterMap_le fun c hc => hKeep c (List.mem_cons_of_mem a hc) (hFresh k hKey c hc)
        have hHead : ((a :: rest).filterMap f).countP p ≤ (rest.filterMap f).countP p + 1 := by
          rw [List.filterMap_cons]
          cases f a with
          | none => exact Nat.le_succ _
          | some b =>
              rw [List.countP_cons]
              split_ifs <;> omega
        have hStart : rest.countP p ≤ (a :: rest).countP p := (List.sublist_cons_self a rest).countP_le
        omega
      · have hHead : ([a].filterMap f).countP p ≤ [a].countP p := countP_filterMap_le fun c hc => by
          rw [List.mem_singleton.mp hc]
          exact hKeep a (List.mem_cons_self ..) hKey
        have hTail := ih hRest fun c hc => hKeep c (List.mem_cons_of_mem a hc)
        rw [← List.singleton_append, List.filterMap_append, List.countP_append, List.countP_append]
        omega

/-- One entry comes to meet it, and none ceases to. -/
theorem countP_lt_filterMap {a b : α} (ha : a ∈ table) (hTreat : f a = some b)
    (hBefore : p a = false) (hAfter : p b = true)
    (hKeep : ∀ c ∈ table, p c = true → ∃ d, f c = some d ∧ p d = true) :
    table.countP p < (table.filterMap f).countP p := by
  obtain ⟨before, after, rfl⟩ := List.append_of_mem ha
  have hFirst := countP_le_filterMap fun c hc => hKeep c (List.mem_append_left _ hc)
  have hLast := countP_le_filterMap fun c hc =>
    hKeep c (List.mem_append_right _ (List.mem_cons_of_mem a hc))
  rw [List.filterMap_append, List.filterMap_cons_some hTreat, List.countP_append, List.countP_append,
    List.countP_cons_of_pos hAfter, List.countP_cons_of_neg (by simp [hBefore])]
  omega

end Machine
