import Mathlib.Data.List.Nodup
import Mathlib.Logic.Function.Basic

/-! Who owns what in a memory. An owner has the addresses of a footprint, and a
program changes a memory within the footprint of one owner: it takes addresses that
are free, and gives back addresses that are its own. Then what is allocated is at any
time what the owners have, and nothing is taken from anyone else. -/
namespace Machine

variable {α β κ : Type*}

/-- From `memory` to `later` only the footprint was changed, which was `before` and is
`after`: what is new in it was free, and what has left it is free. -/
structure Changes (memory later : α → Option β) (before after : List α) : Prop where
  frame : ∀ a, a ∉ before → a ∉ after → later a = memory a
  fresh : ∀ a ∈ after, a ∉ before → memory a = none
  freed : ∀ a ∈ before, a ∉ after → later a = none

namespace Changes

variable {memory later last : α → Option β} {before middle after : List α}

/-- Where the footprint stays. -/
theorem of_frame (h : ∀ a, a ∉ before → later a = memory a) : Changes memory later before before :=
  ⟨fun a hNot _ => h a hNot, fun _ hIn hNot => absurd hIn hNot, fun _ hIn hNot => absurd hIn hNot⟩

/-- Where blocks that were free have come to the footprint. -/
theorem of_fresh {added : List α} (hFresh : ∀ a ∈ added, memory a = none)
    (hSame : ∀ a, a ∉ added → a ∉ before → later a = memory a) : Changes memory later before (added ++ before) := by
  refine ⟨fun a hBefore hAfter => ?_, fun a hAfter hBefore => ?_, fun a hBefore hAfter => ?_⟩
  · exact hSame a (fun hIn => hAfter (List.mem_append_left _ hIn)) hBefore
  · exact hFresh a ((List.mem_append.mp hAfter).resolve_right hBefore)
  · exact absurd (List.mem_append_right _ hBefore) hAfter

theorem refl (memory : α → Option β) (before : List α) : Changes memory memory before before :=
  of_frame fun _ _ => rfl

theorem trans (hFirst : Changes memory later before middle) (hSecond : Changes later last middle after) :
    Changes memory last before after := by
  constructor
  · intro a hBefore hAfter
    by_cases hMiddle : a ∈ middle
    · rw [hSecond.freed a hMiddle hAfter, hFirst.fresh a hMiddle hBefore]
    · rw [hSecond.frame a hMiddle hAfter, hFirst.frame a hBefore hMiddle]
  · intro a hAfter hBefore
    by_cases hMiddle : a ∈ middle
    · exact hFirst.fresh a hMiddle hBefore
    · rw [← hFirst.frame a hBefore hMiddle]
      exact hSecond.fresh a hAfter hMiddle
  · intro a hBefore hAfter
    by_cases hMiddle : a ∈ middle
    · exact hSecond.freed a hMiddle hAfter
    · rw [hSecond.frame a hMiddle hAfter]
      exact hFirst.freed a hBefore hMiddle

/-- The order of the addresses in a footprint does not matter. -/
theorem of_mem_iff {before' after' : List α} (h : Changes memory later before after)
    (hBefore : ∀ a, a ∈ before' ↔ a ∈ before) (hAfter : ∀ a, a ∈ after' ↔ a ∈ after) :
    Changes memory later before' after' := by
  constructor
  · intro a hNot hNone
    exact h.frame a (mt (hBefore a).mpr hNot) (mt (hAfter a).mpr hNone)
  · intro a hIn hNot
    exact h.fresh a ((hAfter a).mp hIn) (mt (hBefore a).mpr hNot)
  · intro a hIn hNot
    exact h.freed a ((hBefore a).mp hIn) (mt (hAfter a).mpr hNot)

/-- A part of a footprint that is left alone. -/
theorem append_left (h : Changes memory later before after) (rest : List α) :
    Changes memory later (rest ++ before) (rest ++ after) := by
  constructor
  · intro a hNot hNone
    simp only [List.mem_append, not_or] at hNot hNone
    exact h.frame a hNot.2 hNone.2
  · intro a hIn hNot
    simp only [List.mem_append, not_or] at hIn hNot
    exact h.fresh a (hIn.resolve_left hNot.1) hNot.2
  · intro a hIn hNot
    simp only [List.mem_append, not_or] at hIn hNot
    exact h.freed a (hIn.resolve_left hNot.1) hNot.2

end Changes

/-- No address has two owners, and what is allocated is what the owners have. -/
structure Owned (memory : α → Option β) (footprint : κ → List α) : Prop where
  apart : ∀ k l, k ≠ l → ∀ a ∈ footprint k, a ∉ footprint l
  held : ∀ a, memory a ≠ none ↔ ∃ k, a ∈ footprint k

namespace Owned

variable {memory later : α → Option β} {footprint : κ → List α} {k l : κ} {after : List α}

/-- What is new in a footprint was nobody's. -/
theorem not_mem_of_changes (h : Owned memory footprint) (hChanges : Changes memory later (footprint k) after)
    (hOther : l ≠ k) {a : α} (hIn : a ∈ footprint l) : a ∉ footprint k ∧ a ∉ after := by
  have hNot : a ∉ footprint k := h.apart l k hOther a hIn
  refine ⟨hNot, fun hAfter => ?_⟩
  exact (h.held a).mpr ⟨l, hIn⟩ (hChanges.fresh a hAfter hNot)

/-- What one owner does leaves the memory of the others as it is. -/
theorem frame (h : Owned memory footprint) (hChanges : Changes memory later (footprint k) after)
    (hOther : l ≠ k) {a : α} (hIn : a ∈ footprint l) : later a = memory a := by
  obtain ⟨hBefore, hAfter⟩ := h.not_mem_of_changes hChanges hOther hIn
  exact hChanges.frame a hBefore hAfter

/-- What one owner does within its footprint keeps the ownership. -/
theorem change [DecidableEq κ] (h : Owned memory footprint) (hChanges : Changes memory later (footprint k) after)
    (hHeld : ∀ a ∈ after, later a ≠ none) : Owned later (Function.update footprint k after) := by
  constructor
  · intro i j hApart a hIn
    by_cases hI : i = k
    · subst hI
      rw [Function.update_self] at hIn
      rw [Function.update_of_ne hApart.symm]
      intro hAlso
      exact (h.not_mem_of_changes hChanges hApart.symm hAlso).2 hIn
    · rw [Function.update_of_ne hI] at hIn
      by_cases hJ : j = k
      · subst hJ
        rw [Function.update_self]
        exact (h.not_mem_of_changes hChanges hI hIn).2
      · rw [Function.update_of_ne hJ]
        exact h.apart i j hApart a hIn
  · intro a
    constructor
    · intro hSome
      by_cases hAfter : a ∈ after
      · exact ⟨k, by rwa [Function.update_self]⟩
      · have hBefore : a ∉ footprint k := fun hIn => hSome (hChanges.freed a hIn hAfter)
        rw [hChanges.frame a hBefore hAfter] at hSome
        obtain ⟨i, hIn⟩ := (h.held a).mp hSome
        have hI : i ≠ k := fun hSame => hBefore (hSame ▸ hIn)
        exact ⟨i, by rwa [Function.update_of_ne hI]⟩
    · rintro ⟨i, hIn⟩
      by_cases hI : i = k
      · subst hI
        rw [Function.update_self] at hIn
        exact hHeld a hIn
      · rw [Function.update_of_ne hI] at hIn
        rw [h.frame hChanges hI hIn]
        exact (h.held a).mpr ⟨i, hIn⟩

end Owned

end Machine
