import Mathlib.Data.List.Nodup

/-! Singly linked lists in a heap, and the loop that visits every node and unlinks
some of them. It keeps a pointer to the last node that it has kept, and reads the
link of a node before it frees it. -/
namespace Machine

/-- A node, with the address of the next one. -/
structure Node (α : Type*) where
  value : α
  next : Option Nat

/-- The nodes at their addresses. Where nothing is allocated there is none. -/
def Heap (α : Type*) := Nat → Option (Node α)

namespace Heap

variable {α : Type*}

def store (heap : Heap α) (address : Nat) (node : Node α) : Heap α := fun other =>
  if other = address then some node else heap other

def free (heap : Heap α) (address : Nat) : Heap α := fun other =>
  if other = address then none else heap other

/-- From `start` on the nodes have the entries of the list, and the last link is `stop`. -/
def Linked (heap : Heap α) (stop : Option Nat) : Option Nat → List (Nat × α) → Prop
  | start, [] => start = stop
  | start, (address, value) :: rest =>
      start = some address ∧ ∃ next, heap address = some ⟨value, next⟩ ∧ heap.Linked stop next rest

variable {heap other : Heap α} {stop start : Option Nat} {list front back : List (Nat × α)}

theorem store_self (heap : Heap α) (address : Nat) (node : Node α) :
    heap.store address node address = some node := if_pos rfl

theorem store_of_ne {address q : Nat} (node : Node α) (h : q ≠ address) :
    heap.store address node q = heap q := if_neg h

theorem free_self (heap : Heap α) (address : Nat) : heap.free address address = none := if_pos rfl

theorem free_of_ne {address q : Nat} (h : q ≠ address) : heap.free address q = heap q := if_neg h

/-- A list depends on its own nodes only. -/
theorem Linked.frame (h : heap.Linked stop start list)
    (hSame : ∀ entry ∈ list, other entry.1 = heap entry.1) : other.Linked stop start list := by
  induction list generalizing start with
  | nil => exact h
  | cons entry rest ih =>
      obtain ⟨rfl, next, hNode, hRest⟩ := h
      exact ⟨rfl, next, (hSame entry (List.mem_cons_self ..)).trans hNode,
        ih hRest fun later hLater => hSame later (List.mem_cons_of_mem _ hLater)⟩

theorem linked_append_iff : heap.Linked stop start (front ++ back) ↔
    ∃ middle, heap.Linked middle start front ∧ heap.Linked stop middle back := by
  induction front generalizing start with
  | nil => exact ⟨fun h => ⟨start, rfl, h⟩, fun ⟨_, hSame, h⟩ => hSame ▸ h⟩
  | cons entry rest ih =>
      constructor
      · rintro ⟨hStart, next, hNode, hRest⟩
        obtain ⟨middle, hFront, hBack⟩ := ih.mp hRest
        exact ⟨middle, ⟨hStart, next, hNode, hFront⟩, hBack⟩
      · rintro ⟨middle, ⟨hStart, next, hNode, hFront⟩, hBack⟩
        exact ⟨hStart, next, hNode, ih.mpr ⟨middle, hFront, hBack⟩⟩

/-- The last node of a list may be linked to something else. -/
theorem Linked.relink {address : Nat} {value : α} (next : Option Nat)
    (h : heap.Linked stop start (front ++ [(address, value)]))
    (hApart : address ∉ front.map Prod.fst) :
    (heap.store address ⟨value, next⟩).Linked next start (front ++ [(address, value)]) := by
  obtain ⟨middle, hFront, rfl, -⟩ := linked_append_iff.mp h
  refine linked_append_iff.mpr ⟨some address, hFront.frame fun entry hEntry => ?_,
    rfl, next, store_self .., rfl⟩
  exact store_of_ne _ fun hSame => hApart (hSame ▸ List.mem_map_of_mem hEntry)

end Heap

/-- The loop over a list: its first node, the last node that is kept so far, the
heap, and what has been gathered. -/
structure Sweep (α β : Type*) where
  head : Option Nat
  last : Option Nat
  heap : Heap α
  gathered : β

namespace Sweep

variable {α β : Type*}

/-- The link to the node visited is set to the next one. -/
def unlink (w : Sweep α β) (next : Option Nat) : Option (Sweep α β) :=
  match w.last with
  | none => some { w with head := next }
  | some address => (w.heap address).map fun node =>
      { w with heap := w.heap.store address ⟨node.value, next⟩ }

/-- The loop from a node on, `none` while it goes on after `turns` turns, or where
there is no node. `visit` gives the new value and tells whether the node is dropped. -/
def sweepFrom (visit : Nat → α → β → α × Bool × β) :
    Nat → Option Nat → Sweep α β → Option (Sweep α β)
  | 0, _, _ => none
  | _ + 1, none, w => some w
  | turns + 1, some address, w =>
      match w.heap address with
      | none => none
      | some node =>
          let (value, dropped, gathered) := visit address node.value w.gathered
          if dropped then
            match w.unlink node.next with
            | none => none
            | some w => sweepFrom visit turns node.next
                { w with heap := w.heap.free address, gathered := gathered }
          else sweepFrom visit turns node.next
            { w with
              last := some address
              heap := w.heap.store address ⟨value, node.next⟩
              gathered := gathered }

/-- What the loop is to leave of a list, and what it gathers. -/
def swept (visit : Nat → α → β → α × Bool × β) : List (Nat × α) → β → List (Nat × α) × β
  | [], gathered => ([], gathered)
  | (address, value) :: rest, gathered =>
      let result := visit address value gathered
      let later := swept visit rest result.2.2
      (if result.2.1 then later.1 else (address, result.1) :: later.1, later.2)

variable {visit : Nat → α → β → α × Bool × β} {w : Sweep α β} {kept list : List (Nat × α)}
  {start : Option Nat} {turns : Nat}

/-- What holds of the loop at a node: the nodes kept lead to it, and the rest follows. -/
structure At (w : Sweep α β) (kept : List (Nat × α)) (start : Option Nat) (list : List (Nat × α)) :
    Prop where
  before : w.heap.Linked start w.head kept
  last : w.last = kept.getLast?.map Prod.fst
  ahead : w.heap.Linked none start list
  apart : ((kept ++ list).map Prod.fst).Nodup

/-- What the loop has done when it has ended. -/
structure Done (visit : Nat → α → β → α × Bool × β) (w after : Sweep α β)
    (kept list : List (Nat × α)) : Prop where
  linked : after.heap.Linked none after.head (kept ++ (swept visit list w.gathered).1)
  gathered : after.gathered = (swept visit list w.gathered).2
  freed : ∀ entry ∈ list, entry.1 ∉ (swept visit list w.gathered).1.map Prod.fst →
    after.heap entry.1 = none
  frame : ∀ address, address ∉ (kept ++ list).map Prod.fst → after.heap address = w.heap address

section Step

variable {address : Nat} {value : α} {rest : List (Nat × α)} {next : Option Nat}

theorem At.fresh (h : At w kept start ((address, value) :: rest)) :
    address ∉ kept.map Prod.fst ∧ address ∉ rest.map Prod.fst ∧
      ∀ q ∈ kept.map Prod.fst, q ∉ rest.map Prod.fst := by
  have hApart := h.apart
  rw [List.map_append, List.nodup_append, List.map_cons, List.nodup_cons] at hApart
  obtain ⟨-, ⟨hRest, -⟩, hBoth⟩ := hApart
  exact ⟨fun hIn => hBoth _ hIn _ (List.mem_cons_self ..) rfl, hRest,
    fun q hKept hLater => hBoth q hKept q (List.mem_cons_of_mem _ hLater) rfl⟩

/-- A node that is kept gets its new value. -/
theorem At.keep (h : At w kept (some address) ((address, value) :: rest))
    (hRest : w.heap.Linked none next rest) (new : α) (gathered : β) :
    At ⟨w.head, some address, w.heap.store address ⟨new, next⟩, gathered⟩
      (kept ++ [(address, new)]) next rest := by
  obtain ⟨hKept, hLater, -⟩ := h.fresh
  refine ⟨Heap.linked_append_iff.mpr ⟨some address, h.before.frame fun entry hEntry => ?_, rfl, next,
    Heap.store_self .., rfl⟩, by simp, hRest.frame fun entry hEntry => ?_, ?_⟩
  · exact Heap.store_of_ne _ fun hSame => hKept (hSame ▸ List.mem_map_of_mem hEntry)
  · exact Heap.store_of_ne _ fun hSame => hLater (hSame ▸ List.mem_map_of_mem hEntry)
  · have hApart := h.apart
    simpa using hApart

/-- A node that is dropped is unlinked from the last one kept, or from the head,
and freed. -/
theorem At.drop (h : At w kept (some address) ((address, value) :: rest))
    (hRest : w.heap.Linked none next rest) (gathered : β) :
    ∃ after, w.unlink next = some after ∧
      At ⟨after.head, after.last, after.heap.free address, gathered⟩ kept next rest ∧
      ∀ q, q ≠ address → q ∉ kept.map Prod.fst → after.heap q = w.heap q := by
  obtain ⟨hKept, hLater, hBoth⟩ := h.fresh
  have hApart : ((kept ++ rest).map Prod.fst).Nodup := by
    have hAll := h.apart
    rw [List.map_append, List.map_cons] at hAll
    rw [List.map_append]
    exact hAll.sublist ((List.sublist_cons_self ..).append_left _)
  have hFree : ∀ (heap : Heap α) (list : List (Nat × α)) {stop start : Option Nat},
      heap.Linked stop start list → address ∉ list.map Prod.fst →
        (heap.free address).Linked stop start list := fun heap list _ _ hLinked hNot =>
    hLinked.frame fun entry hEntry =>
      Heap.free_of_ne fun hSame => hNot (hSame ▸ List.mem_map_of_mem hEntry)
  rcases List.eq_nil_or_concat kept with rfl | ⟨front, ⟨q, u⟩, rfl⟩
  · have hLast : w.last = none := h.last
    refine ⟨{ w with head := next }, by rw [unlink, hLast], ⟨rfl, h.last, hFree _ _ hRest hLater, hApart⟩,
      fun _ _ _ => rfl⟩
  · rw [List.concat_eq_append] at h hKept hBoth hApart ⊢
    have hLast : w.last = some q := by simpa using h.last
    obtain ⟨middle, -, rfl, link, hNode, -⟩ := Heap.linked_append_iff.mp h.before
    have hFront : q ∉ front.map Prod.fst := by
      have hAll := (List.nodup_append.mp (List.map_append ▸ hApart)).1
      rw [List.map_append, List.nodup_append] at hAll
      exact fun hIn => hAll.2.2 q hIn q (by simp) rfl
    have hIn : q ∈ (front ++ [(q, u)]).map Prod.fst := by simp
    refine ⟨{ w with heap := w.heap.store q ⟨u, next⟩ }, by simp [unlink, hLast, hNode],
      ⟨hFree _ _ (h.before.relink next hFront) hKept, h.last, hFree _ _ (hRest.frame fun entry hEntry => ?_)
        hLater, hApart⟩, fun other hOther hNot => ?_⟩
    · exact Heap.store_of_ne _ fun hSame => hBoth q hIn (hSame ▸ List.mem_map_of_mem hEntry)
    · exact Heap.store_of_ne _ fun hSame => hNot (hSame ▸ hIn)

/-- An address of no entry is that of none in front, of none behind, and not the entry's. -/
theorem not_mem_append_cons_iff {q : Nat} : q ∉ (kept ++ (address, value) :: rest).map Prod.fst ↔
    q ∉ kept.map Prod.fst ∧ q ≠ address ∧ q ∉ rest.map Prod.fst := by
  simp only [List.map_append, List.map_cons, List.mem_append, List.mem_cons, not_or]

/-- What the loop does behind a node that is kept, it does from that node on. -/
theorem Done.keep {after : Sweep α β} {new : α} {gathered : β}
    (hVisit : visit address value w.gathered = (new, false, gathered))
    (hDone : Done visit ⟨w.head, some address, w.heap.store address ⟨new, next⟩, gathered⟩ after
      (kept ++ [(address, new)]) rest) : Done visit w after kept ((address, value) :: rest) := by
  have hSwept : swept visit ((address, value) :: rest) w.gathered =
      ((address, new) :: (swept visit rest gathered).1, (swept visit rest gathered).2) := by
    simp only [swept, hVisit, Bool.false_eq_true, if_false]
  constructor
  · rw [hSwept, List.append_cons]
    exact hDone.linked
  · rw [hSwept]
    exact hDone.gathered
  · intro other hOther hNot
    rw [hSwept, List.map_cons, List.mem_cons, not_or] at hNot
    rcases List.mem_cons.mp hOther with rfl | hIn
    · exact absurd rfl hNot.1
    · exact hDone.freed other hIn hNot.2
  · intro q hNot
    have hHere := (not_mem_append_cons_iff.mp hNot).2.1
    refine (hDone.frame q ?_).trans (Heap.store_of_ne _ hHere)
    rw [← List.append_cons]
    exact not_mem_append_cons_iff.mpr (not_mem_append_cons_iff.mp hNot)

/-- What the loop does behind a node that is dropped, it does from that node on. -/
theorem Done.drop {after unlinked : Sweep α β} {new : α} {gathered : β}
    (h : At w kept start ((address, value) :: rest))
    (hVisit : visit address value w.gathered = (new, true, gathered))
    (hSame : ∀ q, q ≠ address → q ∉ kept.map Prod.fst → unlinked.heap q = w.heap q)
    (hDone : Done visit ⟨unlinked.head, unlinked.last, unlinked.heap.free address, gathered⟩ after
      kept rest) : Done visit w after kept ((address, value) :: rest) := by
  have hSwept : swept visit ((address, value) :: rest) w.gathered = swept visit rest gathered := by
    simp only [swept, hVisit, if_true]
  have hFrame : ∀ q, q ∉ kept.map Prod.fst → q ∉ rest.map Prod.fst →
      after.heap q = unlinked.heap.free address q := by
    intro q hFirst hBehind
    refine hDone.frame q ?_
    rw [List.map_append, List.mem_append, not_or]
    exact ⟨hFirst, hBehind⟩
  obtain ⟨hKept, hLater, -⟩ := h.fresh
  constructor
  · rw [hSwept]
    exact hDone.linked
  · rw [hSwept]
    exact hDone.gathered
  · intro other hOther hNot
    rw [hSwept] at hNot
    rcases List.mem_cons.mp hOther with rfl | hIn
    · exact (hFrame _ hKept hLater).trans (Heap.free_self ..)
    · exact hDone.freed other hIn hNot
  · intro q hNot
    obtain ⟨hFirst, hHere, hBehind⟩ := not_mem_append_cons_iff.mp hNot
    rw [hFrame q hFirst hBehind, Heap.free_of_ne hHere, hSame q hHere hFirst]

end Step

/-- The loop ends, and leaves the list of the nodes that it has kept, in their order. -/
theorem sweepFrom_done (h : At w kept start list) (hTurns : list.length < turns) :
    ∃ after, sweepFrom visit turns start w = some after ∧ Done visit w after kept list := by
  induction list generalizing w kept start turns with
  | nil =>
      obtain ⟨turns, rfl⟩ := Nat.exists_eq_succ_of_ne_zero (Nat.ne_of_gt hTurns)
      obtain rfl : start = none := h.ahead
      refine ⟨w, rfl, ?_, rfl, fun entry hNone => ?_, fun _ _ => rfl⟩
      · rw [swept, List.append_nil]
        exact h.before
      · cases hNone
  | cons entry rest ih =>
      obtain ⟨address, value⟩ := entry
      obtain ⟨turns, rfl⟩ := Nat.exists_eq_succ_of_ne_zero (Nat.ne_of_gt (Nat.zero_lt_of_lt hTurns))
      rw [List.length_cons, Nat.succ_lt_succ_iff] at hTurns
      obtain ⟨rfl, next, hNode, hRest⟩ := h.ahead
      rcases hVisit : visit address value w.gathered with ⟨new, dropped, gathered⟩
      cases dropped with
      | false =>
          obtain ⟨after, hEnd, hDone⟩ := ih (h.keep hRest new gathered) hTurns
          refine ⟨after, ?_, hDone.keep hVisit⟩
          simp only [sweepFrom, hNode, hVisit, Bool.false_eq_true, if_false]
          exact hEnd
      | true =>
          obtain ⟨unlinked, hUnlink, hAt, hSame⟩ := h.drop hRest gathered
          obtain ⟨after, hEnd, hDone⟩ := ih hAt hTurns
          refine ⟨after, ?_, hDone.drop h hVisit hSame⟩
          simp only [sweepFrom, hNode, hVisit, if_true, hUnlink]
          exact hEnd

end Sweep

end Machine
