import Tun2Http.Machine.LinkedList
import Tun2Http.Machine.Ownership

/-! Programs that take and give back blocks of a heap, and follow pointers. A step
that touches what is not allocated is a fault. The walk through a linked list keeps a
pointer to the last node that it has passed, so that a new node can be linked in where
it stops. -/
namespace Machine

/-- Why a program does not go on: it touches what is not allocated, or it was given a
block that is, or its loop has more turns than are followed, or it has found something
else than it should. -/
inductive Fault where
  | access
  | malloc
  | turns
  | differs
  deriving DecidableEq

/-- What is found is what it should be. -/
def expect {α : Type} [DecidableEq α] (wanted found : α) : Except Fault Unit :=
  if found = wanted then .ok () else .error .differs

@[simp] theorem expect_self {α : Type} [DecidableEq α] (a : α) : expect a a = .ok () := if_pos rfl

@[simp] theorem ok_bind {ε α β : Type} (a : α) (f : α → Except ε β) : (Except.ok a >>= f) = f a := rfl

@[simp] theorem error_bind {ε α β : Type} (e : ε) (f : α → Except ε β) :
    (Except.error e >>= f) = .error e := rfl

namespace Heap

variable {α : Type}

/-- Reads a node. -/
def load (heap : Heap α) (address : Nat) : Except Fault (Node α) :=
  match heap address with
  | some node => .ok node
  | none => .error .access

/-- Writes a node that is allocated. -/
def write (heap : Heap α) (address : Nat) (node : Node α) : Except Fault (Heap α) :=
  match heap address with
  | some _ => .ok (heap.store address node)
  | none => .error .access

/-- Takes the block at `address`, which is what `malloc` returns, and fills it. -/
def allocate (heap : Heap α) (address : Nat) (node : Node α) : Except Fault (Heap α) :=
  match heap address with
  | some _ => .error .malloc
  | none => .ok (heap.store address node)

/-- Gives a block back. -/
def release (heap : Heap α) (address : Nat) : Except Fault (Heap α) :=
  match heap address with
  | some _ => .ok (heap.free address)
  | none => .error .access

/-- `s` goes on from node to node while the node passes, and `p` follows it. -/
def walk (heap : Heap α) (passes : α → Bool) :
    Nat → Option Nat → Option Nat → Except Fault (Option Nat × Option Nat)
  | 0, _, _ => .error .turns
  | _ + 1, p, none => .ok (p, none)
  | turns + 1, p, some s => do
      let node ← heap.load s
      if passes node.value then walk heap passes turns (some s) node.next else .ok (p, some s)

/-- The link behind `p` is set to `next`; where there is no `p` it is the head of the list. -/
def relink (heap : Heap α) (head p next : Option Nat) : Except Fault (Option Nat × Heap α) :=
  match p with
  | none => .ok (next, heap)
  | some p => do
      let node ← heap.load p
      let heap ← heap.write p ⟨node.value, next⟩
      .ok (head, heap)

variable {heap : Heap α} {passes : α → Bool} {address : Nat} {node : Node α} {head start stop p : Option Nat}
  {front back entries : List (Nat × α)} {turns : Nat}

theorem load_eq (h : heap address = some node) : heap.load address = .ok node := by
  rw [load, h]

theorem write_eq (h : heap address = some node) (new : Node α) :
    heap.write address new = .ok (heap.store address new) := by
  rw [write, h]

theorem release_eq (h : heap address = some node) : heap.release address = .ok (heap.free address) := by
  rw [release, h]

/-- What `malloc` returns is not in use, or the program is not followed any further. -/
theorem allocate_cases (heap : Heap α) (address : Nat) (node : Node α) :
    (heap.allocate address node = .error .malloc ∧ heap address ≠ none) ∨
      (heap address = none ∧ heap.allocate address node = .ok (heap.store address node)) := by
  unfold allocate
  split
  · rename_i hTaken
    exact Or.inl ⟨rfl, by simp [hTaken]⟩
  · rename_i hFree
    exact Or.inr ⟨hFree, rfl⟩

/-- The walk ends at the first node that does not pass, behind the last that does. -/
theorem walk_eq (hEntries : heap.Linked none start entries) (hTurns : entries.length < turns) :
    heap.walk passes turns p start = .ok
      (((entries.takeWhile (passes ·.2)).getLast?.map Prod.fst).or p,
        (entries.dropWhile (passes ·.2)).head?.map Prod.fst) := by
  induction entries generalizing start p turns with
  | nil =>
      obtain ⟨turns, rfl⟩ := Nat.exists_eq_succ_of_ne_zero (Nat.ne_of_gt hTurns)
      obtain rfl : start = none := hEntries
      rfl
  | cons entry rest ih =>
      obtain ⟨turns, rfl⟩ := Nat.exists_eq_succ_of_ne_zero (Nat.ne_of_gt (Nat.zero_lt_of_lt hTurns))
      rw [List.length_cons, Nat.succ_lt_succ_iff] at hTurns
      obtain ⟨address, value⟩ := entry
      obtain ⟨rfl, next, hNode, hRest⟩ := hEntries
      rw [walk, load_eq hNode, ok_bind]
      cases hPasses : passes value with
      | false => simp [hPasses]
      | true =>
          simp only [if_true, List.takeWhile_cons, List.dropWhile_cons, hPasses]
          rw [ih hRest hTurns, List.getLast?_cons]
          cases (rest.takeWhile (passes ·.2)).getLast? <;> rfl

/-- Where a list begins. -/
theorem Linked.start_eq (h : heap.Linked none start entries) : start = entries.head?.map Prod.fst := by
  cases entries with
  | nil => exact h
  | cons entry rest => exact h.1

/-- What follows in a list is allocated. -/
theorem Linked.allocated (h : heap.Linked stop start entries) {entry : Nat × α} (hIn : entry ∈ entries) :
    ∃ next, heap entry.1 = some ⟨entry.2, next⟩ := by
  induction entries generalizing start with
  | nil => exact absurd hIn List.not_mem_nil
  | cons first rest ih =>
      obtain ⟨-, next, hNode, hRest⟩ := h
      rcases List.mem_cons.mp hIn with rfl | hLater
      · exact ⟨next, hNode⟩
      · exact ih hRest hLater

/-- A node that leads to the back of a list is linked in behind the front. -/
theorem relink_insert {n : Nat} {value : α} (hList : heap.Linked none head (front ++ back))
    (hApart : ((front ++ back).map Prod.fst).Nodup)
    (hNew : heap n = some ⟨value, back.head?.map Prod.fst⟩) (hFresh : n ∉ front.map Prod.fst) :
    ∃ head' heap', heap.relink head (front.getLast?.map Prod.fst) (some n) = .ok (head', heap') ∧
      Linked heap' none head' (front ++ (n, value) :: back) ∧
      ∀ q, q ∉ front.map Prod.fst → heap' q = heap q := by
  obtain ⟨middle, hFront, hBack⟩ := linked_append_iff.mp hList
  rw [← hBack.start_eq] at hNew
  rcases List.eq_nil_or_concat front with rfl | ⟨first, ⟨q, u⟩, rfl⟩
  · exact ⟨some n, heap, rfl, ⟨rfl, middle, hNew, hBack⟩, fun _ _ => rfl⟩
  · rw [List.concat_eq_append] at hFront hApart hFresh ⊢
    obtain ⟨-, -, rfl, link, hNode, -⟩ := linked_append_iff.mp hFront
    rw [List.map_append, List.nodup_append] at hApart
    obtain ⟨hNodup, -, hBoth⟩ := hApart
    have hQ : q ∉ first.map Prod.fst := by
      rw [List.map_append, List.nodup_append] at hNodup
      exact fun hIn => hNodup.2.2 q hIn q (by simp) rfl
    have hIn : q ∈ (first ++ [(q, u)]).map Prod.fst := by simp
    refine ⟨head, heap.store q ⟨u, some n⟩, ?_, ?_, fun r hr => ?_⟩
    · simp [relink, load_eq hNode, write_eq hNode]
    · refine linked_append_iff.mpr ⟨some n, hFront.relink (some n) hQ, rfl, middle, ?_, ?_⟩
      · rw [store_of_ne _ fun hSame : n = q => hFresh (hSame ▸ hIn)]
        exact hNew
      · refine hBack.frame fun entry hEntry => store_of_ne _ fun hSame => ?_
        exact hBoth q hIn entry.1 (List.mem_map_of_mem hEntry) hSame.symm
    · exact store_of_ne _ fun hSame => hr (hSame ▸ hIn)

end Heap

end Machine
