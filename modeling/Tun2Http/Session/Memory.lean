import Tun2Http.Machine.Parts
import Tun2Http.Native.SessionHeap
import Tun2Http.Session.Loop
import Tun2Http.Tcp.QueueSteps

/-! The heap over whole runs of the loop. Whatever `malloc` returns, no step touches a
block that is not allocated or that belongs to another session, and what is allocated
is at any time what the queues of the sessions have, and what failed set-ups have lost. -/
namespace Tun2Http

open Machine

/-- Who has blocks: the sessions, by their pointers, and nobody for what is lost. -/
def holders (places : Nat → List Located) (lost : List Nat) : Option Nat → List Nat
  | some pointer => Located.footprint (places pointer)
  | none => lost

/-- Each of the `queues` has its segments at `places`, and with what is lost this is all
that is allocated. -/
structure Laid (W : Blocks) (queues : Nat → Option (List Segment)) (places : Nat → List Located)
    (lost : List Nat) : Prop where
  placed : ∀ p queue, queues p = some queue →
    Placed (W.forward p) W.heap (places p) ∧ (places p).map Located.seg = queue
  others : ∀ p, queues p = none → places p = []
  owned : Owned W.heap (holders places lost)

section

variable {W : Blocks} {queues : Nat → Option (List Segment)} {places : Nat → List Located}
  {lost : List Nat} {p turns : Nat}

theorem update_holders (places : Nat → List Located) (lost : List Nat) (p : Nat) (later : List Located) :
    Function.update (holders places lost) (some p) (Located.footprint later) =
      holders (Function.update places p later) lost := by
  funext k
  cases k with
  | none => rfl
  | some q =>
      by_cases hSame : q = p
      · subst hSame
        rw [Function.update_self, holders, Function.update_self]
      · rw [Function.update_of_ne fun h => hSame (Option.some.inj h), holders, holders,
          Function.update_of_ne hSame]

theorem laid_init : Laid .init (fun _ => none) (fun _ => []) [] := by
  refine ⟨nofun, fun _ _ => rfl, fun k l _ a hIn => ?_, fun a => ?_⟩
  · cases k <;> exact absurd hIn List.not_mem_nil
  · refine ⟨fun hSome => absurd rfl hSome, ?_⟩
    rintro ⟨k, hIn⟩
    cases k <;> exact absurd hIn List.not_mem_nil

/-- What is done for one session leaves the queues of the others where they are. -/
theorem Laid.other {after : Heap Chunk} (h : Laid W queues places lost) {k : Option Nat} {blocks : List Nat}
    (hChanges : Changes W.heap after (holders places lost k) blocks) {q : Nat} (hOther : some q ≠ k)
    {queue : List Segment} (hQueue : queues q = some queue) :
    Placed (W.forward q) after (places q) ∧ (places q).map Located.seg = queue := by
  obtain ⟨hPlaced, hSeg⟩ := h.placed q queue hQueue
  exact ⟨hPlaced.frame fun _ ha => h.owned.frame hChanges hOther ha, hSeg⟩

/-- The queue of a session is changed, or begins. -/
theorem Laid.change {after : Heap Chunk} {forward : Option Nat} {later : List Located} {queue : List Segment}
    (h : Laid W queues places lost) (hPlaced : Placed forward after later) (hSeg : later.map Located.seg = queue)
    (hChanges : Changes W.heap after (Located.footprint (places p)) (Located.footprint later)) :
    Laid ⟨after, Function.update W.forward p forward⟩ (Function.update queues p (some queue))
      (Function.update places p later) lost := by
  have hHolder : Changes W.heap after (holders places lost (some p)) (Located.footprint later) := hChanges
  refine ⟨fun q other hq => ?_, fun q hq => ?_, ?_⟩
  · by_cases hSame : q = p
    · subst hSame
      rw [Function.update_self, Option.some.injEq] at hq
      subst hq
      simpa using ⟨hPlaced, hSeg⟩
    · simp only [Function.update_of_ne hSame] at hq ⊢
      exact h.other hHolder (fun hEq => hSame (Option.some.inj hEq)) hq
  · have hOther : q ≠ p := by
      rintro rfl
      rw [Function.update_self] at hq
      cases hq
    rw [Function.update_of_ne hOther] at hq ⊢
    exact h.others q hq
  · rw [← update_holders]
    exact h.owned.change hHolder hPlaced.allocated

/-- A session is freed, with what its queue has. -/
theorem Laid.clear {queue : List Segment} (h : Laid W queues places lost) (hQueue : queues p = some queue)
    (hTurns : queue.length < turns) :
    ∃ V, W.clear turns p = .ok V ∧
      Laid V (Function.update queues p none) (Function.update places p []) lost := by
  obtain ⟨hPlaced, hSeg⟩ := h.placed p queue hQueue
  have hLength : (places p).length < turns := by rwa [← hSeg, List.length_map] at hTurns
  obtain ⟨after, hClear, hChanges⟩ := clearTcpData_eq hPlaced hLength
  have hHolder : Changes W.heap after (holders places lost (some p)) (Located.footprint []) := hChanges
  refine ⟨{ W with heap := after }, ?_, fun q other hq => ?_, fun q hq => ?_, ?_⟩
  · rw [Blocks.clear, hClear]
    rfl
  · have hOther : q ≠ p := by
      rintro rfl
      rw [Function.update_self] at hq
      cases hq
    rw [Function.update_of_ne hOther] at hq ⊢
    exact h.other hHolder (fun hEq => hOther (Option.some.inj hEq)) hq
  · by_cases hSame : q = p
    · subst hSame
      exact Function.update_self ..
    · rw [Function.update_of_ne hSame] at hq ⊢
      exact h.others q hq
  · rw [← update_holders]
    exact h.owned.change hHolder nofun

/-- Some sessions are freed, one after the other. -/
theorem Laid.clearAll {pointers : List Nat} (h : Laid W queues places lost) (hApart : pointers.Nodup)
    (hQueues : ∀ p ∈ pointers, ∃ queue, queues p = some queue ∧ queue.length < turns) :
    ∃ V later, pointers.foldlM (Blocks.clear turns) W = .ok V ∧
      Laid V (fun p => if p ∈ pointers then none else queues p) later lost := by
  induction pointers generalizing W queues places with
  | nil => exact ⟨W, places, rfl, by simpa using h⟩
  | cons p rest ih =>
      obtain ⟨hFresh, hRest⟩ := List.nodup_cons.mp hApart
      obtain ⟨queue, hQueue, hTurns⟩ := hQueues p (List.mem_cons_self ..)
      obtain ⟨V, hClear, hLaid⟩ := h.clear hQueue hTurns
      have hOthers : ∀ q ∈ rest, ∃ queue, Function.update queues p none q = some queue ∧
          queue.length < turns := by
        intro q hq
        have hOther : q ≠ p := fun hSame => hFresh (hSame ▸ hq)
        rw [Function.update_of_ne hOther]
        exact hQueues q (List.mem_cons_of_mem p hq)
      obtain ⟨U, later, hEnd, hLater⟩ := ih hLaid hRest hOthers
      refine ⟨U, later, ?_, ?_⟩
      · rw [List.foldlM_cons, hClear, ok_bind]
        exact hEnd
      · convert hLater using 1
        funext q
        by_cases hSame : q = p
        · subst hSame
          simp
        · simp [hSame]

/-- Blocks that nobody will free are lost. -/
theorem Laid.lose {after : Heap Chunk} {blocks : List Nat} (h : Laid W queues places lost)
    (hChanges : Changes W.heap after [] blocks) (hTaken : ∀ a ∈ blocks, after a ≠ none) :
    Laid { W with heap := after } queues places (lost ++ blocks) := by
  have hHolder : Changes W.heap after (holders places lost none) (lost ++ blocks) := by
    have hAppend := hChanges.append_left lost
    rwa [List.append_nil] at hAppend
  have hHolders : Function.update (holders places lost) none (lost ++ blocks) =
      holders places (lost ++ blocks) := by
    funext k
    cases k <;> rfl
  refine ⟨fun q queue hQueue => h.other hHolder (Option.some_ne_none q) hQueue, h.others, ?_⟩
  rw [← hHolders]
  refine h.owned.change hHolder fun a ha => ?_
  by_cases hIn : a ∈ blocks
  · exact hTaken a hIn
  · have hSame : after a = W.heap a := hChanges.frame a List.not_mem_nil hIn
    show after a ≠ none
    rw [hSame]
    exact (h.owned.held a).mpr ⟨none, (List.mem_append.mp ha).resolve_right hIn⟩

/-- A step of a TCP session. -/
theorem Laid.treat {c : Cell} (h : Laid W queues places lost) (hQueue : queues p = some c.tcp.forward)
    (hTurns : c.tcp.forward.length < turns) (n d : Nat) (input : Kernel × Input) :
    (∃ fault, W.treat turns n d p c input = .error fault ∧
      (OutOfBlocks W.heap n d fault ∨ fault = .access ∧ Overreads c input)) ∨
      ∃ V later, W.treat turns n d p c input = .ok V ∧
      Laid V (Function.update queues p (some (step c input).tcp.forward)) later lost := by
  obtain ⟨hPlaced, hSeg⟩ := h.placed p _ hQueue
  unfold Blocks.treat
  rcases yields_stepHeap hPlaced hSeg hTurns n d input with
    ⟨fault, hFault, hStops⟩ | ⟨forward, after, later, hOk, hLater, hChanges, hAfter⟩
  · rw [hFault]
    exact Or.inl ⟨fault, rfl, hStops⟩
  · rw [hOk]
    exact Or.inr ⟨_, _, rfl, h.change hLater hAfter hChanges⟩

/-- A SYN: the queue of the new session has the data of it, or its blocks are lost. -/
theorem Laid.openTcp (h : Laid W queues places lost) (hFresh : queues p = none) (hTurns : 1 < turns) (n d : Nat)
    (K : Kernel) (info : SynInfo) (hdr : TcpHdr) (data : Payload) :
    (∃ fault, W.openTcp turns n d p K info hdr data = .error fault ∧ OutOfBlocks W.heap n d fault) ∨ ∃ V later,
      W.openTcp turns n d p K info hdr data = .ok V ∧ match newSession K info hdr data with
        | some c => Laid V (Function.update queues p (some c.tcp.forward)) later lost
        | none => Laid V queues later (lost ++ if data.val ≠ [] then [n, d] else []) := by
  unfold Blocks.openTcp
  cases hNew : newSession K info hdr data with
  | some c =>
      obtain ⟨-, -, window, hTcp⟩ := newSession_eq hNew
      have hQueue : c.tcp.forward = if data.val ≠ [] then [Segment.ofPayload hdr.seq hdr.psh data] else [] := by
        rw [hTcp]
        rfl
      have hShort : c.tcp.forward.length ≤ 1 := by
        rw [hQueue]
        split_ifs
        · exact le_rfl
        · exact Nat.zero_le 1
      have hYields := yields_synHeap hdr data n d W.heap
      rw [← hQueue] at hYields
      rcases hYields with ⟨fault, hFault, hRefused⟩ | ⟨forward, after, later, hOk, hPlaced, hChanges, hSeg⟩
      · rw [hFault]
        exact Or.inl ⟨fault, rfl, hRefused⟩
      · have hTotal : ForwardOp.onHeap turns n d (forward, after) (.total (toForward c.tcp.forward)) =
            .ok (forward, after) := by
          have hLater : later.length < turns := by
            rw [← hSeg, List.length_map] at hShort
            omega
          unfold ForwardOp.onHeap
          dsimp only
          rw [toForwardHeap_eq hPlaced hLater, ok_bind, hSeg, expect_self, ok_bind]
        rw [hOk, ok_bind]
        dsimp only
        rw [hTotal]
        refine Or.inr ⟨_, _, rfl, h.change hPlaced hSeg ?_⟩
        rw [h.others p hFresh]
        exact hChanges
  | none =>
      dsimp only [synHeap]
      split_ifs with hData
      · rcases newSegment_cases hdr data n d none W.heap with
          ⟨hFault, hRefused⟩ | ⟨taken, hTaken, hN, hD, hOther, hNode, hBlock, hFrame⟩
        · rw [hFault]
          exact Or.inl ⟨_, rfl, rfl, hRefused⟩
        · rw [hTaken]
          have hChanges : Changes W.heap taken [] [n, d] := by
            refine ⟨fun a _ ha => ?_, fun a ha _ => ?_, nofun⟩
            · simp only [List.mem_cons, List.not_mem_nil, or_false, not_or] at ha
              exact hFrame a ha.1 ha.2
            · simp only [List.mem_cons, List.not_mem_nil, or_false] at ha
              rcases ha with rfl | rfl
              · exact hN
              · exact hD
          have hHeld : ∀ a ∈ [n, d], taken a ≠ none := by
            intro a ha
            simp only [List.mem_cons, List.not_mem_nil, or_false] at ha
            rcases ha with rfl | rfl
            · simp [hNode]
            · simp [hBlock]
          exact Or.inr ⟨_, places, rfl, h.lose hChanges hHeld⟩
      · refine Or.inr ⟨W, places, rfl, ?_⟩
        rw [List.append_nil]
        exact h

end

end Tun2Http
