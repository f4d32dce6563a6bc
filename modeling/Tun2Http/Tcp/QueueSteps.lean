import Tun2Http.Http.PartialSend
import Tun2Http.Tcp.QueueHeap
import Tun2Http.Tcp.Retransmission

/-! What the steps of a session do to its queue is what `queue_tcp` and the turns of
the forward loop do to it; so a step of the session on the heap is a step of the session,
where `patch_http_url` does not look behind a block. -/
namespace Tun2Http

open Machine

section

variable {K : Kernel} {c : Cell}

theorem queueTcp_forward (hdr : TcpHdr) (data : Payload) (c : Cell) :
    (queueTcp hdr data c).tcp.forward =
      ForwardOp.apply c.tcp.forward (.queue hdr data c.tcp.remoteSeq) := by
  show (queueTcp hdr data c).tcp.forward = if compareU32 hdr.seq c.tcp.remoteSeq < 0 then c.tcp.forward
    else insertSegment hdr data c.tcp.forward
  unfold queueTcp
  split_ifs <;> rfl

theorem connectPhase_forward (K : Kernel) (data : Payload) (c : Cell) :
    (connectPhase K data c).tcp.forward = c.tcp.forward := by
  rcases connectPhase_cases (K := K) data c with ⟨-, hQuiet⟩ | ⟨d, hQuiet, -, -, hEq⟩ |
    ⟨d, count, hQuiet, -, -, -, hEq⟩
  · exact hQuiet.forward
  · rw [hEq, (writeRst_tcp d).1]
    exact hQuiet.forward
  · rw [hEq]
    exact hQuiet.forward

/-- A segment leaves the queue as it is, or `queue_tcp` looks at it. -/
theorem existingSession_forward (hdr : TcpHdr) (data : Payload) (c : Cell) :
    (existingSession K c.tcp.dest hdr data c).tcp.forward =
      match queuedIn K hdr data c with
      | some d => ForwardOp.apply c.tcp.forward (.queue hdr data d.tcp.remoteSeq)
      | none => c.tcp.forward := by
  unfold existingSession queuedIn
  by_cases hUrg : hdr.urg = true
  · simp only [if_pos hUrg]
  · simp only [if_neg hUrg]
    set e := if c.tcp.dest = 443 then connectPhase K data c else c with hE
    have hForward : e.tcp.forward = c.tcp.forward := by
      rw [hE]
      split_ifs
      · exact connectPhase_forward K data c
      · rfl
    unfold tunnelSegment handleSegment
    dsimp only
    rw [← hForward]
    by_cases hTunnel : c.tcp.dest = 443 ∧ e.tcp.connectSent ≠ .established
    · simp only [if_pos hTunnel]
      exact queueTcp_forward hdr data e
    · simp only [if_neg hTunnel]
      by_cases hOver : e.tcp.state = .closing ∨ e.tcp.state = .close
      · simp only [if_pos hOver]
        exact (writeRst_tcp e).1
      · simp only [if_neg hOver]
        set f := refresh K hdr e with hF
        have hSame : f.tcp.forward = e.tcp.forward := rfl
        by_cases hTakes : data.val ≠ [] ∧ ¬ f.socket < 0 ∧ f.tcp.state ≠ .closeWait
        · rw [if_pos hTakes, if_pos hTakes.1, if_neg hTakes.2.1, if_neg hTakes.2.2, ← hSame]
          exact (handleFlags_frame hdr _).1.trans (queueTcp_forward hdr data f)
        · rw [if_neg hTakes]
          dsimp only
          rw [← hSame]
          split_ifs with hData hSocket hWait
          · exact (writeRst_tcp f).1
          · exact (writeRst_tcp f).1
          · exact absurd ⟨hData, hSocket, hWait⟩ hTakes
          · exact (handleFlags_frame hdr f).1

/-- Who looks at the head and leaves it finds what is there. -/
theorem fits_test {queue : List Segment} {remoteSeq bufferSize : U32} {passes : Bool}
    (h : headPasses remoteSeq bufferSize queue = passes) :
    queue = run ForwardOp.apply queue [.test remoteSeq bufferSize passes] ∧
      Along ForwardOp.apply ForwardOp.Fits queue [.test remoteSeq bufferSize passes] :=
  ⟨rfl, h, trivial⟩

/-- The forward loop takes from the head, and pops it. -/
theorem forwardLoop_forward (queue : List Segment) (bufferSize : U32) (fwd : Bool)
    (hQueue : c.tcp.forward = queue) :
    (forwardLoop K queue bufferSize fwd c).1.tcp.forward =
      run ForwardOp.apply queue (sendOps K queue bufferSize c) ∧
      Along ForwardOp.apply ForwardOp.Fits queue (sendOps K queue bufferSize c) := by
  induction queue generalizing bufferSize fwd c with
  | nil =>
      rw [forwardLoop, sendOps, hQueue]
      exact fits_test rfl
  | cons seg rest ih =>
      rw [forwardLoop, sendOps]
      by_cases hForward : canForward c seg bufferSize
      · have hTest : ForwardOp.Fits (seg :: rest) (.test c.tcp.remoteSeq bufferSize true) :=
          decide_eq_true hForward
        have hFits : ForwardOp.Fits (seg :: rest)
            (.send c.tcp.dest (K.behind c.calls) (forwardRequest K c seg) (counted K seg c)) :=
          ⟨seg, rest, rfl, counted_le K seg c, rfl⟩
        have hApply : ForwardOp.apply (seg :: rest)
            (.send c.tcp.dest (K.behind c.calls) (forwardRequest K c seg) (counted K seg c)) =
            if counted K seg c = seg.unsent then rest
            else seg.advance (counted K seg c) (counted_le K seg c) :: rest := dif_pos (counted_le K seg c)
        rw [if_pos hForward, if_pos hForward, forwardTurn_eq, run_cons]
        change _ = run ForwardOp.apply (seg :: rest) _ ∧ _
        by_cases hAll : counted K seg c = seg.unsent
        · simp only [if_pos hAll] at hApply ⊢
          obtain ⟨hRest, hAlong⟩ := ih (c := (sentOn K seg c).setForward rest)
            (bufferSize - BitVec.ofNat 32 (counted K seg c)) true rfl
          rw [run_cons, hApply]
          refine ⟨hRest, hTest, hFits, ?_⟩
          change Along _ _ (ForwardOp.apply (seg :: rest) _) _
          rwa [hApply]
        · simp only [if_neg hAll] at hApply ⊢
          exact ⟨hApply.symm, hTest, hFits, trivial⟩
      · rw [if_neg hForward, if_neg hForward, hQueue]
        exact fits_test (decide_eq_false hForward)

/-- Who adds up the queue that is left leaves it as it is. -/
theorem forward_total {queue after : List Segment} {ops : List ForwardOp}
    (hRun : after = run ForwardOp.apply queue ops) (hFits : Along ForwardOp.apply ForwardOp.Fits queue ops) :
    after = run ForwardOp.apply queue (ops ++ [.total (toForward after)]) ∧
      Along ForwardOp.apply ForwardOp.Fits queue (ops ++ [.total (toForward after)]) := by
  rw [run_append, along_append, ← hRun]
  exact ⟨rfl, hFits, rfl, trivial⟩

theorem forwardData_forward (K : Kernel) (c : Cell) :
    (forwardData K c).1.tcp.forward = run ForwardOp.apply c.tcp.forward (forwardDataOps K c) ∧
      Along ForwardOp.apply ForwardOp.Fits c.tcp.forward (forwardDataOps K c) := by
  have hLoop := forwardLoop_forward (K := K) (c := (getReceiveBuffer K c).1) (getReceiveBuffer K c).1.tcp.forward
    (BitVec.ofInt 32 (getReceiveBuffer K c).2) false rfl
  have hSame : (getReceiveBuffer K c).1.tcp.forward = c.tcp.forward := by rw [getReceiveBuffer_tcp]
  obtain ⟨hRun, hFits⟩ := hLoop
  rw [← hSame]
  exact forward_total hRun hFits

/-- What a pass looks at. -/
theorem monitorOps_forward (K : Kernel) (c : Cell) :
    run ForwardOp.apply c.tcp.forward (monitorOps K c) = c.tcp.forward ∧
      Along ForwardOp.apply ForwardOp.Fits c.tcp.forward (monitorOps K c) := by
  unfold monitorOps
  dsimp only
  split_ifs with hState hWindow
  · exact ⟨rfl, rfl, trivial⟩
  · rw [(frame_keepAliveProbe K c).forward]
    exact ⟨rfl, rfl, trivial⟩
  · exact ⟨rfl, trivial⟩

theorem monitorTcpSession_forward (K : Kernel) (c : Cell) :
    (monitorTcpSession K c).1.tcp.forward = c.tcp.forward := by
  have hWanted := (frame_wantedEvents K c).forward
  unfold monitorTcpSession
  dsimp only
  split_ifs <;> exact hWanted

theorem step_monitor_forward (K : Kernel) (c : Cell) : (step c (K, .monitor)).tcp.forward = c.tcp.forward := by
  simp only [step]
  split_ifs
  · exact monitorTcpSession_forward K c
  · rfl

/-- A step does to the queue what its operations do, one after the other. -/
theorem step_forward (c : Cell) (input : Kernel × Input) :
    (step c input).tcp.forward = run ForwardOp.apply c.tcp.forward (forwardOps c input) ∧
      Along ForwardOp.apply ForwardOp.Fits c.tcp.forward (forwardOps c input) := by
  obtain ⟨K, i⟩ := input
  cases i with
  | segment hdr data =>
      have hStep := existingSession_forward (K := K) hdr data c
      unfold forwardOps
      dsimp only
      cases hQueued : queuedIn K hdr data c with
      | none =>
          rw [hQueued] at hStep
          exact ⟨hStep, trivial⟩
      | some d =>
          rw [hQueued] at hStep
          exact ⟨hStep, trivial, trivial⟩
  | event ev =>
      unfold forwardOps
      dsimp only
      by_cases hLoop : 0 ≤ c.socket ∧ ¬ev.epollerr ∧ c.tcp.state ≠ .listen
      · obtain ⟨hSocket, hError, hState⟩ := hLoop
        have hReady : step c (K, .event ev) = socketReady K ev c := by
          simp only [step, checkTcpSocket]
          rw [if_pos hSocket, if_neg hError, if_neg hState]
        rw [if_pos ⟨hSocket, hError, hState⟩]
        by_cases hWritable : ev.epollout = true
        · rw [if_pos hWritable, hReady, (repeats_socketReady K ev c).forward, forward_readyTaken hWritable]
          exact forward_total (forwardData_forward K c).1 (forwardData_forward K c).2
        · rw [if_neg hWritable, forward_of_no_turn (if_neg fun hTurn => hWritable hTurn.2.2.2)]
          exact ⟨rfl, rfl, trivial⟩
      · rw [if_neg hLoop]
        exact ⟨forward_of_no_turn (if_neg fun hTurn => hLoop ⟨hTurn.1, hTurn.2.1, hTurn.2.2.1⟩), trivial⟩
  | monitor =>
      rw [step_monitor_forward]
      unfold forwardOps
      dsimp only
      split_ifs
      · exact ⟨(monitorOps_forward K c).1.symm, (monitorOps_forward K c).2⟩
      · exact ⟨rfl, trivial⟩
  | check sessions maxsessions =>
      exact ⟨(frame_checkTcpSession K 0 sessions maxsessions c).forward, trivial⟩
  | allowed =>
      exact ⟨checkAllowed_keeps (P := fun d => d.tcp.forward = c.tcp.forward) rfl (writeRst_tcp c).1, trivial⟩

end

/-! The same on the heap. -/

theorem length_insertSegment (hdr : TcpHdr) (data : Payload) (queue : List Segment) :
    (insertSegment hdr data queue).length ≤ queue.length + 1 := by
  induction queue with
  | nil => exact le_rfl
  | cons s rest ih =>
      unfold insertSegment
      split_ifs <;> simp only [List.length_cons] <;> omega

/-- The operation is not `queue_tcp`. -/
def ForwardOp.Takes : ForwardOp → Prop
  | .queue _ _ _ => False
  | _ => True

/-- An operation makes the queue longer by a segment at most, and only `queue_tcp` does. -/
theorem ForwardOp.length_apply (queue : List Segment) (op : ForwardOp) :
    (ForwardOp.apply queue op).length ≤ queue.length + 1 ∧
      (op.Takes → (ForwardOp.apply queue op).length ≤ queue.length) := by
  cases op with
  | queue hdr data remoteSeq =>
      refine ⟨?_, False.elim⟩
      show (if compareU32 hdr.seq remoteSeq < 0 then queue else insertSegment hdr data queue).length ≤ _
      split_ifs
      · exact Nat.le_succ _
      · exact length_insertSegment hdr data queue
  | send port behind request count =>
      have hLess : (ForwardOp.apply queue (.send port behind request count)).length ≤ queue.length := by
        cases queue with
        | nil => exact le_rfl
        | cons seg rest =>
            unfold ForwardOp.apply
            dsimp only
            split_ifs <;> simp
      exact ⟨hLess.trans (Nat.le_succ _), fun _ => hLess⟩
  | test remoteSeq bufferSize passes => exact ⟨Nat.le_succ _, fun _ => le_rfl⟩
  | total sum => exact ⟨Nat.le_succ _, fun _ => le_rfl⟩

/-- What can stop an operation: `malloc`, or a scan that leaves its block. -/
def ForwardOp.Stops (heap : Heap Chunk) (n d : Nat) (queue : List Segment) (op : ForwardOp) (fault : Fault) : Prop :=
  match op with
  | .queue _ _ _ => OutOfBlocks heap n d fault
  | _ => fault = .access ∧ ¬ ForwardOp.Inside queue op

/-- What takes from the queue allocates nothing. -/
theorem ForwardOp.Stops.access {heap : Heap Chunk} {n d : Nat} {queue : List Segment} {op : ForwardOp}
    {fault : Fault} (h : op.Stops heap n d queue fault) (hTakes : op.Takes) :
    fault = .access ∧ ¬ op.Inside queue := by
  cases op with
  | queue hdr data remoteSeq => exact hTakes.elim
  | test remoteSeq bufferSize passes => exact h
  | send port behind request count => exact h
  | total sum => exact h

section

variable {heap : Heap Chunk} {forward : Option Nat} {places : List Located} {turns : Nat}

/-- An operation does on the heap what it does to the list, and finds what it finds there. -/
theorem yields_onHeap (h : Placed forward heap places) (hTurns : places.length < turns) {op : ForwardOp}
    (hFits : ForwardOp.Fits (places.map Located.seg) op) (n d : Nat) :
    Yields heap places (ForwardOp.apply (places.map Located.seg) op)
      (ForwardOp.Stops heap n d (places.map Located.seg) op) (ForwardOp.onHeap turns n d (forward, heap) op) := by
  cases op with
  | queue hdr data remoteSeq => exact yields_queueTcp h hTurns hdr data remoteSeq n d
  | test remoteSeq bufferSize passes =>
      have hSame : headPasses remoteSeq bufferSize (places.map Located.seg) = passes := hFits
      unfold ForwardOp.onHeap
      dsimp only
      rw [testHeap_eq h, ok_bind, hSame, expect_self, ok_bind]
      exact h.yields _
  | send port behind request count =>
      obtain ⟨seg, rest, hQueue, hCount, rfl⟩ := hFits
      cases places with
      | nil => cases hQueue
      | cons p later =>
          obtain ⟨rfl, rfl⟩ := List.cons.inj hQueue
          have hApply : ForwardOp.apply ((p :: later).map Located.seg)
              (.send port behind (segmentRequest port behind p.seg) count) =
              if count = p.seg.unsent then later.map Located.seg
              else p.seg.advance count hCount :: later.map Located.seg := dif_pos hCount
          rw [hApply]
          rcases yields_sendHeap h port behind hCount with ⟨fault, hFault, rfl, hPort, hOutside⟩ | hDone
          · exact Or.inl ⟨_, hFault, rfl, fun hInside => hOutside (hInside p.seg _ rfl hPort)⟩
          · exact Or.inr hDone
  | total sum =>
      have hSame : toForward (places.map Located.seg) = sum := hFits
      unfold ForwardOp.onHeap
      dsimp only
      rw [toForwardHeap_eq h hTurns, ok_bind, hSame, expect_self, ok_bind]
      exact h.yields _

/-- Some operations that only take from the queue, one after the other. -/
theorem yields_ops {ops : List ForwardOp} (h : Placed forward heap places) (hTurns : places.length < turns)
    (hTakes : ∀ op ∈ ops, op.Takes)
    (hFits : Along ForwardOp.apply ForwardOp.Fits (places.map Located.seg) ops) (n d : Nat) :
    Yields heap places (run ForwardOp.apply (places.map Located.seg) ops)
      (fun fault => fault = .access ∧ ¬ Along ForwardOp.apply ForwardOp.Inside (places.map Located.seg) ops)
      (ops.foldlM (ForwardOp.onHeap turns n d) (forward, heap)) := by
  induction ops generalizing forward heap places with
  | nil => exact h.yields _
  | cons op rest ih =>
      have hOp := hTakes op (List.mem_cons_self ..)
      rw [List.foldlM_cons, run_cons]
      rcases yields_onHeap h hTurns hFits.1 n d with
        ⟨fault, hFault, hStops⟩ | ⟨next, middle, moved, hOk, hPlaced, hChanges, hSeg⟩
      · rw [hFault]
        obtain ⟨hAccess, hOutside⟩ := hStops.access hOp
        exact Or.inl ⟨fault, rfl, hAccess, fun hAlong => hOutside hAlong.1⟩
      · have hShorter : moved.length < turns := by
          have hLess := (ForwardOp.length_apply (places.map Located.seg) op).2 hOp
          rw [← hSeg, List.length_map, List.length_map] at hLess
          exact hLess.trans_lt hTurns
        have hLater := hFits.2
        rw [← hSeg] at hLater
        rw [hOk, ok_bind, ← hSeg]
        rcases ih hPlaced hShorter (fun op hop => hTakes op (List.mem_cons_of_mem _ hop)) hLater with
          ⟨fault, hFault, hAccess, hOutside⟩ | ⟨last, after, left, hEnd, hEndPlaced, hRest, hEndSeg⟩
        · exact Or.inl ⟨fault, hFault, hAccess, fun hAlong => hOutside (hSeg ▸ hAlong.2)⟩
        · exact Or.inr ⟨last, after, left, hEnd, hEndPlaced, hChanges.trans hRest, hEndSeg⟩

theorem takes_sendOps (K : Kernel) (queue : List Segment) (bufferSize : U32) (c : Cell) :
    ∀ op ∈ sendOps K queue bufferSize c, op.Takes := by
  induction queue generalizing bufferSize c with
  | nil => exact List.forall_mem_singleton.mpr trivial
  | cons seg rest ih =>
      rw [sendOps]
      split_ifs
      · refine List.forall_mem_cons.mpr ⟨trivial, List.forall_mem_cons.mpr ⟨trivial, ?_⟩⟩
        split
        · exact fun op hop => absurd hop List.not_mem_nil
        · exact ih _ _
      · exact List.forall_mem_singleton.mpr trivial

theorem takes_total {ops : List ForwardOp} (hOps : ∀ op ∈ ops, op.Takes) (sum : U32) :
    ∀ op ∈ ops ++ [.total sum], op.Takes :=
  List.forall_mem_append.mpr ⟨hOps, List.forall_mem_singleton.mpr trivial⟩

theorem takes_monitorOps (K : Kernel) (c : Cell) : ∀ op ∈ monitorOps K c, op.Takes := by
  unfold monitorOps
  dsimp only
  split_ifs
  · exact List.forall_mem_singleton.mpr trivial
  · exact List.forall_mem_singleton.mpr trivial
  · exact fun op hop => absurd hop List.not_mem_nil

/-- A step queues one packet, or takes from the queue and looks at it. -/
theorem forwardOps_cases (c : Cell) (input : Kernel × Input) :
    (∃ hdr data remoteSeq, forwardOps c input = [.queue hdr data remoteSeq]) ∨
      ∀ op ∈ forwardOps c input, op.Takes := by
  have hNone : ∀ op ∈ ([] : List ForwardOp), op.Takes := fun op hop => absurd hop List.not_mem_nil
  obtain ⟨K, i⟩ := input
  cases i with
  | segment hdr data =>
      unfold forwardOps
      dsimp only
      split
      · exact Or.inl ⟨_, _, _, rfl⟩
      · exact Or.inr hNone
  | event ev =>
      unfold forwardOps
      dsimp only
      split_ifs
      · exact Or.inr (takes_total (takes_total (takes_sendOps _ _ _ _) _) _)
      · exact Or.inr (takes_total hNone _)
      · exact Or.inr hNone
  | monitor =>
      refine Or.inr ?_
      unfold forwardOps
      dsimp only
      split_ifs
      · exact takes_monitorOps K c
      · exact hNone
  | check sessions maxsessions => exact Or.inr hNone
  | allowed => exact Or.inr hNone

/-- A step of a session on the heap is a step of the session. -/
theorem yields_stepHeap {c : Cell} (h : Placed forward heap places) (hSeg : places.map Located.seg = c.tcp.forward)
    (hTurns : c.tcp.forward.length < turns) (n d : Nat) (input : Kernel × Input) :
    Yields heap places (step c input).tcp.forward
      (fun fault => OutOfBlocks heap n d fault ∨ fault = .access ∧ Overreads c input)
      (stepHeap turns n d c input (forward, heap)) := by
  obtain ⟨hStep, hFits⟩ := step_forward c input
  rw [hStep, stepHeap, Overreads]
  rw [← hSeg] at hFits hTurns ⊢
  rw [List.length_map] at hTurns
  rcases forwardOps_cases c input with ⟨hdr, data, remoteSeq, hOps⟩ | hTakes
  · rw [hOps, List.foldlM_cons, run_cons]
    rcases yields_queueTcp h hTurns hdr data remoteSeq n d with
      ⟨fault, hFault, hRefused⟩ | ⟨last, after, later, hOk, hRest⟩
    · rw [show ForwardOp.onHeap turns n d (forward, heap) (.queue hdr data remoteSeq) = _ from hFault]
      exact Or.inl ⟨fault, rfl, Or.inl hRefused⟩
    · rw [show ForwardOp.onHeap turns n d (forward, heap) (.queue hdr data remoteSeq) = _ from hOk]
      exact Or.inr ⟨last, after, later, rfl, hRest⟩
  · rcases yields_ops h hTurns hTakes hFits n d with ⟨fault, hFault, hOutside⟩ | hDone
    · exact Or.inl ⟨fault, hFault, Or.inr hOutside⟩
    · exact Or.inr hDone

/-- A pass only looks at the queue, and does not scan it. -/
theorem stepHeap_monitor {c : Cell} (h : Placed forward heap places)
    (hSeg : places.map Located.seg = c.tcp.forward) (n d : Nat) (K : Kernel) :
    stepHeap turns n d c (K, .monitor) (forward, heap) = .ok (forward, heap) := by
  have hTest : ∀ remoteSeq bufferSize, [ForwardOp.test remoteSeq bufferSize
      (headPasses remoteSeq bufferSize c.tcp.forward)].foldlM (ForwardOp.onHeap turns n d) (forward, heap) =
        .ok (forward, heap) := by
    intro remoteSeq bufferSize
    rw [List.foldlM_cons, ForwardOp.onHeap, testHeap_eq h, ok_bind, hSeg, expect_self, ok_bind]
    rfl
  unfold stepHeap forwardOps monitorOps
  dsimp only
  split_ifs
  · exact hTest _ _
  · rw [(frame_keepAliveProbe K c).forward]
    exact hTest _ _
  · rfl
  · rfl

/-- `queue_tcp` scans nothing. -/
theorem not_overreads_segment (c : Cell) (K : Kernel) (hdr : TcpHdr) (data : Payload) :
    ¬ Overreads c (K, .segment hdr data) := by
  unfold Overreads forwardOps
  dsimp only
  split
  · exact not_not.mpr ⟨trivial, trivial⟩
  · exact not_not.mpr trivial

/-- A step makes the queue longer by a segment at most. -/
theorem length_forward_step (c : Cell) (input : Kernel × Input) :
    (step c input).tcp.forward.length ≤ c.tcp.forward.length + 1 := by
  rw [(step_forward c input).1]
  rcases forwardOps_cases c input with ⟨hdr, data, remoteSeq, hOps⟩ | hTakes
  · rw [hOps]
    exact (ForwardOp.length_apply c.tcp.forward (.queue hdr data remoteSeq)).1
  · have hAlong : Along ForwardOp.apply (fun _ op => op.Takes) c.tcp.forward (forwardOps c input) :=
      along_of_forall _ hTakes
    have hRun : (run ForwardOp.apply c.tcp.forward (forwardOps c input)).length ≤ c.tcp.forward.length :=
      run_invariant (I := fun queue : List Segment => queue.length ≤ c.tcp.forward.length) le_rfl
        hAlong fun queue op hLe hOp => ((ForwardOp.length_apply queue op).2 hOp).trans hLe
    exact hRun.trans (Nat.le_succ _)

end

end Tun2Http
