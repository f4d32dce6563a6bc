import Tun2Http.Tcp.Lifecycle

/-! The head of the forward queue. As long as the numbers of the segments lie in
one half of the circle and near to the first number of the session, the queue is
in strictly ascending order, only its head is begun, and the rest of a head that
is begun starts at `remote_seq`. -/
namespace Tun2Http

open Machine Machine.SerialNumber

/-- The number lies within `2 ^ 30` of `base`, with no turn of the circle and no
change of sign in between. -/
structure Near (base x : U32) : Prop where
  half : x.toNat < 2 ^ 31 ↔ base.toNat < 2 ^ 31
  upper : x.toNat ≤ base.toNat + 2 ^ 30
  lower : base.toNat ≤ x.toNat + 2 ^ 30

instance (base x : U32) : Decidable (Near base x) :=
  decidable_of_iff ((x.toNat < 2 ^ 31 ↔ base.toNat < 2 ^ 31) ∧
      x.toNat ≤ base.toNat + 2 ^ 30 ∧ base.toNat ≤ x.toNat + 2 ^ 30)
    ⟨fun h => ⟨h.1, h.2.1, h.2.2⟩, fun h => ⟨h.half, h.upper, h.lower⟩⟩

/-- The queue ascends, and what was begun is the head alone and goes on at `remote_seq`. -/
structure HeadBegun (remoteSeq : U32) (queue : List Segment) : Prop where
  ascending : queue.Pairwise fun s t => s.seq.toNat < t.seq.toNat
  fresh : ∀ seg ∈ queue.tail, seg.sent = 0
  begun : ∀ seg ∈ queue.head?, 0 < seg.sent → remoteSeq = seg.seq + BitVec.ofNat 32 seg.sent

/-- The number behind the last byte of a segment. -/
def Segment.stop (s : Segment) : U32 := s.seq + BitVec.ofNat 32 s.len

/-- All of a segment lies near to the base, and some of it is still to be sent. -/
structure Segment.Placed (base : U32) (s : Segment) : Prop where
  seq : Near base s.seq
  stop : Near base s.stop
  left : s.sent < s.len

/-- The queue with what its order follows from. -/
structure Lined (base remoteSeq : U32) (queue : List Segment) : Prop extends
    HeadBegun remoteSeq queue where
  placed : ∀ seg ∈ queue, seg.Placed base

/-! ### Numbers near to each other -/

section Numbers

variable {base x y : U32}

/-- Less than `2 ^ 16` bytes further on the number is larger. -/
theorem Near.toNat_add (hX : Near base x) {n : Nat} (hShort : n < 2 ^ 16)
    (hStop : Near base (x + BitVec.ofNat 32 n)) :
    (x + BitVec.ofNat 32 n).toNat = x.toNat + n ∧
      (x.toNat < 2 ^ 31 ↔ x.toNat + n < 2 ^ 31) := by
  have hBound := x.isLt
  have hSum : (x + BitVec.ofNat 32 n).toNat = (x.toNat + n) % 2 ^ 32 := by
    rw [BitVec.toNat_add, BitVec.toNat_ofNat]
    omega
  have hHalf := hX.half.trans hStop.half.symm
  rw [hSum] at hHalf ⊢
  omega

/-- Numbers that are near compare as they are, unless the second one is the last one of its half. -/
theorem compareU32_neg_iff_lt (hX : Near base x) (hY : Near base y)
    (hInner : y.toNat % 2 ^ 31 ≠ 2 ^ 31 - 1) : compareU32 x y < 0 ↔ x.toNat < y.toNat := by
  have hXBound := x.isLt
  have hYBound := y.isLt
  have hHalf := hX.half.trans hY.half.symm
  have hAhead : (y - x).toNat = (2 ^ 32 - x.toNat + y.toNat) % 2 ^ 32 := BitVec.toNat_sub y x
  rw [compareU32_neg_iff, ahead, hAhead, BitVec.toInt_eq_toNat_cond, BitVec.toInt_eq_toNat_cond]
  split_ifs <;> omega

theorem compareU32_pos_iff_lt (hX : Near base x) (hY : Near base y)
    (hInner : y.toNat % 2 ^ 31 ≠ 2 ^ 31 - 1) : compareU32 x y > 0 ↔ y.toNat < x.toNat := by
  have hNeg := compareU32_neg_iff_lt hX hY hInner
  have hZero : compareU32 x y = 0 ↔ x.toNat = y.toNat :=
    compareU32_eq_zero_iff.trans BitVec.toNat_inj.symm
  omega

end Numbers

variable {K : Kernel} {i : Input} {s c d : Cell} {base remoteSeq : U32} {queue : List Segment}

theorem Segment.Placed.toNat_stop {seg : Segment} (h : seg.Placed base) :
    seg.stop.toNat = seg.seq.toNat + seg.len ∧
      (seg.seq.toNat < 2 ^ 31 ↔ seg.seq.toNat + seg.len < 2 ^ 31) := by
  have hLength := seg.len_le
  have hShort := seg.data_lt
  exact h.seq.toNat_add (by omega) h.stop

/-! ### `queue_tcp` -/

theorem Lined.cons_iff {seg : Segment} : Lined base remoteSeq (seg :: queue) ↔
    (seg.Placed base ∧ (∀ t ∈ queue, seg.seq.toNat < t.seq.toNat) ∧ (∀ t ∈ queue, t.sent = 0) ∧
      (0 < seg.sent → remoteSeq = seg.seq + BitVec.ofNat 32 seg.sent)) ∧
      Lined base remoteSeq queue := by
  constructor
  · rintro ⟨⟨hAscending, hFresh, hBegun⟩, hPlaced⟩
    rw [List.pairwise_cons] at hAscending
    rw [List.forall_mem_cons] at hPlaced
    refine ⟨⟨hPlaced.1, hAscending.1, hFresh, hBegun seg rfl⟩, ⟨hAscending.2, ?_, ?_⟩, hPlaced.2⟩
    · exact fun t ht => hFresh t (List.mem_of_mem_tail ht)
    · intro t ht hSent
      have hNone := hFresh t (List.mem_of_mem_head? ht)
      omega
  · rintro ⟨⟨hPlaced, hAscending, hFresh, hBegun⟩, hRest⟩
    refine ⟨⟨List.pairwise_cons.mpr ⟨hAscending, hRest.ascending⟩, hFresh, ?_⟩,
      List.forall_mem_cons.mpr ⟨hPlaced, hRest.placed⟩⟩
    intro t ht
    cases ht
    exact hBegun

/-- Behind the part of a segment that is sent, its half of the circle goes on. -/
theorem Segment.Placed.toNat_begun {seg : Segment} (h : seg.Placed base) :
    Near base (seg.seq + BitVec.ofNat 32 seg.sent) ∧
      (seg.seq + BitVec.ofNat 32 seg.sent).toNat = seg.seq.toNat + seg.sent ∧
      (seg.seq + BitVec.ofNat 32 seg.sent).toNat % 2 ^ 31 ≠ 2 ^ 31 - 1 := by
  obtain ⟨hStop, hHalf⟩ := h.toNat_stop
  have hBound := seg.stop.isLt
  have hLeft := h.left
  have hSum : (seg.seq + BitVec.ofNat 32 seg.sent).toNat = seg.seq.toNat + seg.sent := by
    rw [BitVec.toNat_add, BitVec.toNat_ofNat]
    omega
  have hSeqHalf := h.seq.half
  have hUpper := h.stop.upper
  have hLower := h.seq.lower
  rw [hSum]
  refine ⟨⟨?_, ?_, ?_⟩, rfl, ?_⟩ <;> omega

/-- What is not stale does not begin before the rest of the head. -/
theorem Lined.lt_of_begun {seg : Segment} (h : Lined base remoteSeq (seg :: queue)) {seq : U32}
    (hSeq : Near base seq) (hNew : ¬ compareU32 seq remoteSeq < 0) (hSent : 0 < seg.sent) :
    seg.seq.toNat < seq.toNat := by
  obtain ⟨⟨hPlaced, -, -, hBegun⟩, -⟩ := cons_iff.mp h
  obtain ⟨hNear, hSum, hInner⟩ := hPlaced.toNat_begun
  rw [hBegun hSent, compareU32_neg_iff_lt hSeq hNear hInner] at hNew
  omega

/-- `queue_tcp` puts a packet in its place. -/
theorem Lined.insert (h : Lined base remoteSeq queue) {hdr : TcpHdr} {data : Payload}
    (hPlaced : (Segment.ofPayload hdr.seq hdr.psh data).Placed base)
    (hNew : ¬ compareU32 hdr.seq remoteSeq < 0) :
    Lined base remoteSeq (insertSegment hdr data queue) := by
  have hNear : Near base hdr.seq := hPlaced.seq
  have hInner : hdr.seq.toNat % 2 ^ 31 ≠ 2 ^ 31 - 1 := by
    have hFirst := hPlaced.toNat_begun.2.2
    simpa [Segment.ofPayload] using hFirst
  induction queue with
  | nil =>
      exact cons_iff.mpr ⟨⟨hPlaced, by simp, by simp, fun hSent => absurd hSent (lt_irrefl 0)⟩, h⟩
  | cons s rest ih =>
      obtain ⟨⟨hHead, hAscending, hFresh, hBegun⟩, hRest⟩ := cons_iff.mp h
      have hNeg := compareU32_neg_iff_lt hHead.seq hNear hInner
      have hPos := compareU32_pos_iff_lt hHead.seq hNear hInner
      unfold insertSegment
      split_ifs with hBefore hAfter hSeq hSame hSmaller
      · refine cons_iff.mpr ⟨⟨hHead, ?_, ?_, hBegun⟩, ih hRest⟩
        · exact insertSegment_forall hAscending (hNeg.mp hBefore) fun _ hLater _ => hLater
        · exact insertSegment_forall hFresh rfl fun _ hNone _ => hNone
      · -- In front of `s`, so none of `s` is sent.
        have hLess := hPos.mp hAfter
        have hWhole : s.sent = 0 := by
          by_contra hSome
          have hLater := h.lt_of_begun hNear hNew (Nat.pos_of_ne_zero hSome)
          omega
        refine cons_iff.mpr ⟨⟨hPlaced, ?_, List.forall_mem_cons.mpr ⟨hWhole, hFresh⟩,
          fun hSent => absurd hSent (lt_irrefl 0)⟩, h⟩
        exact List.forall_mem_cons.mpr ⟨hLess, fun t ht => hLess.trans (hAscending t ht)⟩
      · exact h
      · exact cons_iff.mpr ⟨⟨⟨hHead.seq, hHead.stop, hHead.left⟩, hAscending, hFresh, hBegun⟩, hRest⟩
      · exact h
      · exact h

/-! ### The forward loop -/

theorem Lined.nil (base remoteSeq : U32) : Lined base remoteSeq [] :=
  ⟨⟨.nil, by simp, by simp⟩, by simp⟩

/-- Where nothing is begun, `remote_seq` may be anywhere. -/
theorem Lined.of_fresh (h : Lined base remoteSeq queue) (hFresh : ∀ seg ∈ queue, seg.sent = 0)
    (other : U32) : Lined base other queue := by
  refine ⟨⟨h.ascending, h.fresh, fun seg hSeg hSent => ?_⟩, h.placed⟩
  have hNone := hFresh seg (List.mem_of_mem_head? hSeg)
  omega

/-- A turn begins the head, or takes it off. -/
theorem Lined.forward {seg : Segment} {rest : List Segment}
    (h : Lined base c.tcp.remoteSeq (seg :: rest)) : Lined base
      (forwardTurn K seg rest c).1.tcp.remoteSeq (forwardTurn K seg rest c).1.tcp.forward := by
  obtain ⟨⟨hPlaced, hAscending, hFresh, -⟩, hRest⟩ := cons_iff.mp h
  have hCounted := counted_le K seg c
  have hLater : ∀ other, Lined base other rest := hRest.of_fresh hFresh
  rw [forwardTurn_eq]
  split_ifs with hAll
  · exact hLater _
  · refine cons_iff.mpr ⟨⟨⟨hPlaced.seq, hPlaced.stop, ?_⟩, hAscending, hFresh, fun _ => rfl⟩, hLater _⟩
    have hUnsent : seg.unsent = seg.len - seg.sent := rfl
    show seg.sent + counted K seg c < seg.len
    omega

/-! ### Calls of `queue_tcp` and turns of the loop -/

/-- What is done to the queue: `queue_tcp`, or a turn of the forward loop. -/
inductive QueueOp where
  | queue (hdr : TcpHdr) (data : Payload)
  | forward (K : Kernel) (bufferSize : U32)

/-- The loop takes a turn where its condition holds. -/
def queueStep (c : Cell) : QueueOp → Cell
  | .queue hdr data => queueTcp hdr data c
  | .forward K bufferSize =>
      match c.tcp.forward with
      | [] => c
      | seg :: rest => if canForward c seg bufferSize then (forwardTurn K seg rest c).1 else c

/-- There is data, and the numbers from its first byte to the one behind it are near. -/
structure DataNear (base : U32) (hdr : TcpHdr) (data : Payload) : Prop where
  some : data.val ≠ []
  seq : Near base hdr.seq
  stop : Near base (hdr.seq + BitVec.ofNat 32 data.val.length)

theorem DataNear.placed {hdr : TcpHdr} {data : Payload} (h : DataNear base hdr data) :
    (Segment.ofPayload hdr.seq hdr.psh data).Placed base :=
  ⟨h.seq, h.stop, List.length_pos_of_ne_nil h.some⟩

/-- The numbers of a call are near. -/
def QueueOp.Near (base : U32) : QueueOp → Prop
  | .queue hdr data => DataNear base hdr data
  | .forward _ _ => True

theorem Lined.queueStep (h : Lined base c.tcp.remoteSeq c.tcp.forward) {op : QueueOp}
    (hOp : op.Near base) : Lined base (Tun2Http.queueStep c op).tcp.remoteSeq
      (Tun2Http.queueStep c op).tcp.forward := by
  cases op with
  | queue hdr data =>
      have hData : DataNear base hdr data := hOp
      rw [Tun2Http.queueStep, queueTcp]
      split_ifs with hStale
      · exact h
      · exact h.insert hData.placed hStale
  | forward K bufferSize =>
      rw [Tun2Http.queueStep]
      cases hQueue : c.tcp.forward with
      | nil => rwa [hQueue] at h ⊢
      | cons seg rest =>
          dsimp only
          split_ifs
          · rw [hQueue] at h
            exact h.forward
          · exact h

/-! ### Runs of a session -/

/-- The packet, where `queue_tcp` gets it, is near to the base. -/
def NumbersNear (base : U32) (c : Cell) (input : Kernel × Input) : Prop :=
  ∀ hdr data, input.2 = .segment hdr data → Queues input.1 c hdr data →
    Near base hdr.seq ∧ Near base (hdr.seq + BitVec.ofNat 32 data.val.length)

/-- The queue is lined up, and in `TCP_LISTEN` nothing of it is sent. -/
structure LinedUp (base : U32) (c : Cell) : Prop where
  lined : Lined base c.tcp.remoteSeq c.tcp.forward
  unsent : c.tcp.state = .listen → ∀ seg ∈ c.tcp.forward, seg.sent = 0
  port : c.tcp.dest ≠ 443

namespace LinedUp

theorem of_eq (h : LinedUp base c) (hRemote : d.tcp.remoteSeq = c.tcp.remoteSeq)
    (hForward : d.tcp.forward = c.tcp.forward) (hDest : d.tcp.dest = c.tcp.dest)
    (hState : d.tcp.state = .listen → c.tcp.state = .listen) : LinedUp base d := by
  refine ⟨?_, fun hListen => ?_, ?_⟩
  · rw [hRemote, hForward]
    exact h.lined
  · rw [hForward]
    exact h.unsent (hState hListen)
  · rw [hDest]
    exact h.port

theorem of_empty (hForward : d.tcp.forward = []) (hPort : d.tcp.dest ≠ 443) : LinedUp base d := by
  refine ⟨?_, fun _ => ?_, hPort⟩
  · rw [hForward]
    exact .nil _ _
  · rw [hForward]
    exact List.forall_mem_nil _

theorem quiet (h : LinedUp base c) (hQuiet : Quiet c d) : LinedUp base d :=
  h.of_eq hQuiet.remoteSeq hQuiet.forward hQuiet.dest fun hListen => hQuiet.state ▸ hListen

theorem afterWrite (h : LinedUp base c) (packet : TcpPacket) (whole : Bool) :
    LinedUp base (afterWrite c packet whole) := by
  cases whole with
  | false => exact h.of_eq rfl rfl rfl fun hListen => by cases hListen
  | true => exact h.of_eq rfl rfl rfl id

/-- A move keeps the queue lined up. -/
theorem move (h : LinedUp base c) (hLife : Lifecycle c) (hOk : NumbersNear base s (K, i))
    (hMove : Move K i s c d) : LinedUp base d := by
  cases hMove with
  | quiet hSilent => exact h.quiet hSilent.toQuiet
  | write back fin whole => exact h.afterWrite _ whole
  | relay bytes =>
      obtain ⟨d, whole, hBefore, hAfter⟩ := relay_quiet (K := K) bytes c (readSize c.tcp)
      exact ((h.quiet hBefore).afterWrite _ whole).quiet hAfter
  | reset =>
      obtain ⟨hForward, hDest, -⟩ := writeRst_tcp (K := K) c
      have hLeft : (writeRst K c).tcp.state ≠ .listen := by
        rw [writeRst_state]
        split_ifs <;> simp
      refine ⟨?_, fun hListen => absurd hListen hLeft, hDest ▸ h.port⟩
      rw [hForward]
      by_cases hListen : c.tcp.state = .listen
      · exact h.lined.of_fresh (h.unsent hListen) _
      · have hRemote : (writeRst K c).tcp.remoteSeq = c.tcp.remoteSeq := by
          rw [writeRst_of_ne_listen K c hListen]
          split_ifs <;> rfl
        rw [hRemote]
        exact h.lined
  | synAck ev whole hInput hError hRead hState =>
      have hFresh := h.unsent hState
      have hCounted : LinedUp base s.countSyn := ⟨h.lined.of_fresh hFresh _, fun _ => hFresh, h.port⟩
      cases whole with
      | false => exact hCounted.of_eq rfl rfl rfl fun hListen => by cases hListen
      | true => exact hCounted.of_eq rfl rfl rfl fun hListen => by cases hListen
  | forward seg rest hTurn hQueue hNext hState hSocket =>
      have hLined := h.lined
      rw [hQueue] at hLined
      refine ⟨hLined.forward, fun hListen => ?_, ?_⟩
      · rw [forwardTurn_state] at hListen
        exact absurd hListen hState
      · rw [forwardTurn_eq]
        split_ifs <;> exact h.port
  | confirmFin sndbuf outq data answer before hState hQueue => exact of_empty hQueue h.port
  | queue hdr data hInput hSeq hQueue hSame hOpen =>
      obtain ⟨hData, -, -, hClosing, hClose⟩ := hOpen.resolve_left fun hTunnel => h.port hTunnel.1
      obtain ⟨hRemote, hQueues⟩ := (hSame.resolve_left hClosing).resolve_left hClose
      obtain ⟨hFirst, hStop⟩ := hOk hdr data hInput hQueues
      have hPlaced : (Segment.ofPayload hdr.seq hdr.psh data).Placed base :=
        DataNear.placed ⟨hData, hFirst, hStop⟩
      refine ⟨h.lined.insert hPlaced hSeq, fun hListen => ?_, h.port⟩
      exact insertSegment_forall (h.unsent hListen) rfl fun _ hNone _ => hNone
  | finQueued hState => exact h.of_eq rfl rfl rfl fun hListen => by cases hListen
  | fin next whole hState =>
      have hEmpty := hLife.empty_of_fin hState
      cases whole <;> exact of_empty hEmpty h.port
  | establish hState => exact h.of_eq rfl rfl rfl fun hListen => by cases hListen
  | lastAck => exact h.of_eq rfl rfl rfl fun hListen => by cases hListen
  | abort => exact h.of_eq rfl rfl rfl fun hListen => by cases hListen
  | connect hdr data count hQuiet hInput hUrg hPort => exact absurd hPort h.port
  | reply hState => exact h.of_eq rfl rfl rfl fun hListen => by cases hListen
  | shutdown next hQueue => exact of_empty hQueue h.port
  | closeSocket hState => exact h.of_eq rfl rfl rfl id
  | closed => exact h.of_eq rfl rfl rfl fun hListen => by cases hListen

theorem step (h : LinedUp base c) (hLife : Lifecycle c) (input : Kernel × Input)
    (hOk : NumbersNear base c input) :
    Lifecycle (Tun2Http.step c input) ∧ LinedUp base (Tun2Http.step c input) :=
  moves_invariant (I := fun d => Lifecycle d ∧ LinedUp base d) (step_moves c input.1 input.2)
    ⟨hLife, h⟩ fun _ _ hInv hMove => ⟨hInv.1.move hMove, hInv.2.move hInv.1 hOk hMove⟩

end LinedUp

/-- A SYN without data opens a session whose queue is empty. -/
theorem newSession_empty {info : SynInfo} {hdr : TcpHdr} {data : Payload}
    (hNew : newSession K info hdr data = some c) (hData : data.val = []) :
    c.tcp.forward = [] ∧ c.tcp.dest = hdr.dest := by
  obtain ⟨-, -, window, hTcp⟩ := newSession_eq hNew
  rw [hTcp]
  exact ⟨if_neg fun hSome => hSome hData, rfl⟩

/-- While the numbers of what is queued stay near to the first one, the queue
ascends without repeats, and only its head is begun, of which the rest starts at
`remote_seq`: after any calls of `queue_tcp` and turns of the forward loop on an
empty queue, and after all steps of a session outside port 443. -/
theorem queue_ascends {info : SynInfo} {hdr : TcpHdr} {data : Payload} {start : Cell}
    (hNew : newSession K info hdr data = some start) (hPort : hdr.dest ≠ 443)
    (hData : data.val = []) :
    (∀ (first : Cell) (ops : List QueueOp), first.tcp.forward = [] →
      (∀ op ∈ ops, op.Near start.tcp.remoteStart) →
        HeadBegun (run queueStep first ops).tcp.remoteSeq (run queueStep first ops).tcp.forward) ∧
      ∀ inputs : List (Kernel × Input), Along step (NumbersNear start.tcp.remoteStart) start inputs →
        HeadBegun (run step start inputs).tcp.remoteSeq (run step start inputs).tcp.forward := by
  constructor
  · intro first ops hEmpty hOps
    have hFirst : Lined start.tcp.remoteStart first.tcp.remoteSeq first.tcp.forward := by
      rw [hEmpty]
      exact .nil _ _
    have hEnd := run_invariant
      (I := fun c => Lined start.tcp.remoteStart c.tcp.remoteSeq c.tcp.forward) hFirst
      (along_of_forall first hOps) fun c op hLined hOp => hLined.queueStep hOp
    exact hEnd.toHeadBegun
  · intro inputs hRun
    obtain ⟨hEmpty, hDest⟩ := newSession_empty hNew hData
    have hFirst : LinedUp start.tcp.remoteStart start := .of_empty hEmpty (hDest ▸ hPort)
    have hEnd := run_invariant ⟨lifecycle_newSession hNew, hFirst⟩ hRun
      fun c input (hc : Lifecycle c ∧ LinedUp start.tcp.remoteStart c) hOk => hc.2.step hc.1 input hOk
    exact hEnd.2.lined.toHeadBegun

/-- `c` is queued before `ab`, of which one byte is sent. -/
def partialUpload : List QueueOp :=
  [.queue (clientSegment 22 2 1001) ⟨[99], by decide⟩,
    .queue (clientSegment 22 0 1001) ⟨[97, 98], by decide⟩,
    .forward { Kernel.willing with send := fun _ => .accepted 1 } 100]

theorem queue_ascends_upload :
    let c := run queueStep (clientCell 22 .empty) partialUpload
    let d := run step (clientCell 22 .empty) uploadRun
    c.tcp.forward.map Segment.sent = [1, 0] ∧ HeadBegun c.tcp.remoteSeq c.tcp.forward ∧
      HeadBegun d.tcp.remoteSeq d.tcp.forward := by
  obtain ⟨hOps, hSteps⟩ := queue_ascends (newSession_client 22 .empty) (by decide) rfl
  have hNear : ∀ offset ≤ 3, Near (clientCell 22 .empty).tcp.remoteStart
      (5000 + BitVec.ofNat 32 offset) := by decide
  refine ⟨by decide, hOps _ partialUpload rfl ?_, hSteps uploadRun ⟨?_, ?_, ?_, trivial⟩⟩
  · refine List.forall_mem_cons.mpr ⟨⟨by decide, hNear 2 (by decide), hNear 3 (by decide)⟩, ?_⟩
    refine List.forall_mem_cons.mpr ⟨⟨by decide, hNear 0 (by decide), hNear 2 (by decide)⟩, ?_⟩
    exact List.forall_mem_singleton.mpr trivial
  · intro hdr data hInput
    cases hInput
  · intro hdr data hInput hQueues
    cases hInput
    exact absurd rfl hQueues.2.1
  · intro hdr data hInput hQueues
    cases hInput
    exact ⟨hNear 1 (by decide), hNear 3 (by decide)⟩

end Tun2Http
