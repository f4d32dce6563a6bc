import Tun2Http.Machine.SerialNumber
import Tun2Http.Tcp.Lifecycle

/-! The order of the forward queue. While no two queued segments overlap, no
segment is left behind `remote_seq`, and the segment that starts there is the
head. -/
namespace Tun2Http

open Machine Machine.SerialNumber

/-- The number of the next byte to send, `seq + sent`. -/
def Segment.next (s : Segment) : U32 := s.seq + BitVec.ofNat 32 s.sent

/-- The queue lies ahead of `remote_seq` in ascending order and without
overlaps, and what was begun continues there. -/
structure InOrder (remoteSeq : U32) (queue : List Segment) : Prop where
  near : ∀ seg ∈ queue, ahead remoteSeq seg.next ≤ 2 ^ 31
  disjoint : queue.Pairwise fun s t =>
    ahead remoteSeq s.next + s.unsent ≤ ahead remoteSeq t.next
  begun : ∀ seg ∈ queue, seg.sent = 0 ∨ seg.next = remoteSeq

/-- Where the walk of `queue_tcp` ends, the packet is not stale and overlaps no
queued segment, or there is one of the same start. -/
def Fits (remoteSeq : U32) (hdr : TcpHdr) (data : Payload) : List Segment → Prop
  | [] => ¬ Before hdr.seq remoteSeq
  | s :: rest =>
      if compareU32 s.seq hdr.seq < 0 then
        ahead remoteSeq s.next + s.unsent ≤ ahead remoteSeq hdr.seq ∧
          Fits remoteSeq hdr data rest
      else s.seq = hdr.seq ∨
        ahead remoteSeq hdr.seq + data.val.length ≤ ahead remoteSeq s.next

instance decidableFits (remoteSeq : U32) (hdr : TcpHdr) (data : Payload) :
    ∀ queue, Decidable (Fits remoteSeq hdr data queue)
  | [] => inferInstanceAs (Decidable (¬ _))
  | s :: rest =>
      have := decidableFits remoteSeq hdr data rest
      inferInstanceAs (Decidable (if compareU32 s.seq hdr.seq < 0 then _ ∧ _ else _ ∨ _))

/-- What queues a packet finds a place for it; the SYN is not counted over
queued data; and a closing session is revived with its queue in order. -/
structure OrderKept (c : Cell) (input : Kernel × Input) : Prop where
  queued : ∀ hdr data, input.2 = .segment hdr data → Queues input.1 c hdr data →
    ¬ compareU32 hdr.seq c.tcp.remoteSeq < 0 → Fits c.tcp.remoteSeq hdr data c.tcp.forward
  counted : ∀ ev, input.2 = .event ev → c.tcp.state = .listen → ev.epollerr = false →
    ev.epollin = false → ∀ seg ∈ c.tcp.forward, seg.next ≠ c.tcp.remoteSeq
  revived : Revives c input → InOrder c.tcp.remoteSeq c.tcp.forward

/-- No queued segment is stale, and when the next expected byte is queued the
head is ready to be sent. -/
def Flows (t : TcpSession) : Prop :=
  (∀ seg ∈ t.forward, ¬ Before seg.next t.remoteSeq) ∧
    ((∃ seg ∈ t.forward, ahead seg.seq t.remoteSeq < seg.len) → headReady t)

/-- The queue is in order, unless the session is on the way out. -/
def Ordered (c : Cell) : Prop :=
  c.tcp.state = .closing ∨ c.tcp.state = .close ∨ InOrder c.tcp.remoteSeq c.tcp.forward

variable {K : Kernel} {i : Input} {s c d : Cell} {remoteSeq : U32} {queue : List Segment}

theorem InOrder.nil (remoteSeq : U32) : InOrder remoteSeq [] :=
  ⟨by simp, .nil, by simp⟩

theorem Segment.next_ofPayload (seq : U32) (psh : Bool) (data : Payload) :
    (Segment.ofPayload seq psh data).next = seq := by
  simp [Segment.next, Segment.ofPayload]

theorem InOrder.cons_iff {seg : Segment} :
    InOrder remoteSeq (seg :: queue) ↔
      (ahead remoteSeq seg.next ≤ 2 ^ 31 ∧ (seg.sent = 0 ∨ seg.next = remoteSeq) ∧
        ∀ t ∈ queue, ahead remoteSeq seg.next + seg.unsent ≤ ahead remoteSeq t.next) ∧
      InOrder remoteSeq queue := by
  constructor
  · rintro ⟨hNear, hDisjoint, hBegun⟩
    rw [List.pairwise_cons] at hDisjoint
    rw [List.forall_mem_cons] at hNear hBegun
    exact ⟨⟨hNear.1, hBegun.1, hDisjoint.1⟩, hNear.2, hDisjoint.2, hBegun.2⟩
  · rintro ⟨⟨hNear, hBegun, hDisjoint⟩, hRest⟩
    exact ⟨List.forall_mem_cons.mpr ⟨hNear, hRest.near⟩,
      List.pairwise_cons.mpr ⟨hDisjoint, hRest.disjoint⟩,
      List.forall_mem_cons.mpr ⟨hBegun, hRest.begun⟩⟩

/-- The walk leaves a segment that starts where the packet does. -/
theorem insertSegment_start (hdr : TcpHdr) (data : Payload) (queue : List Segment) :
    ∃ seg ∈ insertSegment hdr data queue, seg.seq = hdr.seq := by
  induction queue with
  | nil => exact ⟨_, List.mem_singleton_self _, rfl⟩
  | cons s rest ih =>
      unfold insertSegment
      split_ifs with hBefore hAfter hSeq hSame hSmaller
      · obtain ⟨seg, hSeg, hStart⟩ := ih
        exact ⟨seg, List.mem_cons_of_mem _ hSeg, hStart⟩
      · exact ⟨_, List.mem_cons_self .., rfl⟩
      · exact ⟨s, List.mem_cons_self .., hSeq⟩
      · exact ⟨_, List.mem_cons_self .., hSeq⟩
      · exact ⟨s, List.mem_cons_self .., hSeq⟩
      · exact absurd (compareU32_eq_zero_iff.mp (by omega)) hSeq

/-- A packet queued behind `s` must not begin before `s` ends. -/
theorem InOrder.insert_after_iff {s : Segment} (h : InOrder remoteSeq (s :: queue)) {hdr : TcpHdr}
    {data : Payload} (hRest : InOrder remoteSeq (insertSegment hdr data queue)) :
    InOrder remoteSeq (s :: insertSegment hdr data queue) ↔
      ahead remoteSeq s.next + s.unsent ≤ ahead remoteSeq hdr.seq := by
  obtain ⟨⟨hNear, hBegun, hHead⟩, -⟩ := cons_iff.mp h
  rw [cons_iff, and_iff_left hRest]
  constructor
  · rintro ⟨-, -, hFirst⟩
    obtain ⟨seg, hSeg, hStart⟩ := insertSegment_start hdr data queue
    have hPlace := hFirst seg hSeg
    rcases hRest.begun seg hSeg with hNone | hSame
    · have hHere : seg.next = hdr.seq := by simp [Segment.next, hNone, hStart]
      rwa [hHere] at hPlace
    · rw [hSame, ahead_self] at hPlace
      omega
  · intro hFirst
    refine ⟨hNear, hBegun, ?_⟩
    refine insertSegment_forall hHead ?_ fun _ hLater _ => hLater
    rw [Segment.next_ofPayload]
    exact hFirst

/-- A packet queued in front of `s` must end before `s` goes on. -/
theorem InOrder.insert_before_iff {s : Segment} (h : InOrder remoteSeq (s :: queue)) (hdr : TcpHdr)
    (data : Payload) :
    InOrder remoteSeq (Segment.ofPayload hdr.seq hdr.psh data :: s :: queue) ↔
      ahead remoteSeq hdr.seq + data.val.length ≤ ahead remoteSeq s.next := by
  obtain ⟨⟨hNear, -, hHead⟩, -⟩ := cons_iff.mp h
  rw [cons_iff, and_iff_left h, Segment.next_ofPayload]
  constructor
  · rintro ⟨-, -, hPlace⟩
    exact hPlace s (List.mem_cons_self ..)
  · intro hRoom
    refine ⟨by omega, Or.inl rfl, ?_⟩
    intro t ht
    have hEnd : ahead remoteSeq s.next ≤ ahead remoteSeq t.next := by
      rcases List.mem_cons.mp ht with rfl | hMem
      · exact le_rfl
      · exact (Nat.le_add_right _ _).trans (hHead t hMem)
    exact Nat.le_trans hRoom hEnd

/-- Queueing keeps the order exactly where the packet fits. -/
theorem InOrder.insert_iff (h : InOrder remoteSeq queue) (hdr : TcpHdr) (data : Payload) :
    InOrder remoteSeq (insertSegment hdr data queue) ↔ Fits remoteSeq hdr data queue := by
  induction queue with
  | nil =>
      simp only [insertSegment, Fits, cons_iff, Segment.next_ofPayload, not_before_iff]
      simp [Segment.ofPayload, InOrder.nil]
  | cons s rest ih =>
      have hLater : InOrder remoteSeq (insertSegment hdr data rest) ↔ Fits remoteSeq hdr data rest :=
        ih (cons_iff.mp h).2
      unfold Fits insertSegment
      by_cases hWalk : compareU32 s.seq hdr.seq < 0
      · rw [if_pos hWalk, if_pos hWalk, ← hLater]
        constructor
        · intro hAll
          have hRest := (cons_iff.mp hAll).2
          exact ⟨(h.insert_after_iff hRest).mp hAll, hRest⟩
        · rintro ⟨hFirst, hRest⟩
          exact (h.insert_after_iff hRest).mpr hFirst
      · rw [if_neg hWalk, if_neg hWalk]
        by_cases hSeq : s.seq = hdr.seq
        · rw [if_neg (by simp [hSeq]), if_pos hSeq]
          refine iff_of_true ?_ (Or.inl hSeq)
          split_ifs with hSame hSmaller
          · exact h
          · obtain ⟨hHead, hRest⟩ := cons_iff.mp h
            exact cons_iff.mpr ⟨hHead, hRest⟩
          · exact h
        · have hAfter : compareU32 s.seq hdr.seq > 0 := by
            have := mt compareU32_eq_zero_iff.mp hSeq
            omega
          rw [if_pos hAfter, or_iff_right hSeq]
          exact h.insert_before_iff hdr data

/-- A queue that lies `count` bytes ahead is in order there too. -/
theorem InOrder.moved (h : InOrder remoteSeq queue) {count : Nat}
    (hRoom : ∀ other ∈ queue, count ≤ ahead remoteSeq other.next) :
    InOrder (remoteSeq + BitVec.ofNat 32 count) queue := by
  have hMove : ∀ other ∈ queue, ahead (remoteSeq + BitVec.ofNat 32 count) other.next =
      ahead remoteSeq other.next - count := fun other hOther => ahead_advance (hRoom other hOther)
  constructor
  · intro other hOther
    have hNear := h.near other hOther
    rw [hMove other hOther]
    omega
  · apply h.disjoint.imp_of_mem
    intro s t hs ht hPair
    have hFirst := hRoom s hs
    rw [hMove s hs, hMove t ht]
    omega
  · intro other hOther
    apply (h.begun other hOther).imp_right
    intro hSame
    have hNone := hRoom other hOther
    rw [hSame, ahead_self, Nat.le_zero] at hNone
    simpa [hNone] using hSame

/-- The head gives up `count` bytes, and `remote_seq` follows. -/
theorem InOrder.advance {seg : Segment} {rest : List Segment} (h : InOrder remoteSeq (seg :: rest))
    (hNext : seg.next = remoteSeq) {count : Nat} (hCount : count ≤ seg.unsent) :
    InOrder (remoteSeq + BitVec.ofNat 32 count) (seg.advance count hCount :: rest) := by
  obtain ⟨⟨-, -, hHead⟩, hRest⟩ := cons_iff.mp h
  have hEnd : (seg.advance count hCount).next = remoteSeq + BitVec.ofNat 32 count := by
    rw [← hNext, Segment.next, Segment.next, add_ofNat_add]
    rfl
  have hUnsent : (seg.advance count hCount).unsent = seg.unsent - count := by
    simp only [Segment.unsent, Segment.advance]
    omega
  have hRoom : ∀ other ∈ rest, seg.unsent ≤ ahead remoteSeq other.next := by
    intro other hOther
    exact (Nat.le_add_left _ _).trans (hHead other hOther)
  refine cons_iff.mpr ⟨⟨by simp [hEnd], Or.inr hEnd, ?_⟩, hRest.moved fun other hOther =>
    hCount.trans (hRoom other hOther)⟩
  intro other hOther
  have hOther := hRoom other hOther
  rw [hEnd, ahead_self, hUnsent, ahead_advance (hCount.trans hOther)]
  omega

theorem InOrder.tail {seg : Segment} (h : InOrder remoteSeq (seg :: queue)) :
    InOrder remoteSeq queue :=
  ⟨fun other hOther => h.near other (List.mem_cons_of_mem _ hOther),
    (List.pairwise_cons.mp h.disjoint).2,
    fun other hOther => h.begun other (List.mem_cons_of_mem _ hOther)⟩

/-- A turn of the forward loop keeps the queue in order. -/
theorem InOrder.forward {seg : Segment} {rest : List Segment}
    (h : InOrder c.tcp.remoteSeq (seg :: rest)) (hNext : seg.next = c.tcp.remoteSeq) :
    InOrder (forwardTurn K seg rest c).1.tcp.remoteSeq (forwardTurn K seg rest c).1.tcp.forward := by
  have hAdvance := h.advance hNext (counted_le K seg c)
  have hSeq : (sentOn K seg c).tcp.remoteSeq =
      c.tcp.remoteSeq + BitVec.ofNat 32 (counted K seg c) := by
    rw [← hNext, Segment.next, add_ofNat_add]
    rfl
  rw [forwardTurn_eq]
  split_ifs
  · simpa [hSeq] using hAdvance.tail
  · simpa [hSeq] using hAdvance

/-- Counting the SYN keeps the order exactly where nothing queued starts there. -/
theorem InOrder.countSyn_iff (h : InOrder remoteSeq queue) :
    InOrder (remoteSeq + 1) queue ↔ ∀ seg ∈ queue, seg.next ≠ remoteSeq := by
  constructor
  · intro hOrder seg hSeg hHere
    have hNear := hOrder.near seg hSeg
    rw [hHere] at hNear
    unfold ahead at hNear
    bv_omega
  · intro hFree
    have hAhead : ∀ seg ∈ queue, ahead remoteSeq seg.next ≠ 0 := fun seg hSeg =>
      (not_congr ahead_eq_zero_iff).mpr (hFree seg hSeg)
    have hMove : ∀ seg ∈ queue, ahead (remoteSeq + 1) seg.next = ahead remoteSeq seg.next - 1 :=
      fun seg hSeg => ahead_advance (n := 1) (Nat.one_le_iff_ne_zero.mpr (hAhead seg hSeg))
    refine ⟨fun seg hSeg => ?_, h.disjoint.imp_of_mem fun {a b} ha hb hPair => ?_,
      fun seg hSeg => ?_⟩
    · have := h.near seg hSeg
      have := hMove seg hSeg
      omega
    · have := hMove a ha
      have := hMove b hb
      have := hAhead a ha
      omega
    · exact Or.inl ((h.begun seg hSeg).resolve_right (hFree seg hSeg))

theorem Ordered.quiet (h : Ordered c) (hQuiet : Quiet c d) : Ordered d := by
  unfold Ordered
  rwa [hQuiet.state, hQuiet.remoteSeq, hQuiet.forward]

theorem Ordered.afterWrite (h : Ordered c) (packet : TcpPacket) (whole : Bool) :
    Ordered (afterWrite c packet whole) := by
  cases whole with
  | false => exact Or.inl rfl
  | true => exact h

theorem Ordered.inOrder (h : Ordered c) (hClosing : c.tcp.state ≠ .closing)
    (hClose : c.tcp.state ≠ .close) : InOrder c.tcp.remoteSeq c.tcp.forward :=
  (h.resolve_left hClosing).resolve_left hClose

theorem Ordered.of_empty (hForward : c.tcp.forward = []) : Ordered c := by
  refine Or.inr (Or.inr ?_)
  rw [hForward]
  exact .nil _

/-- A move keeps the order. -/
theorem Ordered.move (h : Ordered c) (hLife : Lifecycle c)
    (hOk : OrderKept s (K, i)) (hMove : Move K i s c d) : Ordered d := by
  cases hMove with
  | quiet hSilent => exact h.quiet hSilent.toQuiet
  | write back fin whole => exact h.afterWrite _ whole
  | relay bytes =>
      obtain ⟨d, whole, hBefore, hAfter⟩ := relay_quiet (K := K) bytes c (readSize c.tcp)
      exact ((h.quiet hBefore).afterWrite _ whole).quiet hAfter
  | reset =>
      have hState := writeRst_state K c
      split_ifs at hState with hClose
      · exact Or.inr (Or.inl hState)
      · exact Or.inl hState
  | synAck ev whole hInput hError hRead hState =>
      cases whole with
      | false => exact Or.inl rfl
      | true =>
          have hOrder := h.inOrder (by simp [hState]) (by simp [hState])
          exact Or.inr (Or.inr (hOrder.countSyn_iff.mpr (hOk.counted ev hInput hState hError hRead)))
  | forward seg rest hTurn hQueue hNext hState hSocket =>
      rcases h with hClosing | hClose | hOrder
      · exact Or.inl ((forwardTurn_state seg rest c).trans hClosing)
      · exact Or.inr (Or.inl ((forwardTurn_state seg rest c).trans hClose))
      · rw [hQueue] at hOrder
        exact Or.inr (Or.inr (hOrder.forward hNext))
  | confirmFin sndbuf outq data answer before hState hQueue => exact .of_empty hQueue
  | queue hdr data hInput hSeq hQueue hSame =>
      rcases hSame with hClosing | hClose | ⟨hRemote, hQueues⟩
      · exact Or.inl hClosing
      · exact Or.inr (Or.inl hClose)
      · rcases h with hClosing | hClose | hOrder
        · exact Or.inl hClosing
        · exact Or.inr (Or.inl hClose)
        · have hFits := hOk.queued hdr data hInput hQueues (hRemote ▸ hSeq)
          rw [← hRemote, ← hQueue] at hFits
          exact Or.inr (Or.inr ((hOrder.insert_iff hdr data).mpr hFits))
  | finQueued hState => exact Or.inr (Or.inr (h.inOrder (by simp [hState]) (by simp [hState])))
  | fin next whole hState =>
      have hEmpty := hLife.empty_of_fin hState
      cases whole <;> exact .of_empty hEmpty
  | establish hState => exact Or.inr (Or.inr (h.inOrder (by simp [hState]) (by simp [hState])))
  | lastAck => exact Or.inl rfl
  | abort => exact Or.inl rfl
  | connect hdr data count hQuiet hInput hUrg hPort hSent hSocket hAnswer =>
      refine Or.inr (Or.inr ?_)
      rcases h with hClosing | hClose | hOrder
      · have hOrder := hOk.revived ⟨hQuiet.state ▸ hClosing, hQuiet.connectSent ▸ hSent,
          hQuiet.dest ▸ hPort, hQuiet.socket ▸ hSocket, ⟨hdr, data, hInput, hUrg⟩, count, hAnswer⟩
        rwa [← hQuiet.remoteSeq, ← hQuiet.forward] at hOrder
      · exact absurd hClose (hLife.not_close (Or.inr hSocket))
      · exact hOrder
  | reply hState => exact Or.inr (Or.inr (h.inOrder (by simp [hState]) (by simp [hState])))
  | shutdown next hQueue => exact .of_empty hQueue
  | closeSocket hState => exact Or.inl hState
  | closed => exact Or.inr (Or.inl rfl)

theorem Ordered.step (h : Ordered c) (hLife : Lifecycle c) (input : Kernel × Input)
    (hOk : OrderKept c input) :
    Lifecycle (Tun2Http.step c input) ∧ Ordered (Tun2Http.step c input) :=
  moves_invariant (I := fun d => Lifecycle d ∧ Ordered d) (step_moves c input.1 input.2)
    ⟨hLife, h⟩ fun _ _ hInv hMove => ⟨hInv.1.move hMove, hInv.2.move hInv.1 hOk hMove⟩

/-- The SYN's own data, if there is any, starts the queue. -/
theorem Ordered.of_newSession {info : SynInfo} {hdr : TcpHdr} {data : Payload}
    (hNew : newSession K info hdr data = some c) : Ordered c := by
  obtain ⟨-, -, window, hTcp⟩ := newSession_eq hNew
  refine Or.inr (Or.inr ?_)
  rw [hTcp]
  simp only [synSession]
  split_ifs
  · exact ((InOrder.nil hdr.seq).insert_iff hdr data).mpr (before_irrefl _)
  · exact .nil _

/-- A segment that contains the next expected byte and is not stale continues there. -/
theorem Segment.next_of_contains {seg : Segment} (hNear : ahead remoteSeq seg.next ≤ 2 ^ 31)
    (hBegun : seg.sent = 0 ∨ seg.next = remoteSeq) (hContains : ahead seg.seq remoteSeq < seg.len) :
    ahead remoteSeq seg.next = 0 ∧ 0 < seg.unsent := by
  have hLength := seg.len_le
  have hShort := seg.data_lt
  have hSent := seg.sent_le
  unfold Segment.next Segment.unsent ahead at *
  rcases hBegun with hNone | hSame
  · rw [hNone] at hNear ⊢
    bv_omega
  · subst hSame
    bv_omega

/-- Nothing is stale in a queue in order, and the next expected byte is in the head. -/
theorem InOrder.flows {t : TcpSession} (h : InOrder t.remoteSeq t.forward) : Flows t := by
  refine ⟨fun seg hSeg => not_before_iff.mpr (h.near seg hSeg), ?_⟩
  rintro ⟨seg, hSeg, hContains⟩
  have hHere : ahead t.remoteSeq seg.next = 0 ∧ 0 < seg.unsent :=
    Segment.next_of_contains (h.near seg hSeg) (h.begun seg hSeg) hContains
  unfold headReady
  cases hQueue : t.forward with
  | nil => rw [hQueue] at hSeg; cases hSeg
  | cons head rest =>
      have hDisjoint := h.disjoint
      rw [hQueue] at hSeg hDisjoint
      have hFirst : ahead t.remoteSeq head.next = 0 := by
        rcases List.mem_cons.mp hSeg with rfl | hLater
        · exact hHere.1
        · have := (List.pairwise_cons.mp hDisjoint).1 seg hLater
          omega
      exact ahead_eq_zero_iff.mp hFirst

/-- While nothing overlaps what is queued, the queue of an established session
never wedges. -/
theorem queue_never_wedges {info : SynInfo} {hdr : TcpHdr} {data : Payload} {start : Cell}
    (hNew : newSession K info hdr data = some start) (inputs : List (Kernel × Input))
    (hRun : Along step OrderKept start inputs) :
    let t := (run step start inputs).tcp
    t.state = .established ∨ t.state = .closeWait → Flows t := by
  have hEnd := run_invariant ⟨lifecycle_newSession hNew, .of_newSession hNew⟩ hRun
    fun c input (hc : Lifecycle c ∧ Ordered c) hOk => hc.2.step hc.1 input hOk
  intro t hState
  refine (hEnd.2.inOrder ?_ ?_).flows
  · rcases hState with hState | hState <;> exact fun h => by cases hState.symm.trans h
  · rcases hState with hState | hState <;> exact fun h => by cases hState.symm.trans h

/-- Two bytes wait in the queue of an established session. -/
theorem queue_never_wedges_upload :
    let t := (run step (clientCell 22 .empty) uploadRun).tcp
    t.state = .established ∨ t.state = .closeWait → Flows t := by
  apply queue_never_wedges (newSession_client 22 .empty) uploadRun
  refine ⟨⟨?_, ?_, ?_⟩, ⟨?_, ?_, ?_⟩, ⟨?_, ?_, ?_⟩, trivial⟩
  all_goals first
    | exact fun h => absurd h.1 (by decide)
    | exact fun _ _ h _ _ => by cases h <;> decide

/-- The SYN carries `ab`. Counting it leaves the data behind `remote_seq`, and
the next byte waits behind a head that is never sent. -/
theorem queue_wedges : ∃ data inputs,
    let t := (run step (clientCell 22 data) inputs).tcp
    t.state = .established ∧ ¬ Flows t := by
  refine ⟨⟨[97, 98], by decide⟩, [(.willing, .event { epollout := true }),
    (.willing, .segment (clientSegment 22 1 1001) .empty),
    (.willing, .segment (clientSegment 22 1 1001) ⟨[98], by decide⟩)], by decide, fun hFlows => ?_⟩
  have hReady := hFlows.2 ⟨_, List.mem_cons_of_mem _ (List.mem_cons_self ..), by decide⟩
  revert hReady
  decide

end Tun2Http
