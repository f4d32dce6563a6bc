import Tun2Http.Machine.Stream
import Tun2Http.Tcp.Acknowledgement

/-! Upstream reassembly. The queue holds pieces of one stream of the client,
and what the socket has taken is at every moment a prefix of it. -/
namespace Tun2Http

open Machine Machine.Stream

/-- A segment of a client whose stream starts after its SYN at `base`. -/
def Carries (stream : List UInt8) (base : U32) (hdr : TcpHdr) (data : Payload) : Prop :=
  if hdr.syn then hdr.seq = base ∧ Slice stream 0 data.val
  else ∃ position, hdr.seq = base + 1 + BitVec.ofNat 32 position ∧ Slice stream position data.val

/-- A queued piece of the stream: data of the SYN, under the SYN's own number,
or data under the number of its position. -/
def Piece (stream : List UInt8) (base : U32) (seq : U32) (data : List UInt8) : Prop :=
  (seq = base ∧ Slice stream 0 data) ∨
    ∃ position < stream.length, seq = base + 1 + BitVec.ofNat 32 position ∧
      Slice stream position data

/-- What the socket has taken is a prefix of the stream, and the queue holds
pieces of it. -/
structure Reassembly (stream : List UInt8) (c : Cell) : Prop where
  taken : accepted c.log <+: stream
  pieces : ∀ seg ∈ c.tcp.forward, Piece stream c.tcp.remoteStart seg.seq seg.data
  sent : ∀ seg ∈ c.tcp.forward, seg.sent ≤ (accepted c.log).length

/-- No turn of the forward loop hands `send()` anything but the SYN's own data
while the SYN is not counted. -/
def SynFirst (c : Cell) (input : Kernel × Input) : Prop :=
  ∀ t ∈ turns c input, syns t.log ≠ 0 ∨
    ∀ seg rest, t.tcp.forward = seg :: rest → seg.seq = t.tcp.remoteStart

variable {K : Kernel} {i : Input} {s c d : Cell} {stream : List UInt8}

theorem carries_data {base : U32} {hdr : TcpHdr} {data : Payload} (position : Nat)
    (hSyn : hdr.syn = false) (hSeq : hdr.seq = base + 1 + BitVec.ofNat 32 position)
    (hData : data.val <+: stream.drop position) : Carries stream base hdr data := by
  rw [Carries, if_neg (by simp [hSyn])]
  exact ⟨position, hSeq, hData⟩

theorem Carries.piece {base : U32} {hdr : TcpHdr} {data : Payload} (h : Carries stream base hdr data)
    (hData : data.val ≠ []) : Piece stream base hdr.seq data.val := by
  unfold Carries at h
  split_ifs at h with hSyn
  · exact Or.inl h
  · obtain ⟨position, hSeq, hSlice⟩ := h
    have hEnd := hSlice.length_le.resolve_right hData
    have hLength := List.length_pos_iff.mpr hData
    exact Or.inr ⟨position, by omega, hSeq, hSlice⟩

theorem Reassembly.same (h : Reassembly stream c) (hForward : d.tcp.forward = c.tcp.forward)
    (hStart : d.tcp.remoteStart = c.tcp.remoteStart) (hLog : accepted d.log = accepted c.log) :
    Reassembly stream d := by
  refine ⟨?_, ?_, ?_⟩
  · rw [hLog]
    exact h.taken
  · rw [hForward, hStart]
    exact h.pieces
  · rw [hForward, hLog]
    exact h.sent

theorem Reassembly.quiet (h : Reassembly stream c) (hQuiet : Quiet c d) : Reassembly stream d :=
  h.same hQuiet.forward hQuiet.remoteStart (accepted_quiet hQuiet)

theorem Reassembly.queue (h : Reassembly stream c) {hdr : TcpHdr} {data : Payload}
    (hCarries : Carries stream c.tcp.remoteStart hdr data) (hData : data.val ≠ []) :
    Reassembly stream (c.setForward (insertSegment hdr data c.tcp.forward)) := by
  have hNew := hCarries.piece hData
  refine ⟨h.taken, fun seg hSeg => ?_,
    insertSegment_forall h.sent (Nat.zero_le _) fun _ hSent _ => hSent⟩
  rcases insertSegment_mem hSeg with hOld | rfl | ⟨old, hMem, hSeq, hSmaller, rfl⟩
  · exact h.pieces seg hOld
  · exact hNew
  · exact (congrArg (Piece stream _ · _) hSeq).mpr hNew

/-- What the head still has to send continues what was taken. -/
theorem Reassembly.head (h : Reassembly stream c) (hCounting : Counting c)
    (hLength : stream.length < 2 ^ 31) {seg : Segment} {rest : List Segment}
    (hQueue : c.tcp.forward = seg :: rest)
    (hNext : seg.seq + BitVec.ofNat 32 seg.sent = c.tcp.remoteSeq)
    (hFirst : syns c.log ≠ 0 ∨ seg.seq = c.tcp.remoteStart) :
    ∃ position, Slice stream position seg.data ∧
      position + seg.sent = (accepted c.log).length := by
  have hMem : seg ∈ c.tcp.forward := by rw [hQueue]; exact List.mem_cons_self ..
  have hNone : fins c.log = 0 := by
    apply hCounting.done.resolve_right
    intro hDone
    rw [hDone.forward] at hQueue
    cases hQueue
  have hTaken := h.taken.length_le
  have hSent := h.sent seg hMem
  have hSyns := hCounting.syns
  have hSeq := hCounting.seq
  rw [← hNext, hNone] at hSeq
  rcases h.pieces seg hMem with ⟨hStart, hSlice⟩ | ⟨position, hPosition, hStart, hSlice⟩
  · refine ⟨0, hSlice, ?_⟩
    rw [hStart] at hSeq
    bv_omega
  · refine ⟨position, hSlice, ?_⟩
    have hCounted : syns c.log ≠ 0 := by
      apply hFirst.resolve_right
      intro hSame
      rw [hStart] at hSame
      bv_omega
    rw [hStart] at hSeq
    have hSmall : seg.sent < 2 ^ 16 := by
      have := seg.sent_le
      have := seg.len_le
      have := seg.data_lt
      omega
    bv_omega

/-- A turn hands the socket the next bytes of the stream. -/
theorem Reassembly.forward (h : Reassembly stream c) (hCounting : Counting c)
    (hLength : stream.length < 2 ^ 31) (hPort : c.tcp.dest ≠ 80) {seg : Segment}
    {rest : List Segment} (hQueue : c.tcp.forward = seg :: rest)
    (hNext : seg.seq + BitVec.ofNat 32 seg.sent = c.tcp.remoteSeq)
    (hFirst : syns c.log ≠ 0 ∨ seg.seq = c.tcp.remoteStart) {count : Nat}
    (hAnswer : K.send c.calls = .accepted count) :
    Reassembly stream (forwardTurn K seg rest c).1 := by
  obtain ⟨position, hSlice, hPosition⟩ := h.head hCounting hLength hQueue hNext hFirst
  have hCounted := counted_le K seg c
  have hAccepted : accepted (sentOn K seg c).log =
      accepted c.log ++ seg.rest.take (counted K seg c) :=
    accepted_sentOn hPort hAnswer
  have hLengths : (accepted (sentOn K seg c).log).length =
      (accepted c.log).length + counted K seg c := by
    simp [hAccepted, hCounted]
  have hTaken : accepted (sentOn K seg c).log <+: stream := by
    rw [hAccepted]
    apply deliver_prefix h.taken hSlice hPosition
    exact (List.take_prefix _ _).trans (List.take_prefix _ _)
  have hRest : ∀ other ∈ rest, Piece stream c.tcp.remoteStart other.seq other.data ∧
      other.sent ≤ (accepted (sentOn K seg c).log).length := by
    intro other hOther
    have hMem : other ∈ c.tcp.forward := by rw [hQueue]; exact List.mem_cons_of_mem _ hOther
    have hSent := h.sent other hMem
    exact ⟨h.pieces other hMem, by omega⟩
  have hHead : seg ∈ c.tcp.forward := by rw [hQueue]; exact List.mem_cons_self ..
  rw [forwardTurn_eq]
  split_ifs
  · exact ⟨hTaken, fun other hOther => (hRest other hOther).1,
      fun other hOther => (hRest other hOther).2⟩
  · refine ⟨hTaken, fun other hOther => ?_, fun other hOther => ?_⟩
    · rcases List.mem_cons.mp hOther with rfl | hOther
      · exact h.pieces seg hHead
      · exact (hRest other hOther).1
    · rcases List.mem_cons.mp hOther with rfl | hOther
      · have hSent := h.sent seg hHead
        simp only [Segment.advance_sent, Cell.setForward_log]
        omega
      · exact (hRest other hOther).2

theorem writeRst_accepted (c : Cell) : accepted (writeRst K c).log = accepted c.log := by
  by_cases hState : c.tcp.state = .listen
  · simp [writeRst_of_listen K c hState, accepted]
  · rw [writeRst_of_ne_listen K c hState]
    split_ifs <;> simp [accepted]

/-- A move keeps what was taken a prefix, outside the ports that are proxied. -/
theorem Reassembly.move (h : Reassembly stream c) (hCounting : Counting c)
    (hLength : stream.length < 2 ^ 31) (hHttp : c.tcp.dest ≠ 80) (hHttps : c.tcp.dest ≠ 443)
    (hInput : ∀ hdr data, i = .segment hdr data → Carries stream c.tcp.remoteStart hdr data)
    (hSend : SendsTaken s (K, i)) (hFirst : SynFirst s (K, i)) (hMove : Move K i s c d) :
    Reassembly stream d := by
  cases hMove with
  | quiet hSilent => exact h.quiet hSilent.toQuiet
  | write back fin whole => cases whole <;> exact h.same rfl rfl rfl
  | relay bytes =>
      obtain ⟨d, whole, hBefore, hAfter⟩ := relay_quiet (K := K) bytes c (readSize c.tcp)
      refine ((h.quiet hBefore).same (d := afterWrite d _ whole) ?_ ?_ ?_).quiet hAfter
      · rw [afterWrite_tcp]
      · rw [afterWrite_tcp]
      · rw [afterWrite_log]
        rfl
  | reset =>
      obtain ⟨hForward, -, -, hStart⟩ := writeRst_tcp (K := K) c
      exact h.same hForward hStart (writeRst_accepted c)
  | synAck ev whole => cases whole <;> exact h.same rfl rfl rfl
  | forward seg rest hTurn hQueue hNext hState hSocket =>
      cases hAnswer : K.send c.calls with
      | error errno => exact absurd hAnswer (hSend c hTurn errno)
      | accepted count =>
          have hHead := (hFirst c hTurn).imp_right fun hHead => hHead seg rest hQueue
          exact h.forward hCounting hLength hHttp hQueue hNext hHead hAnswer
  | queue hdr data hSegment hSeq hQueue hSame hOpen =>
      have hData := (hOpen.resolve_left fun hTunnel => hHttps hTunnel.1).1
      exact h.queue (hInput hdr data hSegment) hData
  | fin next whole => cases whole <;> exact h.same rfl rfl rfl
  | connect hdr data count hQuiet hSegment hUrg hPort => exact absurd hPort hHttps
  | _ => exact h.same rfl rfl rfl

/-- What holds between the steps of a run that carries `stream` after the SYN
at `base`. -/
structure Uploading (stream : List UInt8) (base : U32) (c : Cell) : Prop where
  forwarding : Forwarding base c
  port : c.tcp.dest ≠ 443
  reassembly : Reassembly stream c

/-- Outside port 443 the SYN is counted once. -/
theorem Counting.once (h : Counting c) (hPort : c.tcp.dest ≠ 443) (input : Kernel × Input) :
    ¬ CountsAgain c input := by
  intro hAgain
  rcases h.listen hAgain.2.1 with hNone | hTunnel
  · exact hAgain.1 hNone
  · exact hPort hTunnel.1

theorem Uploading.step {base : U32} (h : Uploading stream base c) (hLength : stream.length < 2 ^ 31)
    (input : Kernel × Input)
    (hInput : ∀ hdr data, input.2 = .segment hdr data → Carries stream base hdr data)
    (hOk : SendsTaken c input ∧ SynFirst c input) : Uploading stream base (Tun2Http.step c input) := by
  have hOnce := h.forwarding.counting.once h.port input
  apply moves_invariant (step_moves c input.1 input.2) h
  intro a b hInv hMove
  obtain ⟨⟨hLife, hHttp, hStart, hCounting⟩, hHttps, hReassembly⟩ := hInv
  obtain ⟨hDest, hBase⟩ := move_fixed hMove
  refine ⟨⟨hLife.move hMove, hDest ▸ hHttp, hBase.trans hStart,
    hCounting.move hLife hHttp hOk.1 hOnce hMove⟩, hDest ▸ hHttps, ?_⟩
  exact hReassembly.move hCounting hLength hHttp hHttps (hStart ▸ hInput) hOk.1 hOk.2 hMove

theorem Uploading.of_newSession {info : SynInfo} {hdr : TcpHdr} {data : Payload}
    (hNew : newSession K info hdr data = some c) (hHttp : hdr.dest ≠ 80) (hHttps : hdr.dest ≠ 443)
    (hData : data.val <+: stream) : Uploading stream hdr.seq c := by
  obtain ⟨-, hLog, window, hTcp⟩ := newSession_eq hNew
  refine ⟨.of_newSession hNew hHttp, by rw [hTcp]; exact hHttps, ?_, fun seg hSeg => ?_, fun seg hSeg => ?_⟩
  · simp [hLog, accepted]
  · rw [hTcp] at hSeg ⊢
    simp only [synSession] at hSeg ⊢
    split_ifs at hSeg
    · rw [List.mem_singleton.mp hSeg]
      exact Or.inl ⟨rfl, hData⟩
    · simp at hSeg
  · rw [hTcp] at hSeg
    simp only [synSession] at hSeg
    split_ifs at hSeg
    · rw [List.mem_singleton.mp hSeg]
      exact Nat.zero_le _
    · simp at hSeg

/-- For a port that is not proxied and a stream shorter than half the sequence
space: while `send()` never fails and no data but the SYN's own is handed to it
before the SYN is counted, what the socket has taken is a prefix of the stream,
and between SYN and FIN `remote_seq` is its length. -/
theorem reassembly_safe {info : SynInfo} {hdr : TcpHdr} {data : Payload} {start : Cell}
    (hNew : newSession K info hdr data = some start) (hHttp : hdr.dest ≠ 80)
    (hHttps : hdr.dest ≠ 443) (hLength : stream.length < 2 ^ 31) (hData : data.val <+: stream)
    (inputs : List (Kernel × Input))
    (hSegments : ∀ input ∈ inputs, ∀ hdr' data', input.2 = .segment hdr' data' →
      Carries stream hdr.seq hdr' data')
    (hRun : Along step (fun c input => SendsTaken c input ∧ SynFirst c input) start inputs) :
    let c := run step start inputs
    accepted c.log <+: stream ∧
      (syns c.log ≠ 0 → fins c.log = 0 →
        c.tcp.remoteSeq - hdr.seq - 1 = BitVec.ofNat 32 (accepted c.log).length) := by
  have hEnd := run_invariant (.of_newSession hNew hHttp hHttps hData)
    ((along_of_forall start hSegments).and hRun)
    fun c input (hc : Uploading stream hdr.seq c) hOk => hc.step hLength input hOk.1 hOk.2
  obtain ⟨⟨hLife, hPort, hStart, hCounting⟩, hTunnel, hReassembly⟩ := hEnd
  refine ⟨hReassembly.taken, fun hSyn hFin => ?_⟩
  have hSeq := hCounting.seq
  have hOnce := hCounting.syns
  rw [hStart, hFin, show syns (run step start inputs).log = 1 by omega] at hSeq
  rw [hSeq]
  bv_omega

/-- Two bytes go up as one segment. -/
theorem reassembly_safe_upload :
    let c := run step (clientCell 22 .empty) (uploadRun ++ [(.willing, .event { epollout := true })])
    accepted c.log <+: [104, 105] ∧
      (syns c.log ≠ 0 → fins c.log = 0 →
        c.tcp.remoteSeq - 5000 - 1 = BitVec.ofNat 32 (accepted c.log).length) := by
  refine reassembly_safe (newSession_client 22 .empty) (by decide) (by decide) (by decide)
    (List.nil_prefix) _ (fun input hInput hdr data hSegment => ?_) ?_
  · simp only [uploadRun, List.cons_append, List.nil_append, List.mem_cons, List.not_mem_nil,
      or_false] at hInput
    rcases hInput with rfl | rfl | rfl | rfl <;> cases hSegment <;>
      exact carries_data 0 rfl (by decide) (by decide)
  · refine ⟨⟨?_, ?_⟩, ⟨?_, ?_⟩, ⟨?_, ?_⟩, ⟨?_, ?_⟩, trivial⟩
    all_goals first
      | exact fun _ _ _ h => by cases h
      | exact fun t ht => Or.inl (by revert t; decide)

/-- The SYN carries `ab` and the byte `b` comes again as a segment of its own.
A reset before the SYN is counted leaves `remote_seq` one byte short of the
stream, and the next writable event sends `abb`. -/
theorem reassembly_unsafe : ∃ stream data inputs,
    stream.length < 2 ^ 31 ∧ data.val <+: stream ∧
      (∀ input ∈ inputs, ∀ hdr data, input.2 = .segment hdr data → Carries stream 5000 hdr data) ∧
      Along step SendsTaken (clientCell 22 data) inputs ∧
      ¬ accepted (run step (clientCell 22 data) inputs).log <+: stream := by
  refine ⟨[97, 98, 99], ⟨[97, 98], by decide⟩,
    [(.willing, .segment (clientSegment 22 2 1000) ⟨[98], by decide⟩),
      (.willing, .segment { clientSegment 22 1 1000 with rst := true } .empty),
      (.willing, .event { epollout := true })], by decide, by decide,
    fun input hInput hdr data hSegment => ?_, ?_, by decide⟩
  · simp only [List.mem_cons, List.not_mem_nil, or_false] at hInput
    rcases hInput with rfl | rfl | rfl <;> cases hSegment
    · exact carries_data 1 rfl (by decide) (by decide)
    · exact carries_data 0 rfl (by decide) (by decide)
  · refine ⟨?_, ?_, ?_, trivial⟩ <;> exact fun _ _ _ h => by cases h

end Tun2Http
