import Tun2Http.Machine.SerialNumber
import Tun2Http.Tcp.Once

/-! What `remote_seq` counts: the SYN, the bytes that `send()` took, and the
FIN. Acknowledgements repeat it to the client. -/
namespace Tun2Http

open Machine

/-- The bytes of the client that the socket has taken, in order. -/
def accepted : List Io → List UInt8
  | [] => []
  | .send data answer :: before => accepted before ++ data.take answer.count
  | _ :: before => accepted before

/-- An acknowledgement, after the calls in `before`, is not serially past the
SYN, the bytes taken by then and a FIN. -/
def AckSound (base : U32) (before : List Io) : Io → Prop
  | .tun packet _ => packet.ack = true →
      SerialNumber.ahead packet.ackSeq
        (base + BitVec.ofNat 32 (1 + (accepted before).length + fins before)) < 2 ^ 31
  | _ => True

/-- No acknowledgement ever went past what was taken. -/
def AcksSound (base : U32) : List Io → Prop
  | [] => True
  | entry :: before => AckSound base before entry ∧ AcksSound base before

variable {K : Kernel} {i : Input} {s c d : Cell}

theorem accepted_quiet (h : Quiet c d) : accepted d.log = accepted c.log :=
  h.log_eq accepted fun entry log hEntry => by cases entry <;> simp_all [Io.quiet, accepted]

theorem acksSound_quiet (base : U32) (h : Quiet c d) :
    AcksSound base d.log = AcksSound base c.log :=
  h.log_eq (AcksSound base) fun entry log hEntry => by
    cases entry <;> simp_all [Io.quiet, AcksSound, AckSound]

/-- What `remote_seq` counts. -/
structure Counting (c : Cell) : Prop where
  seq : c.tcp.remoteSeq = c.tcp.remoteStart +
    BitVec.ofNat 32 (syns c.log + (accepted c.log).length + fins c.log)
  syns : syns c.log ≤ 1
  listen : c.tcp.state = .listen →
    Tun2Http.syns c.log = 0 ∨ (c.tcp.dest = 443 ∧ c.tcp.connectSent = .sent)
  fins : fins c.log ≤ 1
  done : Tun2Http.fins c.log = 0 ∨ Done c
  acks : AcksSound c.tcp.remoteStart c.log

/-- The part of it that is about numbers: `remote_seq` and what repeats it. -/
structure Numbered (c : Cell) : Prop where
  seq : c.tcp.remoteSeq = c.tcp.remoteStart +
    BitVec.ofNat 32 (syns c.log + (accepted c.log).length + fins c.log)
  acks : AcksSound c.tcp.remoteStart c.log

namespace Numbered

theorem quiet (h : Numbered c) (hQuiet : Quiet c d) : Numbered d := by
  constructor
  · rw [hQuiet.remoteSeq, hQuiet.remoteStart, syns_quiet hQuiet, accepted_quiet hQuiet,
      fins_quiet hQuiet]
    exact h.seq
  · rw [hQuiet.remoteStart, acksSound_quiet _ hQuiet]
    exact h.acks

/-- An acknowledgement of what was counted, or of one less. -/
theorem call_tun (h : Numbered c) (hSyns : syns c.log ≤ 1) (packet : TcpPacket) (whole : Bool)
    (hAck : packet.ack = true →
      packet.ackSeq = c.tcp.remoteSeq ∨ packet.ackSeq + 1 = c.tcp.remoteSeq) :
    Numbered (c.call (.tun packet whole)) := by
  refine ⟨by simpa [accepted] using h.seq, ?_, h.acks⟩
  intro hFlag
  have hSeq := h.seq
  rw [Cell.call_tcp]
  unfold SerialNumber.ahead
  -- At most the SYN is not counted, and a keep alive steps one back.
  rcases hAck hFlag with hAck | hAck <;> bv_omega

theorem afterWrite (h : Numbered c) (hSyns : syns c.log ≤ 1) (packet : TcpPacket) (whole : Bool)
    (hAck : packet.ack = true →
      packet.ackSeq = c.tcp.remoteSeq ∨ packet.ackSeq + 1 = c.tcp.remoteSeq) :
    Numbered (afterWrite c packet whole) := by
  have hCall := h.call_tun hSyns packet whole hAck
  cases whole with
  | false => exact ⟨hCall.seq, hCall.acks⟩
  | true => exact hCall

theorem countSyn (h : Numbered c) : Numbered c.countSyn := by
  refine ⟨?_, trivial, h.acks⟩
  simp only [Cell.countSyn_tcp, Cell.countSyn_log, syns_cons, fins_cons, accepted, h.seq]
  rw [if_pos trivial, if_neg (by decide)]
  bv_omega

theorem countFin (h : Numbered c) : Numbered c.countFin := by
  refine ⟨?_, trivial, h.acks⟩
  simp only [Cell.countFin_tcp, Cell.countFin_log, syns_cons, fins_cons, accepted, h.seq]
  rw [if_pos trivial, if_neg (by decide)]
  bv_omega

theorem close (h : Numbered c) : Numbered (closeSocket c) :=
  ⟨by simpa [closeSocket, accepted] using h.seq, trivial, h.acks⟩

/-- The SYN-ACK and the reset in `TCP_LISTEN` acknowledge the SYN they count. -/
theorem synCounted (h : Numbered c) (hSyns : syns c.log + 1 ≤ 1) (next : TcpState)
    (packet : TcpPacket) (whole : Bool) (hAck : packet.ackSeq = c.tcp.remoteSeq + 1) :
    Numbered ((c.countSyn.call (.tun packet whole)).setState next) := by
  have hCall := h.countSyn.call_tun (by simpa using hSyns) packet whole fun _ => Or.inl hAck
  exact ⟨hCall.seq, hCall.acks⟩

/-- The acknowledgement of a FIN, in whatever state the session is left. -/
theorem finCounted (h : Numbered c) (hSyns : syns c.log ≤ 1) (next : TcpState)
    (packet : TcpPacket) (whole : Bool) (hAck : packet.ackSeq = c.tcp.remoteSeq + 1) :
    Numbered ((c.countFin.call (.tun packet whole)).setState next) := by
  have hCall := h.countFin.call_tun (by simpa using hSyns) packet whole fun _ => Or.inl hAck
  exact ⟨hCall.seq, hCall.acks⟩

theorem writeRst (h : Numbered c) (hSyns : syns (writeRst K c).log ≤ 1) :
    Numbered (writeRst K c) := by
  by_cases hState : c.tcp.state = .listen
  · rw [writeRst_of_listen K c hState] at hSyns ⊢
    exact h.synCounted (by simpa using hSyns) _ _ _ rfl
  · rw [writeRst_of_ne_listen K c hState] at hSyns ⊢
    have hBefore : syns c.log ≤ 1 := by split_ifs at hSyns <;> simpa using hSyns
    have hCall := h.call_tun hBefore (buildTcp c.tcp [] false false false true) (K.tunWrite c.calls)
      fun hFlag => by cases hFlag
    split_ifs
    · exact hCall
    · exact ⟨hCall.seq, hCall.acks⟩

end Numbered

/-- Outside port 80 a turn hands the rest of the head to `send()`, and counts
what is taken of it. -/
theorem accepted_sentOn {seg : Segment} (hPort : c.tcp.dest ≠ 80) {count : Nat}
    (hAnswer : K.send c.calls = .accepted count) :
    accepted (sentOn K seg c).log = accepted c.log ++ seg.rest.take (counted K seg c) := by
  have hRequest : forwardRequest K c seg = seg.rest := by rw [forwardRequest, if_neg hPort]
  rw [counted_of_accepted hAnswer]
  simp [sentOn, accepted, sendAnswer, hRequest, hAnswer, SendResult.clamp, SendResult.count]

/-- A turn of the forward loop counts what `send()` took. -/
theorem Numbered.forward (h : Numbered c) {seg : Segment} (rest : List Segment)
    (hNext : seg.seq + BitVec.ofNat 32 seg.sent = c.tcp.remoteSeq) (hPort : c.tcp.dest ≠ 80)
    {count : Nat} (hAnswer : K.send c.calls = .accepted count) :
    Numbered (forwardTurn K seg rest c).1 := by
  have hSeq := h.seq
  have hLength : (accepted (sentOn K seg c).log).length =
      (accepted c.log).length + counted K seg c := by
    have hCounted := counted_le K seg c
    simp [accepted_sentOn hPort hAnswer, hCounted]
  have hSent : ∀ queue, Numbered ((sentOn K seg c).setForward queue) := by
    intro queue
    refine ⟨?_, trivial, h.acks⟩
    simp only [Cell.setForward_tcp, Cell.setForward_log, hLength]
    simp only [sentOn, Cell.call_tcp, Cell.call_log, syns_cons, fins_cons, reduceCtorEq, if_false]
    bv_omega
  rw [forwardTurn_eq]
  split_ifs
  · exact hSent rest
  · exact hSent _

/-- A move keeps the numbers, where the SYN was counted at most once. -/
theorem Numbered.move (h : Numbered c) (hPort : c.tcp.dest ≠ 80)
    (hSend : ∀ t ∈ turns s (K, i), ∀ errno, K.send t.calls ≠ .error errno)
    (hBefore : syns c.log ≤ 1) (hSyns : syns d.log ≤ 1) (hMove : Move K i s c d) : Numbered d := by
  cases hMove with
  | quiet hSilent => exact h.quiet hSilent.toQuiet
  | write back fin whole hBack hOpen =>
      apply h.afterWrite hBefore
      intro _
      rcases hBack with rfl | rfl <;> simp [buildTcp]
  | relay bytes =>
      obtain ⟨e, whole, hFirst, hAfter⟩ := relay_quiet (K := K) bytes c (readSize c.tcp)
      have hSame : syns e.log ≤ 1 := (syns_quiet hFirst).le.trans hBefore
      exact ((h.quiet hFirst).afterWrite hSame _ whole fun _ => Or.inl rfl).quiet hAfter
  | reset => exact h.writeRst hSyns
  | synAck ev whole =>
      cases whole with
      | false => exact h.synCounted (by simpa [Tun2Http.afterWrite] using hSyns) _ _ false rfl
      | true => exact h.synCounted (by simpa [Tun2Http.afterWrite] using hSyns) _ _ true rfl
  | forward seg rest hTurn hQueue hNext =>
      cases hAnswer : K.send c.calls with
      | error errno => exact absurd hAnswer (hSend c hTurn errno)
      | accepted count => exact h.forward rest hNext hPort hAnswer
  | confirmFin => exact h.countFin
  | queue => exact ⟨h.seq, h.acks⟩
  | finQueued => exact ⟨h.seq, h.acks⟩
  | fin next whole =>
      cases whole with
      | false => exact h.finCounted hBefore _ _ false rfl
      | true => exact h.finCounted hBefore _ _ true rfl
  | establish => exact ⟨h.seq, h.acks⟩
  | lastAck => exact ⟨h.seq, h.acks⟩
  | abort => exact ⟨h.seq, h.acks⟩
  | connect => exact ⟨h.seq, h.acks⟩
  | reply => exact ⟨h.seq, h.acks⟩
  | shutdown next => exact Numbered.close (c := c.setState next) ⟨h.seq, h.acks⟩
  | closeSocket => exact h.close
  | closed => exact ⟨h.seq, h.acks⟩

/-- A move keeps the count, where `send()` takes what the loop hands it and
the SYN is not counted again. -/
theorem Counting.move (h : Counting c) (hLife : Lifecycle c) (hPort : c.tcp.dest ≠ 80)
    (hSend : ∀ t ∈ turns s (K, i), ∀ errno, K.send t.calls ≠ .error errno)
    (hOnce : ¬ CountsAgain s (K, i)) (hMove : Move K i s c d) : Counting d := by
  have hSyn : SynOnce d := SynOnce.move ⟨h.syns, h.listen⟩ hOnce hMove
  have hFin : FinOnce d := FinOnce.move ⟨h.fins, h.done⟩ hLife hMove
  have hNumbered : Numbered d :=
    Numbered.move ⟨h.seq, h.acks⟩ hPort hSend h.syns hSyn.syns hMove
  exact ⟨hNumbered.seq, hSyn.syns, hSyn.listen, hFin.fins, hFin.done, hNumbered.acks⟩

end Tun2Http
