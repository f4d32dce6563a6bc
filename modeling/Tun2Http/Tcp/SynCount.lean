import Tun2Http.Machine.Stream
import Tun2Http.Tcp.Acknowledgement
import Tun2Http.Tcp.Silence
import Tun2Http.Tcp.Upstream

/-! The SYN of the client is counted once: `remote_seq` is the start of the
stream, the client's bytes that the socket took, one for the SYN once it was
answered and one for the FIN once it was counted. `TCP_LISTEN` is entered
twice in a proxied session, and nothing in the source tells the visits apart. -/
namespace Tun2Http

open Machine Machine.Stream

/-- How many bytes of the client a turn brings to the socket: all the rest of
the segment with a request that was taken whole, and otherwise as many as
begin what was taken. The two differ where the request line was rewritten. -/
def clientTaken (K : Kernel) (seg : Segment) (c : Cell) : Nat :=
  let request := forwardRequest K c seg
  let took := (sendAnswer K seg c).count
  if took = request.length then seg.unsent else agreement (request.take took) seg.rest

/-- The client bytes that the socket took in a turn. -/
def heardTurn (K : Kernel) (t : Cell) : Nat :=
  match t.tcp.forward with
  | [] => 0
  | seg :: _ => clientTaken K seg t

/-- The client bytes that the socket took in a step. -/
def heardStep (c : Cell) (input : Kernel × Input) : Nat :=
  ((turns c input).map (heardTurn input.1)).sum

/-- The client bytes that the socket took in a run. -/
def heard : Cell → List (Kernel × Input) → Nat
  | _, [] => 0
  | c, input :: rest => heardStep c input + heard (step c input) rest

/-- A segment that acknowledges the SYN: a SYN-ACK, or a reset with an ACK. -/
def Io.answersSyn : Io → Bool
  | .tun packet _ => packet.ack && (packet.syn || packet.rst)
  | _ => false

/-- The states in which the handshake was begun. -/
def Begun (c : Cell) : Prop :=
  c.tcp.state = .synRecv ∨ c.tcp.state = .established ∨ c.tcp.state = .closeWait ∨
    c.tcp.state = .finWait1 ∨ c.tcp.state = .lastAck

instance (c : Cell) : Decidable (Begun c) :=
  inferInstanceAs (Decidable (_ ∨ _ ∨ _ ∨ _ ∨ _))

/-- The SYN was processed or rejected. -/
def SynHandled (c : Cell) : Prop := (∃ entry ∈ c.log, entry.answersSyn = true) ∨ Begun c

instance (c : Cell) : Decidable (SynHandled c) := inferInstanceAs (Decidable (_ ∨ _))

/-- One for the FIN, once it was counted. -/
def finCount (c : Cell) : Nat := if fins c.log = 0 then 0 else 1

/-- Where the run left `remote_seq`. -/
def Accounted (start : Cell) (inputs : List (Kernel × Input)) : Prop :=
  let c := run step start inputs
  c.tcp.remoteSeq - c.tcp.remoteStart =
    BitVec.ofNat 32 (heard start inputs + (if SynHandled c then 1 else 0) + finCount c)

instance (start : Cell) (inputs : List (Kernel × Input)) : Decidable (Accounted start inputs) :=
  inferInstanceAs (Decidable (_ = _))

/-- Every segment of the run that acknowledges, but for the probes of the
monitor, acknowledges the next byte that the client has not got through. -/
def AcksNext (start : Cell) (inputs : List (Kernel × Input)) : Prop :=
  ∀ first input rest, inputs = first ++ input :: rest → input.2 ≠ .monitor →
    let c := run step start first
    let d := step c input
    ∀ entries, d.log = entries ++ c.log → ∀ packet whole, .tun packet whole ∈ entries →
      packet.ack = true → packet.ackSeq =
        d.tcp.remoteStart + BitVec.ofNat 32 (heard start (first ++ [input]) + 1 + finCount d)

/-- What the turn counts is what the client gets through: a rewritten request
is taken whole, or as far as it repeats the client. -/
def CountsHeard (K : Kernel) (t : Cell) : Prop :=
  ∀ seg rest, t.tcp.forward = seg :: rest →
    let request := forwardRequest K t seg
    let took := (sendAnswer K seg t).count
    took = request.length ∨ request.take (min took seg.unsent) <+: seg.rest

/-- Every turn of the step is taken, and counts what the client gets through. -/
def TurnsHeard (c : Cell) (input : Kernel × Input) : Prop :=
  SendsTaken c input ∧ ∀ t ∈ turns c input, CountsHeard input.1 t

/-- The proxy accepts a CONNECT that was sent before the SYN was answered. -/
def OpensUncounted (c : Cell) (input : Kernel × Input) : Prop :=
  syns c.log = 0 ∧ c.tcp.state = .listen ∧ c.tcp.connectSent = .sent ∧
    ∃ ev, input.2 = .event ev ∧ ev.epollerr = false ∧ ev.epollin = true ∧ Accepts input.1 c

/-- A session that closed before the SYN was answered acknowledges data. -/
def AcksUncounted (c : Cell) (input : Kernel × Input) : Prop :=
  syns c.log = 0 ∧ Closed c ∧ Speaks c input

/-- The step counts the SYN when it is answered, and client bytes when they are taken. -/
structure CountsOnce (c : Cell) (input : Kernel × Input) : Prop where
  turns : TurnsHeard c input
  again : ¬ CountsAgain c input
  opens : ¬ OpensUncounted c input
  acks : ¬ AcksUncounted c input

variable {K : Kernel} {i : Input} {s c d : Cell}

/-- A turn that was taken counts what the client gets through. -/
theorem counted_eq_clientTaken {seg : Segment} {rest : List Segment}
    (hQueue : c.tcp.forward = seg :: rest) (hSend : ∀ errno, K.send c.calls ≠ .error errno)
    (hHeard : CountsHeard K c) : counted K seg c = clientTaken K seg c := by
  cases hAnswer : K.send c.calls with
  | error errno => exact absurd hAnswer (hSend errno)
  | accepted count =>
      obtain ⟨hShort, -⟩ := length_forwardRequest K c seg
      have hTook : (sendAnswer K seg c).count = min count (forwardRequest K c seg).length := by
        simp [sendAnswer, hAnswer, SendResult.clamp, SendResult.count]
      have hCounted : counted K seg c = min (sendAnswer K seg c).count seg.unsent := by
        rw [counted_of_accepted hAnswer, hTook]
        omega
      have hCases := hHeard seg rest hQueue
      dsimp only at hCases
      unfold clientTaken
      dsimp only
      rw [hCounted]
      generalize (sendAnswer K seg c).count = took at hTook hCases
      by_cases hAll : took = (forwardRequest K c seg).length
      · rw [if_pos hAll, hAll, Nat.min_eq_right hShort]
      · rw [if_neg hAll]
        have hPrefix := hCases.resolve_left hAll
        obtain ⟨hLeft, hRight⟩ := agreement_le ((forwardRequest K c seg).take took) seg.rest
        rw [Segment.length_rest] at hRight
        rw [List.length_take] at hLeft
        have hAgree : min took seg.unsent ≤
            agreement ((forwardRequest K c seg).take took) seg.rest := by
          apply le_agreement
          · rw [List.length_take]
            omega
          · rwa [List.take_take, Nat.min_eq_left (Nat.min_le_left _ _)]
        omega

/-- Of such turns a step counts what it brings to the socket. -/
theorem countedStep_eq_heardStep {input : Kernel × Input} (hHeard : TurnsHeard c input) :
    countedStep c input = heardStep c input := by
  unfold countedStep heardStep
  congr 1
  apply List.map_congr_left
  intro t ht
  obtain ⟨-, seg, rest, hQueue, -⟩ := turns_head ht
  rw [countedTurn, heardTurn, hQueue]
  exact counted_eq_clientTaken hQueue (hHeard.1 t ht) (hHeard.2 t ht)

/-- Outside port 80 the request is the client's own text. -/
theorem countsHeard_of_port {input : Kernel × Input} (hPort : c.tcp.dest ≠ 80)
    (ht : d ∈ turns c input) : CountsHeard input.1 d := by
  intro seg rest hQueue
  right
  rw [forwardRequest, if_neg (by rwa [(turns_head ht).1])]
  exact List.take_prefix ..

/-- Nor does anything but a step of the loop move `remote_seq` past the SYN and the FIN. -/
theorem remoteSeq_step (c : Cell) (input : Kernel × Input) :
    (step c input).tcp.remoteSeq + BitVec.ofNat 32 (syns c.log + fins c.log) =
      c.tcp.remoteSeq +
        BitVec.ofNat 32 (countedStep c input + syns (step c input).log + fins (step c input).log) := by
  obtain ⟨K, i⟩ := input
  by_cases hInput : i = .monitor
  · subst hInput
    obtain ⟨hSeq, hCalls⟩ := monitor_probes K c
    have hSyns : syns (step c (K, .monitor)).log = syns c.log :=
      hCalls.log_eq syns fun entry log hEntry => by cases entry <;> simp_all [Io.acks, Io.probes]
    have hFins : fins (step c (K, .monitor)).log = fins c.log :=
      hCalls.log_eq fins fun entry log hEntry => by cases entry <;> simp_all [Io.acks, Io.probes]
    rw [hSeq, hSyns, hFins]
    simp [countedStep, turns]
  · obtain ⟨b, hAsks, m, e, hTaken, hRepeats, queue, hEq⟩ := answers_step c K hInput
    have hAsked := hTaken.remoteSeq
    rw [hAsks.remoteSeq, hAsks.syns, hAsks.fins] at hAsked
    rw [hEq, Cell.setForward_tcp, Cell.setForward_log, hRepeats.remoteSeq, hRepeats.syns, hRepeats.fins]
    exact hAsked

/-- Along a run the counts add up. -/
theorem remoteSeq_run (c : Cell) (inputs : List (Kernel × Input))
    (hRun : Along step TurnsHeard c inputs) :
    (run step c inputs).tcp.remoteSeq + BitVec.ofNat 32 (syns c.log + fins c.log) =
      c.tcp.remoteSeq + BitVec.ofNat 32 (heard c inputs + syns (run step c inputs).log +
        fins (run step c inputs).log) := by
  induction inputs generalizing c with
  | nil => simp [heard]
  | cons input rest ih =>
      have hStep := remoteSeq_step c input
      have hRest := ih (step c input) hRun.2
      rw [countedStep_eq_heardStep hRun.1] at hStep
      rw [run_cons, heard]
      bv_omega

/-! Which calls answer the SYN. -/

/-- How often the SYN was answered. -/
def answered (log : List Io) : Nat := log.countP Io.answersSyn

@[simp] theorem answered_cons (entry : Io) (log : List Io) :
    answered (entry :: log) = answered log + if entry.answersSyn then 1 else 0 :=
  List.countP_cons ..

theorem answered_pos_iff (log : List Io) :
    0 < answered log ↔ ∃ entry ∈ log, entry.answersSyn = true := List.countP_pos_iff

theorem answered_quiet (h : Quiet c d) : answered d.log = answered c.log :=
  h.log_eq answered fun entry log hEntry => by cases entry <;> simp_all [Io.quiet, Io.answersSyn]

/-- The SYN was answered as often as it was counted. -/
def AnsweredCounted (c : Cell) : Prop := answered c.log = syns c.log

theorem AnsweredCounted.quiet (h : AnsweredCounted c) (hQuiet : Quiet c d) : AnsweredCounted d := by
  unfold AnsweredCounted
  rw [answered_quiet hQuiet, syns_quiet hQuiet]
  exact h

theorem AnsweredCounted.afterWrite (h : AnsweredCounted c) {packet : TcpPacket} (whole : Bool)
    (hPacket : packet.syn = false ∧ packet.rst = false) :
    AnsweredCounted (afterWrite c packet whole) := by
  unfold AnsweredCounted at h ⊢
  simpa [Io.answersSyn, hPacket.1, hPacket.2] using h

theorem AnsweredCounted.writeRst (h : AnsweredCounted c) : AnsweredCounted (writeRst K c) := by
  unfold AnsweredCounted at h ⊢
  by_cases hState : c.tcp.state = .listen
  · rw [writeRst_of_listen K c hState]
    simpa [Io.answersSyn, buildTcp] using h
  · rw [writeRst_of_ne_listen K c hState]
    split_ifs <;> simpa [Io.answersSyn, buildTcp] using h

/-- Every move answers the SYN where it counts it. -/
theorem AnsweredCounted.move (h : AnsweredCounted c) (hMove : Move K i s c d) :
    AnsweredCounted d := by
  cases hMove with
  | quiet hSilent => exact h.quiet hSilent.toQuiet
  | write => exact h.afterWrite _ ⟨rfl, rfl⟩
  | relay bytes =>
      obtain ⟨e, whole, hBefore, hAfter⟩ := relay_quiet (K := K) bytes c (readSize c.tcp)
      exact ((h.quiet hBefore).afterWrite whole ⟨rfl, rfl⟩).quiet hAfter
  | reset => exact h.writeRst
  | synAck ev whole =>
      unfold AnsweredCounted at h ⊢
      cases whole <;> simpa [Tun2Http.afterWrite, Io.answersSyn, buildTcp] using h
  | forward seg rest =>
      unfold AnsweredCounted at h ⊢
      rw [forwardTurn_eq]
      split_ifs <;> simpa [sentOn, Io.answersSyn] using h
  | confirmFin => simpa [AnsweredCounted, Io.answersSyn] using h
  | fin next whole =>
      unfold AnsweredCounted at h ⊢
      cases whole <;> simpa [Tun2Http.afterWrite, Io.answersSyn, buildTcp] using h
  | shutdown => simpa [AnsweredCounted, Tun2Http.closeSocket, Io.answersSyn] using h
  | closeSocket => simpa [AnsweredCounted, Tun2Http.closeSocket, Io.answersSyn] using h
  | _ => exact h

theorem AnsweredCounted.step (h : AnsweredCounted c) (input : Kernel × Input) :
    AnsweredCounted (Tun2Http.step c input) :=
  moves_invariant (step_moves c input.1 input.2) h fun _ _ hInv hMove => hInv.move hMove

/-! Which states a step leads to. -/

/-- No handshake is under way. -/
def Unbegun (c : Cell) : Prop := c.tcp.state = .listen ∨ Closed c

theorem Unbegun.not_begun (h : Unbegun c) : ¬ Begun c := by
  unfold Begun
  rcases h with hState | hState | hState <;> simp [hState]

theorem unbegun_of_not_begun (hLife : Lifecycle c) (hNot : ¬ Begun c) : Unbegun c := by
  have hSet := hLife.set
  unfold Begun at hNot
  unfold Unbegun Closed
  revert hSet hNot
  cases c.tcp.state <;> simp

theorem Unbegun.of_state (h : Unbegun c) (hState : d.tcp.state = c.tcp.state) : Unbegun d := by
  unfold Unbegun Closed at h ⊢
  rwa [hState]

theorem unbegun_writeRst (K : Kernel) (c : Cell) : Unbegun (writeRst K c) := by
  unfold Unbegun Closed
  rw [writeRst_state]
  split_ifs
  · exact Or.inr (Or.inr rfl)
  · exact Or.inr (Or.inl rfl)

theorem Frame.unbegun {seq : U32} (h : Frame seq c d) (hNot : Unbegun c) : Unbegun d :=
  h.state.elim hNot.of_state Or.inr

/-- No flags begin a handshake. -/
theorem unbegun_handleFlags (hdr : TcpHdr) (h : Unbegun c) : Unbegun (handleFlags K hdr c) := by
  have hFin : handleFin K c = c := by
    unfold handleFin
    rcases h with hState | hState | hState <;> rw [hState]
  have hAck : handleAck hdr.ackSeq c = { c with tcp := { c.tcp with acked := hdr.ackSeq } } := by
    unfold handleAck
    dsimp only
    rcases h with hState | hState | hState <;> rw [hState]
  have hOther : Unbegun (handleOtherAck K hdr.ackSeq c) :=
    handleOtherAck_keeps h h (fun _ => h) (unbegun_writeRst K c)
  apply handleFlags_keeps h (Or.inr (Or.inl rfl))
  · rwa [hFin]
  · intro _ _
    rw [hAck]
    exact h
  · exact hOther

theorem unbegun_segment (hdr : TcpHdr) (data : Payload) (h : Unbegun c) :
    Unbegun (existingSession K c.tcp.dest hdr data c) := by
  have hTunnel : ∀ d, Unbegun d → Unbegun (tunnelSegment K c.tcp.dest hdr data d) := by
    intro d hd
    apply tunnelSegment_keeps hd (Unbegun.of_state (c := d) hd rfl)
    · exact fun e he => he.of_state (queueTcp_state ..)
    · exact fun e _ => unbegun_writeRst K e
    · exact fun e he => unbegun_handleFlags hdr he
  unfold existingSession
  split_ifs
  · exact h
  · apply hTunnel
    rcases connectPhase_cases (K := K) data c with ⟨-, hQuiet⟩ | hFailed | hConnected
    · exact h.of_state hQuiet.state
    · obtain ⟨d, -, -, -, hEq⟩ := hFailed
      rw [hEq]
      exact unbegun_writeRst K d
    · obtain ⟨d, count, -, -, -, -, hEq⟩ := hConnected
      rw [hEq]
      exact Or.inl rfl
  · exact hTunnel c h

/-- What an event does to a closing session leaves it closing. -/
theorem closing_socketReady (hState : c.tcp.state = .closing) (ev : EpollEvents) :
    (socketReady K ev c).tcp.state = .closing := by
  have hBefore : (beforeRead K ev c).tcp.state = .closing := by
    apply beforeRead_keeps (P := fun d => d.tcp.state = .closing) hState
    · exact (forwardData_state K c).trans hState
    · intro d h
      simpa [storeWindow] using h
    · exact fun fwd d h => acknowledge_state h fwd
  rw [socketReady_eq, hBefore, if_neg (by decide), hBefore]

/-- Of the twelve bytes read in `TCP_LISTEN` only the accepting answer begins one. -/
theorem begun_listenReceived {ev : EpollEvents} (hListen : c.tcp.state = .listen)
    (hError : ¬ ev.epollerr = true) (hRead : ev.epollin = true)
    (hNot : ¬ Unbegun (listenReceived K (recvFrom K c 12).2 (recvFrom K c 12).1)) :
    syns (listenReceived K (recvFrom K c 12).2 (recvFrom K c 12).1).log ≠ 0 ∨
      OpensUncounted c (K, .event ev) := by
  have hSame : (recvFrom K c 12).1.tcp = c.tcp := rfl
  cases hAnswer : K.recv c.calls with
  | error errno =>
      have hResult : (recvFrom K c 12).2 = .error errno := by simp [recvFrom, hAnswer]
      rw [hResult, listenReceived] at hNot
      exact absurd (unbegun_writeRst K _) hNot
  | data bytes =>
      have hResult : (recvFrom K c 12).2 = .data (bytes.take 12) := by simp [recvFrom, hAnswer]
      rw [hResult] at hNot ⊢
      simp only [listenReceived, hSame] at hNot ⊢
      split_ifs at hNot ⊢ with hSent hAccepts
      · by_cases hSyns : syns c.log = 0
        · exact Or.inr ⟨hSyns, hListen, hSent, ev, rfl, by simpa using hError, hRead, bytes, hAnswer,
            hAccepts⟩
        · refine Or.inl ?_
          simpa [recvFrom] using hSyns
      · exact absurd (unbegun_writeRst K _) hNot
      · exact absurd (Or.inl hListen) hNot

/-- A segment, a monitor pass or a check begins no handshake. -/
theorem unbegun_step (h : Unbegun c) (hInput : ∀ ev, i ≠ .event ev) : Unbegun (step c (K, i)) := by
  cases i with
  | segment hdr data => exact unbegun_segment hdr data h
  | event ev => exact absurd rfl (hInput ev)
  | monitor =>
      unfold step
      dsimp only
      split_ifs
      · have hWanted := (frame_wantedEvents K c).unbegun h
        unfold monitorTcpSession
        dsimp only
        split_ifs
        · exact hWanted
        · exact Or.inr (Or.inl rfl)
        · exact hWanted
      · exact h
  | check sessions maxsessions =>
      exact (frame_checkTcpSession K 0 sessions maxsessions c).unbegun h
  | allowed => exact checkAllowed_keeps h (unbegun_writeRst K c)

/-- Only the SYN-ACK, or the proxy's answer to a CONNECT, begins a handshake. -/
theorem begun_step (hLife : Lifecycle c) (h : Unbegun c) (input : Kernel × Input)
    (hBegun : Begun (step c input)) :
    syns (step c input).log ≠ 0 ∨ OpensUncounted c input := by
  have hNot : ¬ Unbegun (step c input) := fun hUnbegun => hUnbegun.not_begun hBegun
  obtain ⟨K, i⟩ := input
  cases i with
  | segment hdr data => exact absurd (unbegun_step h (by simp)) hNot
  | monitor => exact absurd (unbegun_step h (by simp)) hNot
  | check sessions maxsessions => exact absurd (unbegun_step h (by simp)) hNot
  | allowed => exact absurd (unbegun_step h (by simp)) hNot
  | event ev =>
      unfold step at hNot ⊢
      dsimp only at hNot ⊢
      split_ifs at hNot ⊢ with hSocket
      · unfold checkTcpSocket at hNot ⊢
        split_ifs at hNot ⊢ with hError hListen
        · exact absurd (unbegun_writeRst K _) hNot
        · unfold socketListen at hNot ⊢
          split_ifs at hNot ⊢ with hRead
          · exact begun_listenReceived hListen hError hRead hNot
          · refine Or.inl ?_
            simp only [writeSynAck, writeOrClose_eq]
            split_ifs <;> simp
        · have hState := (h.resolve_left hListen).resolve_right (hLife.not_close (Or.inr hSocket))
          exact absurd (Or.inr (Or.inl (closing_socketReady hState ev))) hNot
      · exact absurd h hNot

/-- What is known of the SYN between the steps of a run whose stream starts at `base`. -/
structure SynKnown (base : U32) (c : Cell) : Prop where
  life : Lifecycle c
  start : c.tcp.remoteStart = base
  syn : SynOnce c
  fin : FinOnce c
  answered : AnsweredCounted c
  begun : Begun c → syns c.log ≠ 0

theorem syns_step_le (c : Cell) (input : Kernel × Input) :
    syns c.log ≤ syns (step c input).log := by
  obtain ⟨entries, hLog⟩ := step_log c input
  rw [hLog, syns, syns, List.count_append]
  exact Nat.le_add_left ..

theorem SynKnown.step {base : U32} (h : SynKnown base c) {input : Kernel × Input}
    (hAgain : ¬ CountsAgain c input) (hOpens : ¬ OpensUncounted c input) :
    SynKnown base (Tun2Http.step c input) := by
  have hMoved := moves_invariant
    (I := fun d => (Lifecycle d ∧ d.tcp.remoteStart = base) ∧ SynOnce d ∧ FinOnce d)
    (step_moves c input.1 input.2) ⟨⟨h.life, h.start⟩, h.syn, h.fin⟩ fun a b hInv hMove =>
      ⟨⟨hInv.1.1.move hMove, (move_fixed hMove).2.trans hInv.1.2⟩,
        hInv.2.1.move hAgain hMove, hInv.2.2.move hInv.1.1 hMove⟩
  refine ⟨hMoved.1.1, hMoved.1.2, hMoved.2.1, hMoved.2.2, h.answered.step input, fun hBegun => ?_⟩
  by_cases hBefore : Begun c
  · have hSyns := h.begun hBefore
    have hMore := syns_step_le c input
    omega
  · have hUnbegun := unbegun_of_not_begun h.life hBefore
    exact (begun_step h.life hUnbegun input hBegun).resolve_right hOpens

/-- A new session has answered nothing. -/
theorem synKnown_newSession {info : SynInfo} {hdr : TcpHdr} {data : Payload}
    (hNew : newSession K info hdr data = some c) : SynKnown c.tcp.remoteStart c := by
  obtain ⟨hSyn, hFin⟩ := once_newSession hNew
  obtain ⟨-, hLog, window, hTcp⟩ := newSession_eq hNew
  refine ⟨lifecycle_newSession hNew, rfl, hSyn, hFin, ?_, fun hBegun => ?_⟩
  · simp [AnsweredCounted, hLog, answered, syns, Io.answersSyn]
  · exact absurd hBegun (Unbegun.not_begun (Or.inl (by rw [hTcp]; rfl)))

/-- The SYN was counted once exactly where it was handled. -/
theorem SynKnown.syns_eq {base : U32} (h : SynKnown base c) :
    syns c.log = if SynHandled c then 1 else 0 := by
  have hSyns := h.syn.syns
  have hAnswered := h.answered
  unfold AnsweredCounted at hAnswered
  split_ifs with hHandled
  · have hSome : syns c.log ≠ 0 := by
      rcases hHandled with hAnswer | hBegun
      · have hPos := (answered_pos_iff c.log).mpr hAnswer
        omega
      · exact h.begun hBegun
    omega
  · have hNone : ¬ 0 < Tun2Http.answered c.log := fun hPos =>
      hHandled (Or.inl ((answered_pos_iff c.log).mp hPos))
    omega

theorem SynKnown.fins_eq {base : U32} (h : SynKnown base c) : fins c.log = finCount c := by
  have hFins := h.fin.fins
  unfold finCount
  split_ifs <;> omega

/-- A session that did not answer the SYN says nothing. -/
theorem voice_unhandled {base : U32} (h : SynKnown base c) (hInput : i ≠ .monitor)
    (hAcks : ¬ AcksUncounted c (K, i)) (hHandled : ¬ SynHandled (step c (K, i))) :
    voice (step c (K, i)).log = voice c.log := by
  have hNone : answered (step c (K, i)).log = 0 := by
    by_contra hSome
    exact hHandled (Or.inl ((answered_pos_iff _).mp (by omega)))
  have hSyns : syns c.log = 0 := by
    have hSame := h.answered.step (K, i)
    have hMore := syns_step_le c (K, i)
    unfold AnsweredCounted at hSame
    omega
  have hUnbegun := unbegun_of_not_begun h.life fun hBegun => h.begun hBegun hSyns
  rcases hUnbegun with hListen | hClosed
  · cases i with
    | segment hdr data => exact voice_segment (Or.inl hListen) hdr data
    | monitor => exact absurd rfl hInput
    | check sessions maxsessions => exact voice_check sessions maxsessions c
    | allowed => exact checkAllowed_keeps (P := fun d => voice d.log = voice c.log) rfl (voice_writeRst K c)
    | event ev =>
        unfold step at hNone ⊢
        dsimp only at hNone ⊢
        split_ifs at hNone ⊢
        · unfold checkTcpSocket at hNone ⊢
          split_ifs at hNone ⊢
          · rw [voice_writeRst, voice_quiet (silent_touch K c).toQuiet]
          · unfold socketListen at hNone ⊢
            split_ifs at hNone ⊢
            · have hRecv : voice (recvFrom K c 12).1.log = voice c.log :=
                voice_quiet (quiet_recvFrom K c 12)
              unfold listenReceived
              dsimp only
              split
              · rw [voice_writeRst, hRecv]
              · split_ifs
                · simpa [Io.isVoice] using hRecv
                · rw [voice_writeRst, hRecv]
                · exact hRecv
            · simp only [writeSynAck, writeOrClose_eq] at hNone
              split_ifs at hNone <;> simp [Io.answersSyn, buildTcp] at hNone
        · rfl
  · exact (mute_step_iff h.life hClosed (K, i)).mpr fun hSpeaks => hAcks ⟨hSyns, hClosed, hSpeaks⟩

/-- What a step acknowledges, it acknowledges with the SYN. -/
theorem SynKnown.acks {base : U32} (h : SynKnown base c) (hInput : i ≠ .monitor)
    (hAcks : ¬ AcksUncounted c (K, i)) {entries : List Io}
    (hLog : (Tun2Http.step c (K, i)).log = entries ++ c.log) {packet : TcpPacket} {whole : Bool}
    (hEntry : .tun packet whole ∈ entries) (hAck : packet.ack = true) :
    SynHandled (Tun2Http.step c (K, i)) ∧
      packet.ackSeq = (Tun2Http.step c (K, i)).tcp.remoteSeq := by
  constructor
  · by_contra hHandled
    have hVoice := voice_unhandled h hInput hAcks hHandled
    rw [hLog, voice, voice, List.countP_append] at hVoice
    have hMute : ¬ Io.isVoice (.tun packet whole) = true :=
      List.countP_eq_zero.mp (by omega) _ hEntry
    refine hHandled (Or.inl ⟨.tun packet whole, ?_, ?_⟩)
    · rw [hLog]
      exact List.mem_append_left _ hEntry
    · simp_all [Io.isVoice, Io.answersSyn]
  · obtain ⟨b, hAsks, m, e, hTaken, hRepeats, queue, hEq⟩ := answers_step c K hInput
    obtain ⟨first, hFirst, hFirstLog⟩ := hAsks.calls
    obtain ⟨second, hSecond, hSecondLog⟩ := hTaken.calls
    obtain ⟨third, hThird, hThirdLog⟩ := hRepeats.calls
    have hSplit : entries = third ++ (second ++ first) := by
      apply @List.append_cancel_right _ _ c.log
      rw [← hLog, hEq, Cell.setForward_log, hThirdLog, hSecondLog, hFirstLog, List.append_assoc,
        List.append_assoc]
    rw [hSplit] at hEntry
    rw [hEq, Cell.setForward_tcp, hRepeats.remoteSeq]
    rcases List.mem_append.mp hEntry with hMem | hMem
    · exact hThird _ hMem hAck
    · rcases List.mem_append.mp hMem with hMem | hMem
      · exact (hSecond _ hMem).elim
      · obtain ⟨request, result, hConnect⟩ := hFirst _ hMem
        cases hConnect

/-- In every run that counts the SYN where it is answered and client bytes
where they are taken, `remote_seq` adds up, and so do the acknowledgements. -/
theorem syn_counted_once {info : SynInfo} {hdr : TcpHdr} {data : Payload} {start : Cell}
    (hNew : newSession K info hdr data = some start) (inputs : List (Kernel × Input))
    (hRun : Along step CountsOnce start inputs) :
    Accounted start inputs ∧ AcksNext start inputs := by
  have hStart := synKnown_newSession hNew
  obtain ⟨-, hStartLog, window, hTcp⟩ := newSession_eq hNew
  have hKnown : ∀ inputs, Along step CountsOnce start inputs →
      SynKnown start.tcp.remoteStart (run step start inputs) := fun inputs hRun =>
    run_invariant hStart hRun fun c input hc hOk => hc.step hOk.again hOk.opens
  have hAccounted : ∀ inputs, Along step CountsOnce start inputs → Accounted start inputs := by
    intro inputs hRun
    have hEnd := hKnown inputs hRun
    have hSum := remoteSeq_run start inputs (hRun.imp fun _ _ hOk => hOk.turns)
    have hFirst : start.tcp.remoteSeq = start.tcp.remoteStart := by rw [hTcp]; rfl
    have hNone : syns start.log + fins start.log = 0 := by simp [hStartLog, syns, fins]
    unfold Accounted
    dsimp only
    rw [hNone, hEnd.syns_eq, hEnd.fins_eq, hFirst] at hSum
    rw [hEnd.start]
    bv_omega
  refine ⟨hAccounted inputs hRun, ?_⟩
  intro first input rest hSplit hInput
  subst hSplit
  intro c d entries hLog packet whole hEntry hAck
  rw [along_append] at hRun
  have hBefore := hKnown first hRun.1
  have hTaken : Along step CountsOnce start (first ++ [input]) :=
    along_append.mpr ⟨hRun.1, hRun.2.1, trivial⟩
  have hSum := hAccounted _ hTaken
  obtain ⟨hHandled, hSeq⟩ := hBefore.acks hInput hRun.2.1.acks hLog hEntry hAck
  have hHere : run step start (first ++ [input]) = d := by rw [run_append]; rfl
  unfold Accounted at hSum
  rw [hHere] at hSum
  dsimp only at hSum
  rw [if_pos hHandled] at hSum
  rw [hSeq, ← hSum]
  show d.tcp.remoteSeq = d.tcp.remoteStart + (d.tcp.remoteSeq - d.tcp.remoteStart)
  bv_omega

/-- The handshake and two bytes on port 22, which the socket takes. -/
theorem syn_counted_once_upload :
    let inputs := uploadRun ++ [(.willing, .event { epollout := true })]
    Accounted (clientCell 22 .empty) inputs ∧ AcksNext (clientCell 22 .empty) inputs := by
  apply syn_counted_once (newSession_client 22 .empty) _
  have hOpen : ∀ {c input}, input.1 = .willing → c.tcp.dest = 22 → c.tcp.connectSent = .notSent →
      (syns c.log = 0 ∨ c.tcp.state ≠ .listen) → ¬ Closed c → CountsOnce c input := by
    intro c input hKernel hPort hSent hListen hClosed
    refine ⟨⟨fun t _ errno hError => ?_, fun t ht => countsHeard_of_port (by simp [hPort]) ht⟩,
      fun h => hListen.elim h.1 fun hState => hState h.2.1, fun h => ?_, fun h => hClosed h.2.1⟩
    · rw [hKernel] at hError
      cases hError
    · have hReply := h.2.2.1
      simp [hSent] at hReply
  refine ⟨hOpen rfl rfl rfl ?_ ?_, hOpen rfl rfl rfl ?_ ?_, hOpen rfl rfl rfl ?_ ?_,
    hOpen rfl rfl rfl ?_ ?_, trivial⟩ <;> decide

/-- A CONNECT that the proxy refuses: the reset counts the SYN a second time. -/
theorem syn_counted_twice : ∃ inputs, Along step SendsTaken (clientCell 443 .empty) inputs ∧
    ¬ Accounted (clientCell 443 .empty) inputs := by
  let refusal : RecvResult :=
    .data (ascii ['H', 'T', 'T', 'P', '/', '1', '.', '0', ' ', '4', '0', '3'])
  refine ⟨[(.willing, .event { epollout := true }),
    (.willing, .segment (clientSegment 443 1 1001) .empty),
    ({ Kernel.willing with recv := fun _ => refusal }, .event { epollin := true })],
    ⟨?_, ?_, ?_, trivial⟩, by decide⟩ <;>
  exact fun _ _ _ h => by cases h

end Tun2Http
