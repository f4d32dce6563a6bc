import Tun2Http.Tcp.Lifecycle
import Tun2Http.Tcp.Retransmission

/-! Acknowledgements of the server's data. `handle_tcp` orders them by
`compare_u32`, which cuts the circle of sequence numbers at `0x80000000`
instead of measuring from `acked`. -/
namespace Tun2Http

open Machine Machine.SerialNumber

/-- The number stored as acknowledged, or `none` where the session is reset. -/
def ackDecision (acked localSeq ackSeq : U32) : Option U32 :=
  if ackSeq = localSeq then some ackSeq
  else if ackSeq + 1 = localSeq then some acked
  else if compareU32 ackSeq localSeq < 0 then
    if compareU32 ackSeq acked ≤ 0 then some acked else some ackSeq
  else none

/-- What an acknowledgement may do: what lies in flight is not refused, what
lies past it is, and the acknowledged number moves forward within it. -/
structure DecisionSound (acked localSeq ackSeq : U32) (decision : Option U32) : Prop where
  within : ahead acked ackSeq ≤ ahead acked localSeq → decision ≠ none
  past : Before localSeq ackSeq → decision = none
  forward : ¬ Before (decision.getD acked) acked
  bound : ¬ Before localSeq (decision.getD acked)

/-- Where the signed order does not mislead the handler. With the cut between
`acked` and `localSeq` it refuses what comes before the cut; otherwise it takes
what lies past `localSeq` and the cut for something old. -/
def AckDecided (acked localSeq ackSeq : U32) : Prop :=
  if localSeq.toInt < acked.toInt then ackSeq.toInt < acked.toInt ∨ ackSeq + 1 = localSeq
  else ackSeq.toInt < localSeq.toInt → ¬ Before localSeq ackSeq ∧
    ¬ (ahead localSeq ackSeq = 2 ^ 31 ∧ acked + 1 = localSeq)

instance (acked localSeq ackSeq : U32) : Decidable (AckDecided acked localSeq ackSeq) :=
  inferInstanceAs (Decidable (if localSeq.toInt < acked.toInt then
      ackSeq.toInt < acked.toInt ∨ ackSeq + 1 = localSeq
    else ackSeq.toInt < localSeq.toInt → ¬ Before localSeq ackSeq ∧
      ¬ (ahead localSeq ackSeq = 2 ^ 31 ∧ acked + 1 = localSeq)))

section

variable {acked localSeq ackSeq : U32}

/-- Everything sent is acknowledged. -/
theorem ackDecided_exact (hFlight : ahead acked localSeq ≤ 2 ^ 30) :
    DecisionSound acked localSeq localSeq (some localSeq) ∧ AckDecided acked localSeq localSeq := by
  have hBack := ahead_cases acked localSeq acked
  have hSelf := ahead_self acked
  refine ⟨⟨by simp, fun h => absurd h (before_irrefl _), ?_, before_irrefl _⟩, ?_⟩
  · simp only [Option.getD_some, Before]
    omega
  · unfold AckDecided
    split_ifs with hCut
    · exact Or.inl hCut
    · exact fun h => absurd h (lt_irrefl _)

/-- One less is a keep alive. -/
theorem ackDecided_keepAlive (hFlight : ahead acked localSeq ≤ 2 ^ 30)
    (hKeepAlive : ackSeq + 1 = localSeq) :
    DecisionSound acked localSeq ackSeq (some acked) ∧ AckDecided acked localSeq ackSeq := by
  have hOne := add_one_eq_iff.mp hKeepAlive
  have hPast : ¬ Before localSeq ackSeq := by
    have hFuture := ahead_cases ackSeq localSeq ackSeq
    have hSelf := ahead_self ackSeq
    unfold Before
    omega
  refine ⟨⟨by simp, fun h => absurd h hPast, before_irrefl _, ?_⟩, ?_⟩
  · have hBack := ahead_cases acked localSeq acked
    have hSelf := ahead_self acked
    simp only [Option.getD_some, Before]
    omega
  · unfold AckDecided
    split_ifs with hCut
    · exact Or.inr hKeepAlive
    · refine fun _ => ⟨hPast, fun h => ?_⟩
      have hSame : acked = ackSeq := by
        have hEq := h.2.trans hKeepAlive.symm
        bv_omega
      have hFuture := ahead_cases ackSeq localSeq ackSeq
      have hSelf := ahead_self ackSeq
      omega

/-- A repeated acknowledgement changes nothing. -/
theorem ackDecided_repeated_iff (hFlight : ahead acked localSeq ≤ 2 ^ 30)
    (hPast : compareU32 ackSeq localSeq < 0) (hRepeated : compareU32 ackSeq acked ≤ 0) :
    DecisionSound acked localSeq ackSeq (some acked) ↔ AckDecided acked localSeq ackSeq := by
  have hBack : ¬ Before localSeq acked := by
    have hSelf := ahead_self acked
    have hCases := ahead_cases acked localSeq acked
    unfold Before
    omega
  have hSound : DecisionSound acked localSeq ackSeq (some acked) ↔ ¬ Before localSeq ackSeq :=
    ⟨fun h hBefore => by simpa using h.past hBefore,
      fun h => ⟨by simp, fun hBefore => absurd hBefore h, before_irrefl _, hBack⟩⟩
  rw [hSound]
  rw [compareU32_neg_iff, toInt_lt_iff] at hPast
  rw [compareU32_nonpos_iff, toInt_lt_iff, ← @ahead_inj 0x80000000] at hRepeated
  have hAckedLt := ahead_lt 0x80000000 acked
  have hLocalLt := ahead_lt 0x80000000 localSeq
  have hAckLt := ahead_lt 0x80000000 ackSeq
  have hLocal := ahead_cases 0x80000000 acked localSeq
  have hFuture := ahead_cases 0x80000000 localSeq ackSeq
  have hOld := ahead_cases 0x80000000 ackSeq acked
  unfold AckDecided Before
  simp only [toInt_lt_iff, add_one_eq_iff]
  split_ifs <;> omega

/-- A previous acknowledgement is stored. -/
theorem ackDecided_previous_iff (hFlight : ahead acked localSeq ≤ 2 ^ 30)
    (hPast : compareU32 ackSeq localSeq < 0) (hNew : ¬ compareU32 ackSeq acked ≤ 0) :
    DecisionSound acked localSeq ackSeq (some ackSeq) ↔ AckDecided acked localSeq ackSeq := by
  have hSound : DecisionSound acked localSeq ackSeq (some ackSeq) ↔
      ¬ Before localSeq ackSeq ∧ ¬ Before ackSeq acked :=
    ⟨fun h => ⟨h.bound, h.forward⟩,
      fun h => ⟨by simp, fun hBefore => absurd hBefore h.1, h.2, h.1⟩⟩
  rw [hSound]
  rw [compareU32_neg_iff, toInt_lt_iff] at hPast
  rw [compareU32_nonpos_iff, toInt_lt_iff, ← @ahead_inj 0x80000000] at hNew
  have hAckedLt := ahead_lt 0x80000000 acked
  have hLocalLt := ahead_lt 0x80000000 localSeq
  have hAckLt := ahead_lt 0x80000000 ackSeq
  have hLocal := ahead_cases 0x80000000 acked localSeq
  have hFuture := ahead_cases 0x80000000 localSeq ackSeq
  have hOld := ahead_cases 0x80000000 ackSeq acked
  have hDistance := ahead_cases 0x80000000 ackSeq localSeq
  unfold AckDecided Before
  simp only [toInt_lt_iff, add_one_eq_iff]
  split_ifs <;> omega

/-- A future acknowledgement is refused. -/
theorem ackDecided_future_iff (hFlight : ahead acked localSeq ≤ 2 ^ 30)
    (hExact : ackSeq ≠ localSeq) (hKeepAlive : ackSeq + 1 ≠ localSeq)
    (hFuture : ¬ compareU32 ackSeq localSeq < 0) :
    DecisionSound acked localSeq ackSeq none ↔ AckDecided acked localSeq ackSeq := by
  have hBack : ¬ Before localSeq acked := by
    have hSelf := ahead_self acked
    have hCases := ahead_cases acked localSeq acked
    unfold Before
    omega
  have hSound : DecisionSound acked localSeq ackSeq none ↔
      ¬ ahead acked ackSeq ≤ ahead acked localSeq :=
    ⟨fun h hWithin => h.within hWithin rfl,
      fun h => ⟨fun hWithin => absurd hWithin h, fun _ => rfl, before_irrefl _, hBack⟩⟩
  rw [hSound]
  rw [compareU32_neg_iff, toInt_lt_iff] at hFuture
  rw [← (@ahead_inj 0x80000000 _ _).ne] at hExact
  have hAckedLt := ahead_lt 0x80000000 acked
  have hLocalLt := ahead_lt 0x80000000 localSeq
  have hAckLt := ahead_lt 0x80000000 ackSeq
  have hLocal := ahead_cases 0x80000000 acked localSeq
  have hAck := ahead_cases 0x80000000 acked ackSeq
  have hBeyond := ahead_cases 0x80000000 localSeq ackSeq
  have hDistance := ahead_cases 0x80000000 ackSeq localSeq
  unfold AckDecided Before
  simp only [toInt_lt_iff, hKeepAlive, or_false]
  split_ifs <;> omega

/-- The handler decides as it should exactly where the cut does not mislead it. -/
theorem decisionSound_iff (hFlight : ahead acked localSeq ≤ 2 ^ 30) :
    DecisionSound acked localSeq ackSeq (ackDecision acked localSeq ackSeq) ↔
      AckDecided acked localSeq ackSeq := by
  unfold ackDecision
  by_cases hExact : ackSeq = localSeq
  · subst hExact
    rw [if_pos rfl]
    exact iff_of_true (ackDecided_exact hFlight).1 (ackDecided_exact hFlight).2
  by_cases hKeepAlive : ackSeq + 1 = localSeq
  · rw [if_neg hExact, if_pos hKeepAlive]
    have hBoth := ackDecided_keepAlive hFlight hKeepAlive
    exact iff_of_true hBoth.1 hBoth.2
  rw [if_neg hExact, if_neg hKeepAlive]
  by_cases hPast : compareU32 ackSeq localSeq < 0
  · rw [if_pos hPast]
    by_cases hRepeated : compareU32 ackSeq acked ≤ 0
    · rw [if_pos hRepeated]
      exact ackDecided_repeated_iff hFlight hPast hRepeated
    · rw [if_neg hRepeated]
      exact ackDecided_previous_iff hFlight hPast hRepeated
  · rw [if_neg hPast]
    exact ackDecided_future_iff hFlight hExact hKeepAlive hPast

end

/-- What a segment with ACK may do to a session: it resets what acknowledges
more than was sent, and nothing else, and the acknowledged number moves
forward within what was sent. -/
structure AckSafe (ackSeq : U32) (c d : Cell) : Prop where
  within : ahead c.tcp.acked ackSeq ≤ ahead c.tcp.acked c.tcp.localSeq →
    d.tcp.state = c.tcp.state ∧ resets d.log = resets c.log
  past : Before c.tcp.localSeq ackSeq → d.tcp.state = .closing ∧ resets d.log = resets c.log + 1
  forward : ¬ Before d.tcp.acked c.tcp.acked
  bound : ¬ Before d.tcp.localSeq d.tcp.acked

/-- The session follows a decision: it stores the number, or is reset. -/
structure Follows (decision : Option U32) (c d : Cell) : Prop where
  localSeq : d.tcp.localSeq = c.tcp.localSeq
  acked : d.tcp.acked = decision.getD c.tcp.acked
  state : d.tcp.state = if decision = none then .closing else c.tcp.state
  resets : resets d.log = Tun2Http.resets c.log + if decision = none then 1 else 0

variable {K : Kernel} {hdr : TcpHdr} {data : Payload} {c d e : Cell}

/-- A session that follows a decision is as safe as the decision. -/
theorem Follows.safe_iff {ackSeq : U32} {decision : Option U32} (h : Follows decision c d) :
    AckSafe ackSeq c d ↔ DecisionSound c.tcp.acked c.tcp.localSeq ackSeq decision := by
  obtain ⟨hLocal, hAcked, hNext, hResets⟩ := h
  constructor
  · intro hSafe
    refine ⟨fun hWithin hNone => ?_, fun hPast => ?_, hAcked ▸ hSafe.forward, ?_⟩
    · have hSame := (hSafe.within hWithin).2
      rw [hResets, if_pos hNone] at hSame
      omega
    · by_contra hSome
      have hMore := (hSafe.past hPast).2
      rw [hResets, if_neg hSome] at hMore
      omega
    · rw [← hAcked, ← hLocal]
      exact hSafe.bound
  · intro hSound
    refine ⟨fun hWithin => ?_, fun hPast => ?_, ?_, ?_⟩
    · rw [hNext, hResets, if_neg (hSound.within hWithin), if_neg (hSound.within hWithin)]
      exact ⟨rfl, rfl⟩
    · rw [hNext, hResets, if_pos (hSound.past hPast), if_pos (hSound.past hPast)]
      exact ⟨rfl, rfl⟩
    · rw [hAcked]
      exact hSound.forward
    · rw [hAcked, hLocal]
      exact hSound.bound

/-- The flags of a plain acknowledgement in `TCP_ESTABLISHED` follow the decision. -/
theorem follows_handleFlags (hState : c.tcp.state = .established) (hAck : hdr.ack = true)
    (hSyn : hdr.syn = false) (hFin : hdr.fin = false) (hRst : hdr.rst = false) :
    Follows (ackDecision c.tcp.acked c.tcp.localSeq hdr.ackSeq) c (handleFlags K hdr c) := by
  have hFlags : handleFlags K hdr c =
      if hdr.ackSeq = c.tcp.localSeq then handleAck hdr.ackSeq c
      else handleOtherAck K hdr.ackSeq c := by
    simp [handleFlags, hRst, hAck, hSyn, hFin]
  rw [hFlags]
  unfold ackDecision
  by_cases hExact : hdr.ackSeq = c.tcp.localSeq
  · rw [if_pos hExact, if_pos hExact, handleAck]
    simp only [hState]
    exact ⟨rfl, rfl, hState.symm, rfl⟩
  rw [if_neg hExact, if_neg hExact]
  unfold handleOtherAck
  by_cases hKeepAlive : hdr.ackSeq + 1 = c.tcp.localSeq
  · rw [if_pos hKeepAlive, if_pos hKeepAlive, if_pos hState]
    exact ⟨rfl, rfl, rfl, by simp [Io.isReset]⟩
  rw [if_neg hKeepAlive, if_neg hKeepAlive]
  by_cases hPast : compareU32 hdr.ackSeq c.tcp.localSeq < 0
  · rw [if_pos hPast, if_pos hPast]
    by_cases hRepeated : compareU32 hdr.ackSeq c.tcp.acked ≤ 0
    · rw [if_pos hRepeated, if_pos hRepeated]
      exact ⟨rfl, rfl, rfl, rfl⟩
    · rw [if_neg hRepeated, if_neg hRepeated]
      exact ⟨rfl, rfl, rfl, rfl⟩
  · rw [if_neg hPast, if_neg hPast, writeRst_of_ne_listen K c (by simp [hState]),
      if_neg (by simp [hState])]
    exact ⟨rfl, rfl, rfl, by simp [Io.isReset, buildTcp]⟩

/-- Refreshing the clock and the window, queueing data and storing a host name
leave what a decision looks at alone. -/
theorem Follows.of_same {decision : Option U32} (h : Follows decision d e)
    (hLocal : d.tcp.localSeq = c.tcp.localSeq) (hAcked : d.tcp.acked = c.tcp.acked)
    (hState : d.tcp.state = c.tcp.state) (hResets : Tun2Http.resets d.log = Tun2Http.resets c.log) :
    Follows decision c e := by
  obtain ⟨h1, h2, h3, h4⟩ := h
  exact ⟨h1.trans hLocal, hAcked ▸ h2, hState ▸ h3, hResets ▸ h4⟩

theorem queueTcp_numbers (hdr : TcpHdr) (data : Payload) (c : Cell) :
    (queueTcp hdr data c).tcp.localSeq = c.tcp.localSeq ∧
      (queueTcp hdr data c).tcp.acked = c.tcp.acked := by
  unfold queueTcp
  split_ifs <;> exact ⟨rfl, rfl⟩

theorem follows_handleSegment (hState : c.tcp.state = .established) (hSocket : 0 ≤ c.socket)
    (hAck : hdr.ack = true) (hSyn : hdr.syn = false) (hFin : hdr.fin = false)
    (hRst : hdr.rst = false) :
    Follows (ackDecision c.tcp.acked c.tcp.localSeq hdr.ackSeq) c (handleSegment K hdr data c) := by
  have hRefreshed : (refresh K hdr c).tcp.state = .established := hState
  have hLog : resets (refresh K hdr c).log = resets c.log := by simp [refresh, Io.isReset]
  unfold handleSegment
  dsimp only
  split_ifs with hData hClosed hWait
  · exact absurd hClosed (not_lt.mpr hSocket)
  · rw [hRefreshed] at hWait
    cases hWait
  · obtain ⟨hLocal, hAcked⟩ := queueTcp_numbers hdr data (refresh K hdr c)
    have hQueued : (queueTcp hdr data (refresh K hdr c)).tcp.state = .established := by
      rw [queueTcp_state, hRefreshed]
    have hFollows := follows_handleFlags (K := K) hQueued hAck hSyn hFin hRst
    rw [hLocal, hAcked] at hFollows
    exact hFollows.of_same hLocal hAcked (queueTcp_state _ _ _) (by rw [queueTcp_log, hLog])
  · exact (follows_handleFlags (K := K) hRefreshed hAck hSyn hFin hRst).of_same rfl rfl rfl hLog

/-- A session in `TCP_ESTABLISHED` follows the decision, on any port. -/
theorem follows_step (hLife : Lifecycle c) (hDescriptor : Descriptor c)
    (hState : c.tcp.state = .established) (hUrg : hdr.urg = false) (hAck : hdr.ack = true)
    (hSyn : hdr.syn = false) (hFin : hdr.fin = false) (hRst : hdr.rst = false) :
    Follows (ackDecision c.tcp.acked c.tcp.localSeq hdr.ackSeq) c
      (step c (K, .segment hdr data)) := by
  have hSocket : 0 ≤ c.socket := hDescriptor.nonneg (by simp [hState])
  have hOpen : ¬ (c.tcp.state = .closing ∨ c.tcp.state = .close) := by simp [hState]
  unfold step
  dsimp only
  rw [existingSession, if_neg (by simp [hUrg])]
  by_cases hPort : c.tcp.dest = 443
  · have hTunnel := hLife.tunnel hPort (Or.inl hState)
    have hNamed := silent_storeHostname (connectHost data.val c) c
    have hNumbers : (storeHostname (connectHost data.val c) c).tcp.localSeq = c.tcp.localSeq ∧
        (storeHostname (connectHost data.val c) c).tcp.acked = c.tcp.acked := by
      unfold storeHostname
      split_ifs <;> exact ⟨rfl, rfl⟩
    rw [if_pos hPort, connectPhase_of_tried K data (by simp [hTunnel]), tunnelSegment,
      if_neg (by simp [hNamed.connectSent, hTunnel]), if_neg (by rwa [hNamed.state])]
    have hFollows := @follows_handleSegment K hdr data _ (hNamed.state.trans hState)
      (hNamed.socket ▸ hSocket) hAck hSyn hFin hRst
    rw [hNumbers.1, hNumbers.2] at hFollows
    exact hFollows.of_same hNumbers.1 hNumbers.2 hNamed.state (resets_quiet hNamed.toQuiet)
  · rw [if_neg hPort, tunnelSegment, if_neg (fun h => hPort h.1), if_neg hOpen]
    exact follows_handleSegment hState hSocket hAck hSyn hFin hRst

/-- An acknowledgement is handled as it should be in exactly these cases. A
segment with URG is dropped, which is wrong only for what lies past
`local_seq`. -/
theorem ack_safe_iff (hReachable : Reachable c) (hState : c.tcp.state = .established)
    (hFlight : ahead c.tcp.acked c.tcp.localSeq ≤ 2 ^ 30) (hAck : hdr.ack = true)
    (hSyn : hdr.syn = false) (hFin : hdr.fin = false) (hRst : hdr.rst = false) :
    AckSafe hdr.ackSeq c (step c (K, .segment hdr data)) ↔
      if hdr.urg then ¬ Before c.tcp.localSeq hdr.ackSeq
      else AckDecided c.tcp.acked c.tcp.localSeq hdr.ackSeq := by
  by_cases hUrg : hdr.urg = true
  · rw [if_pos hUrg]
    have hDropped : step c (K, .segment hdr data) = c := by
      simp [step, existingSession, hUrg]
    rw [hDropped]
    constructor
    · intro hSafe hPast
      have hMore := (hSafe.past hPast).2
      omega
    · intro hPast
      refine ⟨fun _ => ⟨rfl, rfl⟩, fun h => absurd h hPast, before_irrefl _, ?_⟩
      have hBack := ahead_cases c.tcp.acked c.tcp.localSeq c.tcp.acked
      have hSelf := ahead_self c.tcp.acked
      unfold Before
      omega
  · rw [if_neg hUrg, ← decisionSound_iff hFlight]
    exact (follows_step hReachable.lifecycle hReachable.descriptor hState (by simpa using hUrg)
      hAck hSyn hFin hRst).safe_iff

/-- The handshake of the client on port 22, with `start` for the first number
of the server's side, and 32 bytes that the server sends. -/
def downloadRun (start : U32) : List (Kernel × Input) :=
  [(.willing, .event { epollout := true }),
    (.willing, .segment (clientSegment 22 1 (start + 1)) .empty),
    (.willing, .monitor),
    ({ Kernel.willing with recv := fun _ => .data (List.replicate 32 120) },
      .event { epollin := true })]

/-- The session whose server side starts at `start`. -/
def clientCellAt (start : U32) : Cell :=
  (newSession { Kernel.willing with rand := fun _ => start } clientInfo (clientSyn 22) .empty).get rfl

theorem reachable_download (start : U32) :
    Reachable (run step (clientCellAt start) (downloadRun start)) :=
  ⟨_, _, _, _, _, downloadRun start, (Option.some_get _).symm, rfl⟩

/-- Far from the cut, half of the data is acknowledged. -/
theorem ack_safe_iff_download :
    AckSafe (clientSegment 22 1 1017).ackSeq (run step (clientCellAt 1000) (downloadRun 1000))
      (step (run step (clientCellAt 1000) (downloadRun 1000))
        (.willing, .segment (clientSegment 22 1 1017) .empty)) :=
  (ack_safe_iff (reachable_download 1000) (by decide) (by decide) rfl rfl rfl rfl).mpr (by decide)

/-- With the cut in flight the acknowledgement of a byte before it resets the session. -/
theorem ack_unsafe : ∃ c hdr, Reachable c ∧ c.tcp.state = .established ∧
    ahead c.tcp.acked c.tcp.localSeq ≤ 2 ^ 30 ∧
    hdr.ack = true ∧ hdr.syn = false ∧ hdr.fin = false ∧ hdr.rst = false ∧ hdr.urg = false ∧
    ahead c.tcp.acked hdr.ackSeq ≤ ahead c.tcp.acked c.tcp.localSeq ∧
    (step c (.willing, .segment hdr .empty)).tcp.state = .closing ∧
    ¬ AckSafe hdr.ackSeq c (step c (.willing, .segment hdr .empty)) := by
  refine ⟨_, clientSegment 22 1 0x7FFFFFF8, reachable_download 0x7FFFFFEF, by decide, by decide,
    rfl, rfl, rfl, rfl, rfl, by decide, by decide, fun h => ?_⟩
  have hState := (h.within (by decide)).1
  revert hState
  decide

end Tun2Http
