import Tun2Http.Native.TcpMoves

/-! A second copy of a segment. Whether it leaves the session alone is decided
by what the handlers look at before they compare sequence numbers. -/
namespace Tun2Http

open Machine

/-- The entry is a reset written to the tun. -/
def Io.isReset : Io → Bool
  | .tun packet _ => packet.rst
  | _ => false

/-- How many resets were written. -/
def resets (log : List Io) : Nat := log.countP Io.isReset

@[simp] theorem resets_cons (entry : Io) (log : List Io) :
    resets (entry :: log) = resets log + if entry.isReset then 1 else 0 := List.countP_cons ..

/-- From `c` to `d` nothing was reset, and only the clock and the send window
of the session were refreshed. -/
structure Harmless (c d : Cell) : Prop where
  tcp : d.tcp = { c.tcp with time := d.tcp.time, sendWindow := d.tcp.sendWindow }
  socket : d.socket = c.socket
  events : d.events = c.events
  resets : resets d.log = resets c.log

/-- The walk through the queue ends at a segment that already has the data. -/
def Held (hdr : TcpHdr) (data : Payload) : List Segment → Prop
  | [] => False
  | s :: rest =>
      if compareU32 s.seq hdr.seq < 0 then Held hdr data rest
      else s.seq = hdr.seq ∧ (data.val.length ≤ s.len ∨ s.data = data.val)

/-- The data was forwarded before, or is queued. -/
def Known (hdr : TcpHdr) (data : Payload) (t : TcpSession) : Prop :=
  compareU32 hdr.seq t.remoteSeq < 0 ∨ Held hdr data t.forward

/-- The flags of the segment have nothing left to do in the session. -/
def FlagsDone (hdr : TcpHdr) (t : TcpSession) : Prop :=
  if ¬hdr.ack ∨ hdr.ackSeq = t.localSeq then
    hdr.syn = true ∨
      if hdr.fin then t.state ≠ .established ∧ t.state ≠ .finWait1
      else hdr.ack = true → t.acked = hdr.ackSeq ∧ t.state ≠ .synRecv ∧ t.state ≠ .lastAck
  else hdr.ackSeq + 1 = t.localSeq ∨
    (compareU32 hdr.ackSeq t.localSeq < 0 ∧ compareU32 hdr.ackSeq t.acked ≤ 0)

/-- What the session must be like for the segment to be ignored: no CONNECT to
send, the same host name, data that is known and not refused for the state,
and flags that are done. -/
def Ignored (hdr : TcpHdr) (data : Payload) (c : Cell) : Prop :=
  (c.tcp.dest = 443 → c.tcp.connectSent ≠ .notSent ∧ connectHost data.val c = c.tcp.hostname) ∧
    if c.tcp.dest = 443 ∧ c.tcp.connectSent ≠ .established then Known hdr data c.tcp
    else
      (data.val ≠ [] → 0 ≤ c.socket ∧ c.tcp.state ≠ .closeWait ∧ Known hdr data c.tcp) ∧
        FlagsDone hdr c.tcp

namespace Harmless

variable {c d : Cell}

theorem state (h : Harmless c d) : d.tcp.state = c.tcp.state := by rw [h.tcp]
theorem remoteSeq (h : Harmless c d) : d.tcp.remoteSeq = c.tcp.remoteSeq := by rw [h.tcp]
theorem acked (h : Harmless c d) : d.tcp.acked = c.tcp.acked := by rw [h.tcp]
theorem forward (h : Harmless c d) : d.tcp.forward = c.tcp.forward := by rw [h.tcp]
theorem hostname (h : Harmless c d) : d.tcp.hostname = c.tcp.hostname := by rw [h.tcp]
theorem connectSent (h : Harmless c d) : d.tcp.connectSent = c.tcp.connectSent := by rw [h.tcp]

theorem refl (c : Cell) : Harmless c c := ⟨rfl, rfl, rfl, rfl⟩

end Harmless

variable {K : Kernel} {hdr : TcpHdr} {data : Payload} {c d : Cell}

theorem replaceData_eq_iff {s : Segment} (h : s.len < data.val.length) :
    s.replaceData data h = s ↔ s.data = data.val := by
  cases s
  simp only [Segment.replaceData, Segment.mk.injEq, true_and]
  exact eq_comm

/-- The queue stays as it was exactly where the walk ends at the data. -/
theorem insertSegment_eq_iff (queue : List Segment) :
    insertSegment hdr data queue = queue ↔ Held hdr data queue := by
  induction queue with
  | nil => simp [insertSegment, Held]
  | cons s rest ih =>
      unfold insertSegment Held
      split_ifs with hBefore hAfter hSeq hSame hSmaller
      · simpa using ih
      · have hNe : s.seq ≠ hdr.seq := fun h => by simp [h] at hAfter
        refine iff_of_false (fun h => ?_) (fun h => hNe h.1)
        simpa using congrArg List.length h
      · simp [hSeq, hSame]
      · simp [hSeq, replaceData_eq_iff, not_le.mpr hSmaller]
      · simp [hSeq, not_lt.mp hSmaller]
      · exact absurd (compareU32_eq_zero_iff.mp (by omega)) hSeq

theorem queueTcp_known (hKnown : Known hdr data c.tcp) : queueTcp hdr data c = c := by
  unfold queueTcp
  split_ifs with hSeq
  · rfl
  · rw [insertSegment_eq_iff _ |>.mpr (hKnown.resolve_left hSeq)]
    rfl

theorem known_of_forward (hForward : (queueTcp hdr data c).tcp.forward = c.tcp.forward) :
    Known hdr data c.tcp := by
  unfold queueTcp at hForward
  split_ifs at hForward with hSeq
  · exact Or.inl hSeq
  · exact Or.inr ((insertSegment_eq_iff _).mp hForward)

theorem resets_writeRst (K : Kernel) (c : Cell) :
    resets (writeRst K c).log = resets c.log + 1 := by
  by_cases hState : c.tcp.state = .listen
  · simp [writeRst_of_listen K c hState, Io.isReset, buildTcp]
  · rw [writeRst_of_ne_listen K c hState]
    split_ifs <;> simp [Io.isReset, buildTcp]

/-- A reset does harm. -/
theorem not_harmless_writeRst (h : Harmless c d) : ¬ Harmless c (writeRst K d) := by
  intro hReset
  have hMore := hReset.resets
  rw [resets_writeRst, h.resets] at hMore
  omega

/-- Counting the FIN does harm, also where its acknowledgement is not written. -/
theorem not_harmless_of_remoteSeq (h : Harmless c d) {e : Cell}
    (hSeq : e.tcp.remoteSeq = d.tcp.remoteSeq + 1) : ¬ Harmless c e := by
  intro hSame
  have hRemote := h.remoteSeq
  rw [← hSame.remoteSeq, hSeq] at hRemote
  bv_omega

/-- A FIN is ignored outside the two states in which it is expected. -/
theorem harmless_handleFin_iff (h : Harmless c d) :
    Harmless c (handleFin K d) ↔ c.tcp.state ≠ .established ∧ c.tcp.state ≠ .finWait1 := by
  rw [← h.state]
  unfold handleFin
  split
  · rename_i hState
    refine iff_of_false ?_ fun hOther => hOther.1 hState
    split_ifs with hQueue
    · apply not_harmless_of_remoteSeq h
      simp only [writeAck, writeOrClose_eq]
      split_ifs <;> simp [afterWrite_tcp]
    · intro hSame
      have hWait := hSame.state
      rw [← h.state, hState] at hWait
      cases hWait
  · rename_i hState
    refine iff_of_false ?_ fun hOther => hOther.2 hState
    apply not_harmless_of_remoteSeq h
    simp only [writeAck, writeOrClose_eq]
    split_ifs <;> simp [afterWrite_tcp]
  · rename_i hEstablished hFinWait
    exact iff_of_true h ⟨hEstablished, hFinWait⟩

theorem harmless_acked_iff (h : Harmless c d) (ackSeq : U32) :
    Harmless c { d with tcp := { d.tcp with acked := ackSeq } } ↔ c.tcp.acked = ackSeq := by
  constructor
  · intro hSame
    exact hSame.acked.symm
  · intro hAcked
    refine ⟨?_, h.socket, h.events, h.resets⟩
    rw [h.tcp, ← hAcked]

theorem harmless_handleAck_iff (h : Harmless c d) (ackSeq : U32) :
    Harmless c (handleAck ackSeq d) ↔
      c.tcp.acked = ackSeq ∧ c.tcp.state ≠ .synRecv ∧ c.tcp.state ≠ .lastAck := by
  rw [← h.state]
  unfold handleAck
  dsimp only
  split
  · rename_i hState
    refine iff_of_false (fun hSame => ?_) fun hOther => hOther.2.1 hState
    have hLater := hSame.state
    rw [← h.state, hState] at hLater
    cases hLater
  · rename_i hState
    refine iff_of_false (fun hSame => ?_) fun hOther => hOther.2.2 hState
    have hLater := hSame.state
    rw [← h.state, hState] at hLater
    cases hLater
  · rename_i hSynRecv hLastAck
    rw [harmless_acked_iff h]
    exact ⟨fun hAcked => ⟨hAcked, hSynRecv, hLastAck⟩, fun hAll => hAll.1⟩

theorem harmless_handleOtherAck_iff (h : Harmless c d) (ackSeq : U32) :
    Harmless c (handleOtherAck K ackSeq d) ↔ ackSeq + 1 = c.tcp.localSeq ∨
      (compareU32 ackSeq c.tcp.localSeq < 0 ∧ compareU32 ackSeq c.tcp.acked ≤ 0) := by
  have hLocal : d.tcp.localSeq = c.tcp.localSeq := by rw [h.tcp]
  unfold handleOtherAck
  rw [hLocal, h.acked]
  by_cases hKeepAlive : ackSeq + 1 = c.tcp.localSeq
  · rw [if_pos hKeepAlive]
    refine iff_of_true ?_ (Or.inl hKeepAlive)
    split_ifs
    · exact ⟨h.tcp, h.socket, h.events, by simpa [Io.isReset] using h.resets⟩
    · exact h
  rw [if_neg hKeepAlive]
  by_cases hPast : compareU32 ackSeq c.tcp.localSeq < 0
  · rw [if_pos hPast]
    by_cases hRepeated : compareU32 ackSeq c.tcp.acked ≤ 0
    · rw [if_pos hRepeated]
      exact iff_of_true h (Or.inr ⟨hPast, hRepeated⟩)
    · rw [if_neg hRepeated, harmless_acked_iff h]
      refine iff_of_false (fun hAcked => ?_) fun hOther =>
        hOther.elim hKeepAlive fun hBoth => hRepeated hBoth.2
      simp [hAcked] at hRepeated
  · rw [if_neg hPast]
    exact iff_of_false (not_harmless_writeRst h) fun hOther =>
      hOther.elim hKeepAlive fun hBoth => hPast hBoth.1

/-- The flags do no harm exactly where they have nothing left to do. -/
theorem harmless_handleFlags_iff (h : Harmless c d) (hRst : hdr.rst = false) :
    Harmless c (handleFlags K hdr d) ↔ FlagsDone hdr c.tcp := by
  have hLocal : d.tcp.localSeq = c.tcp.localSeq := by rw [h.tcp]
  unfold handleFlags FlagsDone
  rw [hLocal, if_neg (by simp [hRst])]
  by_cases hAck : ¬hdr.ack = true ∨ hdr.ackSeq = c.tcp.localSeq
  · rw [if_pos hAck, if_pos hAck]
    by_cases hSyn : hdr.syn = true
    · rw [if_pos hSyn]
      exact iff_of_true h (Or.inl hSyn)
    rw [if_neg hSyn, or_iff_right hSyn]
    by_cases hFin : hdr.fin = true
    · rw [if_pos hFin, if_pos hFin]
      exact harmless_handleFin_iff h
    rw [if_neg hFin, if_neg hFin]
    by_cases hPlain : hdr.ack = true
    · rw [if_pos hPlain, harmless_handleAck_iff h]
      exact ⟨fun hAll _ => hAll, fun hAll => hAll hPlain⟩
    · rw [if_neg hPlain]
      exact iff_of_true h fun hOther => absurd hOther hPlain
  · rw [if_neg hAck, if_neg hAck]
    exact harmless_handleOtherAck_iff h _

theorem writeRst_hostname (c : Cell) : (writeRst K c).tcp.hostname = c.tcp.hostname := by
  by_cases hState : c.tcp.state = .listen
  · simp [writeRst_of_listen K c hState]
  · rw [writeRst_of_ne_listen K c hState]
    split_ifs <;> rfl

theorem handleFin_frame (c : Cell) :
    (handleFin K c).tcp.forward = c.tcp.forward ∧
      (handleFin K c).tcp.hostname = c.tcp.hostname := by
  apply handleFin_keeps (P := fun d => d.tcp.forward = c.tcp.forward ∧
    d.tcp.hostname = c.tcp.hostname) ⟨rfl, rfl⟩
  · simp [writeAck, writeOrClose_eq, afterWrite_tcp]
  · exact fun d next h => h

/-- The flags leave the queue and the host name alone. -/
theorem handleFlags_frame (hdr : TcpHdr) (c : Cell) :
    (handleFlags K hdr c).tcp.forward = c.tcp.forward ∧
      (handleFlags K hdr c).tcp.hostname = c.tcp.hostname := by
  let Same : Cell → Prop := fun d =>
    d.tcp.forward = c.tcp.forward ∧ d.tcp.hostname = c.tcp.hostname
  have hSame : Same c := ⟨rfl, rfl⟩
  have hOther : Same (handleOtherAck K hdr.ackSeq c) :=
    handleOtherAck_keeps hSame hSame (fun _ => hSame) ⟨(writeRst_tcp c).1, writeRst_hostname c⟩
  have hAck : Same (handleAck hdr.ackSeq c) := handleAck_keeps hSame fun d next h => h
  exact handleFlags_keeps hSame hSame (handleFin_frame c) (fun _ _ => hAck) hOther

theorem queueTcp_hostname (hdr : TcpHdr) (data : Payload) (c : Cell) :
    (queueTcp hdr data c).tcp.hostname = c.tcp.hostname := by
  unfold queueTcp
  split_ifs <;> rfl

theorem tunnelSegment_hostname (rport : U16) (c : Cell) :
    (tunnelSegment K rport hdr data c).tcp.hostname = c.tcp.hostname := by
  apply tunnelSegment_keeps (P := fun d => d.tcp.hostname = c.tcp.hostname) rfl rfl
  · exact fun d h => (queueTcp_hostname hdr data d).trans h
  · exact fun d h => (writeRst_hostname d).trans h
  · exact fun d h => (handleFlags_frame hdr d).2.trans h

theorem harmless_refresh (K : Kernel) (hdr : TcpHdr) (h : Harmless c d) :
    Harmless c (refresh K hdr d) := by
  refine ⟨?_, h.socket, h.events, by simpa [refresh, Io.isReset] using h.resets⟩
  simp only [refresh, touch_tcp]
  rw [h.tcp]

theorem harmless_handleSegment_iff (h : Harmless c d) (hRst : hdr.rst = false) :
    Harmless c (handleSegment K hdr data d) ↔
      (data.val ≠ [] → 0 ≤ c.socket ∧ c.tcp.state ≠ .closeWait ∧ Known hdr data c.tcp) ∧
        FlagsDone hdr c.tcp := by
  have hRefresh := harmless_refresh K hdr h
  have hSeq := hRefresh.remoteSeq
  have hForward := hRefresh.forward
  unfold handleSegment
  dsimp only
  by_cases hData : data.val ≠ []
  · rw [if_pos hData, hRefresh.socket, hRefresh.state]
    by_cases hSocket : c.socket < 0
    · rw [if_pos hSocket]
      exact iff_of_false (not_harmless_writeRst hRefresh) fun hAll =>
        not_le.mpr hSocket (hAll.1 hData).1
    rw [if_neg hSocket]
    by_cases hState : c.tcp.state = .closeWait
    · rw [if_pos hState]
      exact iff_of_false (not_harmless_writeRst hRefresh) fun hAll => (hAll.1 hData).2.1 hState
    rw [if_neg hState]
    by_cases hKnown : Known hdr data (refresh K hdr d).tcp
    · rw [queueTcp_known hKnown, harmless_handleFlags_iff hRefresh hRst]
      unfold Known at hKnown ⊢
      rw [hSeq, hForward] at hKnown
      exact ⟨fun hDone => ⟨fun _ => ⟨not_lt.mp hSocket, hState, hKnown⟩, hDone⟩, fun hAll => hAll.2⟩
    · refine iff_of_false (fun hSame => hKnown (known_of_forward ?_)) fun hAll => ?_
      · rw [← (handleFlags_frame (K := K) hdr _).1, hSame.forward, hForward]
      · have hOther := (hAll.1 hData).2.2
        unfold Known at hKnown hOther
        rw [hSeq, hForward] at hKnown
        exact hKnown hOther
  · rw [if_neg hData, harmless_handleFlags_iff hRefresh hRst]
    exact ⟨fun hDone => ⟨fun hSome => absurd hSome hData, hDone⟩, fun hAll => hAll.2⟩

theorem harmless_queueTcp_iff (h : Harmless c d) :
    Harmless c (queueTcp hdr data d) ↔ Known hdr data c.tcp := by
  have hSame : Known hdr data d.tcp ↔ Known hdr data c.tcp := by
    unfold Known
    rw [h.remoteSeq, h.forward]
  rw [← hSame]
  constructor
  · intro hQueued
    exact known_of_forward (hQueued.forward.trans h.forward.symm)
  · intro hKnown
    rwa [queueTcp_known hKnown]

theorem harmless_tunnelSegment_iff (h : Harmless c d) (hRst : hdr.rst = false)
    (hClosing : c.tcp.state ≠ .closing) (hClose : c.tcp.state ≠ .close) :
    Harmless c (tunnelSegment K c.tcp.dest hdr data d) ↔
      if c.tcp.dest = 443 ∧ c.tcp.connectSent ≠ .established then Known hdr data c.tcp
      else
        (data.val ≠ [] → 0 ≤ c.socket ∧ c.tcp.state ≠ .closeWait ∧ Known hdr data c.tcp) ∧
          FlagsDone hdr c.tcp := by
  unfold tunnelSegment
  rw [h.connectSent, h.state]
  split_ifs with hTunnel
  · exact harmless_queueTcp_iff h
  · tauto
  · exact harmless_handleSegment_iff h hRst

theorem resets_quiet (hQuiet : Quiet c d) : resets d.log = resets c.log := by
  apply hQuiet.log_eq resets
  intro entry log hEntry
  cases entry <;> simp_all [Io.quiet, Io.isReset]

@[simp] theorem queueTcp_log (hdr : TcpHdr) (data : Payload) (c : Cell) :
    (queueTcp hdr data c).log = c.log := by
  unfold queueTcp
  split_ifs <;> rfl

/-- Until the CONNECT request was sent, every packet sends it or resets. -/
theorem not_harmless_of_notSent (hPort : c.tcp.dest = 443) (hSent : c.tcp.connectSent = .notSent) :
    ¬ Harmless c (tunnelSegment K c.tcp.dest hdr data (connectPhase K data c)) := by
  intro hSame
  rcases connectPhase_cases (K := K) data c with ⟨hTried, -⟩ | hFailed | hConnected
  · exact hTried hSent
  · obtain ⟨d, hSilent, -, -, hEq⟩ := hFailed
    have hConnect : (writeRst K d).tcp.connectSent ≠ .established := by
      rw [(writeRst_tcp d).2.2.1, hSilent.connectSent, hSent]
      decide
    rw [hEq, tunnelSegment, if_pos ⟨hPort, hConnect⟩] at hSame
    have hResets := hSame.resets
    rw [queueTcp_log, resets_writeRst, resets_quiet hSilent.toQuiet] at hResets
    omega
  · obtain ⟨d, count, -, -, -, -, hEq⟩ := hConnected
    rw [hEq, tunnelSegment, if_pos ⟨hPort, by simp⟩] at hSame
    have hConnect := hSame.connectSent
    rw [queueTcp_connectSent, hSent] at hConnect
    cases hConnect

/-- A segment without URG and RST leaves a session that is not closed alone
exactly where everything in it was dealt with before. -/
theorem retransmission_harmless_iff (hUrg : hdr.urg = false) (hRst : hdr.rst = false)
    (hClosing : c.tcp.state ≠ .closing) (hClose : c.tcp.state ≠ .close) :
    Harmless c (step c (K, .segment hdr data)) ↔ Ignored hdr data c := by
  unfold step Ignored
  dsimp only
  rw [existingSession, if_neg (by simp [hUrg])]
  have hTunnel : Harmless c (tunnelSegment K c.tcp.dest hdr data c) ↔ _ :=
    harmless_tunnelSegment_iff (Harmless.refl c) hRst hClosing hClose
  by_cases hPort : c.tcp.dest = 443
  · rw [if_pos hPort]
    by_cases hSent : c.tcp.connectSent = .notSent
    · exact iff_of_false (not_harmless_of_notSent hPort hSent) fun hAll => (hAll.1 hPort).1 hSent
    rw [connectPhase_of_tried K data hSent, storeHostname, if_pos (connectHost_length_pos _ c)]
    by_cases hHost : connectHost data.val c = c.tcp.hostname
    · rw [hHost, hTunnel]
      exact ⟨fun hRest => ⟨fun _ => ⟨hSent, rfl⟩, hRest⟩, fun hAll => hAll.2⟩
    · refine iff_of_false (fun hSame => hHost ?_) fun hAll => hHost (hAll.1 hPort).2
      have hName := hSame.hostname
      rwa [tunnelSegment_hostname] at hName
  · rw [if_neg hPort, hTunnel]
    exact ⟨fun hRest => ⟨fun hOther => absurd hOther hPort, hRest⟩, fun hAll => hAll.2⟩

/-- A copy of the SYN, before the socket is connected. -/
theorem retransmission_harmless_iff_syn :
    Harmless (clientCell 22 .empty)
        (step (clientCell 22 .empty) (.willing, .segment (clientSyn 22) .empty)) ↔
      Ignored (clientSyn 22) .empty (clientCell 22 .empty) :=
  retransmission_harmless_iff rfl rfl (by decide) (by decide)

/-- Data with a FIN is queued and puts the session in `TCP_CLOSE_WAIT`; its copy
is data after the FIN and resets the session. -/
theorem retransmission_resets : ∃ inputs hdr data,
    hdr.urg = false ∧ hdr.rst = false ∧
      let c := run step (clientCell 22 .empty) (inputs ++ [(.willing, .segment hdr data)])
      c.tcp.state = .closeWait ∧ (step c (.willing, .segment hdr data)).tcp.state = .closing ∧
        ¬ Harmless c (step c (.willing, .segment hdr data)) := by
  refine ⟨[(.willing, .event { epollout := true }), (.willing, .segment (clientSegment 22 1 1001) .empty)],
    { clientSegment 22 1 1001 with fin := true }, ⟨[104, 105], by decide⟩, rfl, rfl, by decide, by decide,
    fun hSame => ?_⟩
  have hState := hSame.state
  revert hState
  decide

end Tun2Http
