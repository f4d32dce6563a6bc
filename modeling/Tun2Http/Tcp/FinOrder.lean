import Tun2Http.Tcp.SynCount

/-! The FIN of the client is counted where the queue is empty, or as soon as
it is. The source never looks at the FIN's own number, so this is in turn only
if nothing is missing behind the queue when the FIN comes. -/
namespace Tun2Http

open Machine SerialNumber

/-- Where the client's data ends once the queue is forwarded. -/
def queueEnd (t : TcpSession) : U32 :=
  match t.forward.getLast? with
  | none => t.remoteSeq
  | some last => last.seq + BitVec.ofNat 32 last.len

/-- The session with the data of the packet itself in the queue. -/
def ownQueued (hdr : TcpHdr) (data : Payload) (c : Cell) : Cell :=
  if data.val = [] then c else queueTcp hdr data c

/-- Where the data ends, with the data that the input brings. -/
def queuedEnd (c : Cell) (input : Kernel × Input) : U32 :=
  match input.2 with
  | .segment hdr data => queueEnd (ownQueued hdr data c).tcp
  | _ => queueEnd c.tcp

/-- `handle_tcp` comes to the FIN of the segment, and it is the first one. -/
def FinActs (hdr : TcpHdr) (data : Payload) (c : Cell) : Prop :=
  hdr.urg = false ∧ hdr.rst = false ∧ (hdr.ack = false ∨ hdr.ackSeq = c.tcp.localSeq) ∧
    hdr.syn = false ∧ hdr.fin = true ∧ (data.val ≠ [] → 0 ≤ c.socket) ∧
    (c.tcp.state = .established ∨ c.tcp.state = .finWait1)

instance (hdr : TcpHdr) (data : Payload) (c : Cell) : Decidable (FinActs hdr data c) :=
  inferInstanceAs (Decidable (_ ∧ _ ∧ (_ ∨ _) ∧ _ ∧ _ ∧ (_ → _) ∧ (_ ∨ _)))

/-- The position of the FIN that the step acts on: behind its segment's data. -/
def finOf (c : Cell) (input : Kernel × Input) : Option U32 :=
  match input.2 with
  | .segment hdr data =>
      if FinActs hdr data c then some (hdr.seq + BitVec.ofNat 32 data.val.length) else none
  | _ => none

/-- A step that remembers the position of the FIN. -/
def finStep (s : Cell × Option U32) (input : Kernel × Input) : Cell × Option U32 :=
  (step s.1 input, (finOf s.1 input).or s.2)

/-- In the run the FIN is counted at most once, and not before every byte that
comes before it was taken by the socket. -/
def FinOrdered (start : Cell) (inputs : List (Kernel × Input)) : Prop :=
  fins (run step start inputs).log ≤ 1 ∧
    ∀ first input rest, inputs = first ++ input :: rest →
      let s := run finStep (start, none) first
      let t := finStep s input
      fins s.1.log < fins t.1.log → ∃ finPos, t.2 = some finPos ∧
        ¬ Before (t.1.tcp.remoteStart + BitVec.ofNat 32 (1 + heard start (first ++ [input]))) finPos

/-- When the session acts on a FIN, its queue reaches to the FIN. -/
def FinInTurn (c : Cell) (input : Kernel × Input) : Prop :=
  ∀ finPos, finOf c input = some finPos → ¬ Before (queuedEnd c input) finPos

instance (c : Cell) (input : Kernel × Input) : Decidable (FinInTurn c input) :=
  Option.decidableForallMem (finOf c input)

variable {K : Kernel} {c d : Cell}

theorem queueEnd_of_empty {t : TcpSession} (hQueue : t.forward = []) : queueEnd t = t.remoteSeq := by
  rw [queueEnd, hQueue]
  rfl

theorem queueEnd_congr {t u : TcpSession} (hQueue : u.forward = t.forward)
    (hSeq : u.remoteSeq = t.remoteSeq) : queueEnd u = queueEnd t := by
  rw [queueEnd, queueEnd, hQueue, hSeq]

/-- A turn moves `remote_seq` and the queue, and keeps the end. -/
theorem queueEnd_turn {seg : Segment} {rest queue : List Segment}
    (hQueue : c.tcp.forward = seg :: rest)
    (hLeft : (counted K seg c = seg.unsent ∧ queue = rest) ∨
      queue = seg.advance (counted K seg c) (counted_le K seg c) :: rest) :
    queueEnd ((sentOn K seg c).setForward queue).tcp = queueEnd c.tcp := by
  have hSent := seg.sent_le
  cases rest with
  | cons next rest =>
      obtain ⟨last, hLast⟩ : ∃ last, (next :: rest).getLast? = some last :=
        ⟨_, List.getLast?_eq_some_getLast (by simp)⟩
      rcases hLeft with ⟨-, rfl⟩ | rfl <;>
        simp [queueEnd, hQueue, List.getLast?_cons_cons, hLast]
  | nil =>
      rcases hLeft with ⟨hAll, rfl⟩ | rfl
      · have hLen : seg.sent + counted K seg c = seg.len := by
          rw [hAll, Segment.unsent]
          omega
        simp [queueEnd, hQueue, sentOn, hLen]
      · simp [queueEnd, hQueue]

/-- The loop counts no FIN and keeps the end of the data. -/
theorem queueEnd_forwardLoop (queue : List Segment) (bufferSize : U32) (fwd : Bool) (c : Cell)
    (hQueue : c.tcp.forward = queue) :
    queueEnd (forwardLoop K queue bufferSize fwd c).1.tcp = queueEnd c.tcp ∧
      fins (forwardLoop K queue bufferSize fwd c).1.log = fins c.log := by
  induction queue generalizing bufferSize fwd c with
  | nil => exact ⟨rfl, rfl⟩
  | cons seg rest ih =>
      rw [forwardLoop]
      by_cases hForward : canForward c seg bufferSize
      · rw [if_pos hForward, forwardTurn_eq]
        by_cases hAll : counted K seg c = seg.unsent
        · simp only [hAll, if_true]
          obtain ⟨hEnd, hFins⟩ := ih (bufferSize - BitVec.ofNat 32 seg.unsent) true
            ((sentOn K seg c).setForward rest) rfl
          refine ⟨hEnd.trans (queueEnd_turn hQueue (Or.inl ⟨hAll, rfl⟩)), hFins.trans ?_⟩
          simp [sentOn]
        · simp only [hAll, if_false]
          refine ⟨queueEnd_turn hQueue (Or.inr rfl), ?_⟩
          simp [sentOn]
      · rw [if_neg hForward]
        exact ⟨rfl, rfl⟩

theorem fins_writeRst (K : Kernel) (c : Cell) : fins (writeRst K c).log = fins c.log := by
  by_cases hState : c.tcp.state = .listen
  · simp [writeRst_of_listen K c hState]
  · rw [writeRst_of_ne_listen K c hState]
    split_ifs <;> simp

/-! Events. -/

theorem queueEnd_storeWindow (K : Kernel) (c : Cell) :
    queueEnd (storeWindow K c).tcp = queueEnd c.tcp ∧ fins (storeWindow K c).log = fins c.log ∧
      (storeWindow K c).tcp.state = c.tcp.state := by
  have hTcp : (storeWindow K c).tcp =
      { c.tcp with recvWindow := (storeWindow K c).tcp.recvWindow } := by
    simp [storeWindow]
  have hFins : fins (storeWindow K c).log = fins (getReceiveBuffer K c).1.log := rfl
  refine ⟨?_, hFins.trans (fins_quiet (silent_getReceiveBuffer K c).toQuiet), by rw [hTcp]⟩
  rw [hTcp]
  exact queueEnd_congr rfl rfl

/-- What an event takes: the FIN is counted at the end of the queue, or not at all. -/
theorem queueEnd_ready (K : Kernel) (ev : EpollEvents) (c : Cell) :
    (c.tcp.state = .closeWait ∧ fins (readyTaken K ev c).log = fins c.log + 1 ∧
        (readyTaken K ev c).tcp.remoteSeq = queueEnd c.tcp + 1) ∨
      (fins (readyTaken K ev c).log = fins c.log ∧
        queueEnd (readyTaken K ev c).tcp = queueEnd c.tcp) := by
  have hForwarded : ∀ forwarded : Cell × Bool, forwarded = (if ev.epollout then forwardData K c
      else (c, false)) → queueEnd forwarded.1.tcp = queueEnd c.tcp ∧
        fins forwarded.1.log = fins c.log ∧ forwarded.1.tcp.state = c.tcp.state := by
    rintro forwarded rfl
    split_ifs
    · obtain ⟨hEnd, hFins⟩ := queueEnd_forwardLoop (K := K) (getReceiveBuffer K c).1.tcp.forward
        (BitVec.ofInt 32 (getReceiveBuffer K c).2) false (getReceiveBuffer K c).1 rfl
      have hQuiet := (silent_getReceiveBuffer K c).toQuiet
      refine ⟨hEnd.trans (queueEnd_congr hQuiet.forward hQuiet.remoteSeq),
        hFins.trans (fins_quiet hQuiet), ?_⟩
      exact forwardData_state K c
    · exact ⟨rfl, rfl, rfl⟩
  unfold readyTaken
  dsimp only
  generalize hEq : (if ev.epollout then forwardData K c else (c, false)) = forwarded
  obtain ⟨hEnd, hFins, hState⟩ := hForwarded forwarded hEq.symm
  obtain ⟨hStoredEnd, hStoredFins, hStoredState⟩ := queueEnd_storeWindow K forwarded.1
  unfold confirmFin
  split_ifs with hConfirm
  · left
    refine ⟨by rw [← hState, ← hStoredState]; exact hConfirm.2.2, ?_, ?_⟩
    · simp [hStoredFins, hFins]
    · rw [← hEnd, ← hStoredEnd, queueEnd_of_empty hConfirm.2.1]
      rfl
  · exact Or.inr ⟨hStoredFins.trans hFins, hStoredEnd.trans hEnd⟩

/-- The calls that answer lead into `TCP_CLOSE_WAIT` from nowhere else. -/
theorem closeWait_afterWrite {packet : TcpPacket} {whole : Bool}
    (hState : (afterWrite c packet whole).tcp.state = .closeWait) : c.tcp.state = .closeWait := by
  cases whole with
  | false => cases hState
  | true => exact hState

theorem closeWait_writeRst (hState : (writeRst K c).tcp.state = .closeWait) : False := by
  rw [writeRst_state] at hState
  split_ifs at hState

theorem closeWait_acknowledge {fwd : Bool}
    (hState : (acknowledge K fwd c).tcp.state = .closeWait) : c.tcp.state = .closeWait := by
  have hConfirm : (confirmFin fwd c).tcp.state = c.tcp.state := by
    unfold confirmFin
    split_ifs <;> rfl
  rw [acknowledge_eq] at hState
  simp only [writeAck, writeOrClose_eq] at hState
  rw [← hConfirm]
  split_ifs at hState
  · exact closeWait_afterWrite hState
  · exact closeWait_afterWrite hState

theorem closeWait_socketEof (hState : (socketEof K c).tcp.state = .closeWait) : False := by
  have hLeft : ∀ e : Cell, (if e.tcp.state = .established then e.setState .finWait1
      else if e.tcp.state = .closeWait then e.setState .lastAck else e).tcp.state ≠ .closeWait := by
    intro e
    split_ifs <;> simp_all
  unfold socketEof at hState
  dsimp only at hState
  by_cases hQueue : c.tcp.forward = []
  · rw [if_pos hQueue] at hState
    exact hLeft _ hState
  · rw [if_neg hQueue] at hState
    exact closeWait_writeRst hState

theorem closeWait_socketRead {ev : EpollEvents}
    (hState : (socketRead K ev c).tcp.state = .closeWait) : c.tcp.state = .closeWait := by
  unfold socketRead at hState
  split_ifs at hState
  · dsimp only at hState
    unfold socketReceived at hState
    split at hState
    · split_ifs at hState
      · exact (closeWait_writeRst hState).elim
      · exact hState
    · exact (closeWait_socketEof hState).elim
    · rename_i bytes _ hReceived
      obtain ⟨e, whole, hQuiet, -, hEq⟩ :=
        relay_eq (K := K) bytes (recvFrom K (touch K c) (readSize c.tcp)).1
      rw [hEq] at hState
      have hWritten : (afterWrite e (buildTcp e.tcp bytes false true false false) whole).tcp.state =
          .closeWait → e.tcp.state = .closeWait := closeWait_afterWrite
      split_ifs at hState
      · exact hQuiet.state.symm.trans (hWritten hState)
      · exact hQuiet.state.symm.trans (hWritten hState)
  · exact hState

theorem closeWait_socketReady {ev : EpollEvents}
    (hState : (socketReady K ev c).tcp.state = .closeWait) : c.tcp.state = .closeWait := by
  have hBefore : (beforeRead K ev c).tcp.state = .closeWait → c.tcp.state = .closeWait := by
    apply beforeRead_keeps (P := fun d => d.tcp.state = .closeWait → c.tcp.state = .closeWait) id
    · intro hWait
      rwa [forwardData_state] at hWait
    · intro d h hWait
      exact h ((queueEnd_storeWindow K d).2.2.symm.trans hWait)
    · exact fun fwd d h hWait => h (closeWait_acknowledge hWait)
  rw [socketReady_eq] at hState
  split_ifs at hState
  · exact hBefore (closeWait_socketRead hState)
  · exact hBefore hState

/-- In `TCP_LISTEN` there is no FIN. -/
theorem fin_socketListen (ev : EpollEvents) (hState : c.tcp.state = .listen) :
    fins (socketListen K ev c).log = fins c.log ∧ (socketListen K ev c).tcp.state ≠ .closeWait := by
  have hReset : ∀ d, fins d.log = fins c.log →
      fins (writeRst K d).log = fins c.log ∧ (writeRst K d).tcp.state ≠ .closeWait := fun d hFins =>
    ⟨(fins_writeRst K d).trans hFins, closeWait_writeRst⟩
  have hRecv : fins (recvFrom K c 12).1.log = fins c.log := fins_quiet (quiet_recvFrom K c 12)
  unfold socketListen
  split_ifs
  · dsimp only
    unfold listenReceived
    split
    · exact hReset _ hRecv
    · split_ifs
      · exact ⟨by simpa using hRecv, by simp⟩
      · exact hReset _ hRecv
      · exact ⟨hRecv, by simp [recvFrom, hState]⟩
  · simp only [writeSynAck, writeOrClose_eq]
    split_ifs with hWhole
    · exact ⟨by simp, by simp⟩
    · refine ⟨by simp, fun hWait => ?_⟩
      have hBefore := closeWait_afterWrite hWait
      simp [hState] at hBefore

/-- What a step does to a FIN: it counts it at the end of the data, or the FIN
still stands there, or there is none to stand. -/
def FinMoved (last : U32) (c d : Cell) : Prop :=
  (fins d.log = fins c.log ∧ d.tcp.state ≠ .closeWait) ∨
    (fins d.log = fins c.log + 1 ∧ d.tcp.remoteSeq = last + 1) ∨
    (fins d.log = fins c.log ∧ queueEnd d.tcp = last)

/-- No FIN begins to wait, and the one that waits is moved. -/
def FinIdle (c d : Cell) : Prop :=
  FinMoved (queueEnd c.tcp) c d ∧
    (c.tcp.state ≠ .closeWait → fins d.log = fins c.log ∧ d.tcp.state ≠ .closeWait)

/-- No FIN is counted, and none begins to wait. -/
theorem finIdle_of_fins (hFins : fins d.log = fins c.log) (hWait : d.tcp.state = .closeWait →
    c.tcp.state = .closeWait ∧ queueEnd d.tcp = queueEnd c.tcp) : FinIdle c d := by
  refine ⟨?_, fun hOther => ⟨hFins, fun h => hOther (hWait h).1⟩⟩
  by_cases hState : d.tcp.state = .closeWait
  · exact Or.inr (Or.inr ⟨hFins, (hWait hState).2⟩)
  · exact Or.inl ⟨hFins, hState⟩

/-- An event moves the FIN that waits for the queue, and lets none begin to wait. -/
theorem fin_event (K : Kernel) (ev : EpollEvents) (c : Cell) : FinIdle c (checkTcpSocket K ev c) := by
  unfold checkTcpSocket
  split_ifs with hError hListen
  · apply finIdle_of_fins
    · exact (fins_writeRst K _).trans (fins_quiet (silent_touch K c).toQuiet)
    · exact fun h => (closeWait_writeRst h).elim
  · obtain ⟨hFins, hState⟩ := fin_socketListen (K := K) ev hListen
    exact finIdle_of_fins hFins (absurd · hState)
  · have hRepeats := repeats_socketReady K ev c
    have hSame : queueEnd (socketReady K ev c).tcp = queueEnd (readyTaken K ev c).tcp :=
      queueEnd_congr hRepeats.forward hRepeats.remoteSeq
    rcases queueEnd_ready K ev c with ⟨hWait, hFins, hSeq⟩ | ⟨hFins, hEnd⟩
    · exact ⟨Or.inr (Or.inl ⟨hRepeats.fins.trans hFins, hRepeats.remoteSeq.trans hSeq⟩),
        absurd hWait⟩
    · exact finIdle_of_fins (hRepeats.fins.trans hFins) fun h =>
        ⟨closeWait_socketReady h, hSame.trans hEnd⟩

/-- What gives up a session at most, counts no FIN. -/
theorem Frame.fins {seq : U32} (h : Frame seq c d) : Tun2Http.fins d.log = Tun2Http.fins c.log :=
  h.calls.log_eq Tun2Http.fins fun entry log hEntry => by cases entry <;> simp_all [Io.repeats]

theorem Frame.finIdle {seq : U32} (h : Frame seq c d) : FinIdle c d := by
  apply finIdle_of_fins h.fins
  intro hWait
  refine ⟨?_, queueEnd_congr h.forward h.remoteSeq⟩
  rcases h.state with hState | hClosed | hClosed
  · rwa [← hState]
  · simp [hClosed] at hWait
  · simp [hClosed] at hWait

theorem fin_monitor (K : Kernel) (c : Cell) : FinIdle c (monitorTcpSession K c).1 := by
  have hWanted := frame_wantedEvents K c
  have hIdle := hWanted.finIdle
  unfold monitorTcpSession
  dsimp only
  split_ifs
  · refine ⟨?_, fun hOther => ?_⟩
    · simpa [FinMoved] using hIdle.1
    · simpa using hIdle.2 hOther
  · exact finIdle_of_fins (by simpa using hWanted.fins) fun h => by cases h
  · exact hIdle

/-! Segments. -/

/-- The session in which the flags of a segment are handled. -/
def beforeFlags (K : Kernel) (hdr : TcpHdr) (data : Payload) (c : Cell) : Cell :=
  ownQueued hdr data (refresh K hdr c)

theorem beforeFlags_cases (K : Kernel) (hdr : TcpHdr) (data : Payload) (c : Cell) :
    ∃ queue, queue = (ownQueued hdr data c).tcp.forward ∧
      beforeFlags K hdr data c = (refresh K hdr c).setForward queue := by
  unfold beforeFlags ownQueued
  split_ifs
  · exact ⟨c.tcp.forward, rfl, rfl⟩
  · unfold queueTcp
    by_cases hOld : compareU32 hdr.seq c.tcp.remoteSeq < 0
    · exact ⟨c.tcp.forward, by rw [if_pos hOld], by rw [if_pos (by exact hOld)]; rfl⟩
    · exact ⟨insertSegment hdr data c.tcp.forward, by rw [if_neg hOld]; rfl,
        by rw [if_neg (by exact hOld)]; rfl⟩

/-- The flags of a segment are handled, where its data is not refused. -/
theorem existingSession_flags {hdr : TcpHdr} {data : Payload} (hPort : c.tcp.dest ≠ 443)
    (hUrg : ¬ hdr.urg = true) (hOpen : ¬ Closed c)
    (hData : data.val ≠ [] → ¬ c.socket < 0 ∧ c.tcp.state ≠ .closeWait) :
    existingSession K c.tcp.dest hdr data c = handleFlags K hdr (beforeFlags K hdr data c) := by
  rw [existingSession, if_neg hUrg, if_neg hPort, tunnelSegment, if_neg (fun h => hPort h.1),
    if_neg (by exact hOpen), handleSegment, beforeFlags, ownQueued]
  by_cases hEmpty : data.val = []
  · rw [if_neg (not_not.mpr hEmpty), if_pos hEmpty]
  · obtain ⟨hSocket, hWait⟩ := hData hEmpty
    rw [if_pos hEmpty, if_neg hEmpty]
    exact (if_neg hSocket).trans (if_neg hWait)

/-- A segment on a port without a tunnel is dropped, refused, or its flags are handled. -/
theorem existingSession_cases (hPort : c.tcp.dest ≠ 443) (hdr : TcpHdr) (data : Payload) :
    existingSession K c.tcp.dest hdr data c = c ∧ hdr.urg = true ∨
      (∃ e, fins e.log = fins c.log ∧ existingSession K c.tcp.dest hdr data c = writeRst K e) ∨
      (hdr.urg = false ∧ (data.val ≠ [] → ¬ c.socket < 0 ∧ c.tcp.state ≠ .closeWait) ∧
        existingSession K c.tcp.dest hdr data c = handleFlags K hdr (beforeFlags K hdr data c)) := by
  have hRefresh : fins (refresh K hdr c).log = fins c.log :=
    fins_quiet (silent_refresh hdr c).toQuiet
  by_cases hUrg : hdr.urg = true
  · exact Or.inl ⟨by rw [existingSession, if_pos hUrg], hUrg⟩
  by_cases hClosed : Closed c
  · refine Or.inr (Or.inl ⟨c, rfl, ?_⟩)
    rw [existingSession, if_neg hUrg, if_neg hPort, tunnelSegment, if_neg (fun h => hPort h.1),
      if_pos (by exact hClosed)]
  by_cases hData : data.val ≠ [] → ¬ c.socket < 0 ∧ c.tcp.state ≠ .closeWait
  · exact Or.inr (Or.inr ⟨by simpa using hUrg, hData, existingSession_flags hPort hUrg hClosed hData⟩)
  · refine Or.inr (Or.inl ⟨refresh K hdr c, hRefresh, ?_⟩)
    rw [existingSession, if_neg hUrg, if_neg hPort, tunnelSegment, if_neg (fun h => hPort h.1),
      if_neg (by exact hClosed), handleSegment]
    obtain ⟨hSome, hRefused⟩ := Classical.not_imp.mp hData
    rw [if_pos hSome]
    by_cases hSocket : c.socket < 0
    · exact if_pos hSocket
    · exact (if_neg hSocket).trans (if_pos (by_contra fun hWait => hRefused ⟨hSocket, hWait⟩))

/-- The first FIN is counted at the end of the data, or waits there. -/
theorem fin_acts {hdr : TcpHdr} {data : Payload} (hLife : Lifecycle c) (hPort : c.tcp.dest ≠ 443)
    (hActs : FinActs hdr data c) :
    FinMoved (queuedEnd c (K, .segment hdr data)) c (existingSession K c.tcp.dest hdr data c) := by
  obtain ⟨hUrg, hRst, hAck, hSyn, hFin, hSocket, hState⟩ := hActs
  obtain ⟨queue, hQueue, hBefore⟩ := beforeFlags_cases K hdr data c
  have hFins : fins (beforeFlags K hdr data c).log = fins c.log := by
    have hSame : fins ((refresh K hdr c).setForward queue).log = fins (refresh K hdr c).log := rfl
    rw [hBefore, hSame]
    exact fins_quiet (silent_refresh hdr c).toQuiet
  have hEnd : queueEnd (beforeFlags K hdr data c).tcp = queuedEnd c (K, .segment hdr data) := by
    have hSeq : (ownQueued hdr data c).tcp.remoteSeq = c.tcp.remoteSeq := by
      unfold ownQueued queueTcp
      split_ifs <;> rfl
    rw [hBefore]
    exact queueEnd_congr (t := (ownQueued hdr data c).tcp) hQueue hSeq.symm
  have hHandled : existingSession K c.tcp.dest hdr data c =
      handleFin K (beforeFlags K hdr data c) := by
    have hOpen : ¬ Closed c := by
      unfold Closed
      rcases hState with h | h <;> simp [h]
    have hData : data.val ≠ [] → ¬ c.socket < 0 ∧ c.tcp.state ≠ .closeWait := by
      intro hSome
      have hNonneg := hSocket hSome
      exact ⟨by omega, by rcases hState with h | h <;> simp [h]⟩
    have hLocal : (beforeFlags K hdr data c).tcp.localSeq = c.tcp.localSeq := by rw [hBefore]; rfl
    rw [existingSession_flags hPort (by simp [hUrg]) hOpen hData, handleFlags, if_neg (by simp [hRst]),
      if_pos (by rw [hLocal]; simpa using hAck), if_neg (by simp [hSyn]), if_pos hFin]
  have hSame : (beforeFlags K hdr data c).tcp.state = c.tcp.state := by rw [hBefore]; rfl
  rw [hHandled]
  set e := beforeFlags K hdr data c
  have hCounted : e.tcp.forward = [] → ∀ next,
      FinMoved (queuedEnd c (K, .segment hdr data)) c
        (if (writeAck K e.countFin).2 then (writeAck K e.countFin).1.setState next
          else (writeAck K e.countFin).1) := by
    intro hEmpty next
    rw [queueEnd_of_empty hEmpty] at hEnd
    have hWritten : fins (writeAck K e.countFin).1.log = fins c.log + 1 ∧
        (writeAck K e.countFin).1.tcp.remoteSeq = queuedEnd c (K, .segment hdr data) + 1 := by
      have hFrame := frame_writeOrClose K e.countFin false
      rw [← hEnd]
      exact ⟨by simp [writeAck, writeOrClose_eq, hFins], hFrame.remoteSeq⟩
    right
    left
    split_ifs
    · exact hWritten
    · exact hWritten
  unfold handleFin
  rcases hState with hState | hState
  · rw [hSame, hState]
    dsimp only
    split_ifs with hEmpty hWhole
    · have hMoved := hCounted hEmpty .closeWait
      rwa [if_pos hWhole] at hMoved
    · have hMoved := hCounted hEmpty .closeWait
      rwa [if_neg hWhole] at hMoved
    · exact Or.inr (Or.inr ⟨hFins, hEnd⟩)
  · rw [hSame, hState]
    have hEmpty : e.tcp.forward = [] := by
      have hData : data.val = [] := by
        by_contra hSome
        have hNonneg := hSocket hSome
        have hNeg := hLife.socket (Or.inl hState)
        omega
      rw [hBefore, Cell.setForward_tcp]
      dsimp only
      rw [hQueue, ownQueued, if_pos hData]
      exact hLife.empty (Or.inl hState)
    exact hCounted hEmpty .close

/-- Another segment counts no FIN, and lets none begin to wait. -/
theorem fin_idle {hdr : TcpHdr} {data : Payload} (hPort : c.tcp.dest ≠ 443)
    (hActs : ¬ FinActs hdr data c) : FinIdle c (existingSession K c.tcp.dest hdr data c) := by
  rcases existingSession_cases (K := K) hPort hdr data with ⟨hEq, -⟩ | ⟨e, hFins, hEq⟩ | ⟨hUrg, hData, hEq⟩
  · rw [hEq]
    exact finIdle_of_fins rfl fun h => ⟨h, rfl⟩
  · rw [hEq]
    exact finIdle_of_fins ((fins_writeRst K e).trans hFins) fun h => (closeWait_writeRst h).elim
  · obtain ⟨queue, hQueue, hBefore⟩ := beforeFlags_cases K hdr data c
    have hSame : fins ((refresh K hdr c).setForward queue).log = fins c.log :=
      fins_quiet (c := c) (d := refresh K hdr c) (silent_refresh hdr c).toQuiet
    have hLocal : (beforeFlags K hdr data c).tcp.localSeq = c.tcp.localSeq := by rw [hBefore]; rfl
    have hState : (beforeFlags K hdr data c).tcp.state = c.tcp.state := by rw [hBefore]; rfl
    have hFins : fins (beforeFlags K hdr data c).log = fins c.log := by rw [hBefore, hSame]
    have hEnd : c.tcp.state = .closeWait →
        queueEnd (beforeFlags K hdr data c).tcp = queueEnd c.tcp := by
      intro hWait
      have hEmpty : data.val = [] := by_contra fun hSome => (hData hSome).2 hWait
      rw [hBefore, hQueue, ownQueued, if_pos hEmpty]
      exact queueEnd_congr rfl rfl
    have hKept : ∀ d : Cell, fins d.log = fins (beforeFlags K hdr data c).log →
        (d.tcp.state = .closeWait → (beforeFlags K hdr data c).tcp.state = .closeWait ∧
          queueEnd d.tcp = queueEnd (beforeFlags K hdr data c).tcp) →
        FinIdle c d := by
      intro d hLog hWaits
      refine finIdle_of_fins (hLog.trans hFins) fun hWait => ?_
      obtain ⟨hWaited, hQueued⟩ := hWaits hWait
      rw [hState] at hWaited
      exact ⟨hWaited, hQueued.trans (hEnd hWaited)⟩
    rw [hEq]
    unfold handleFlags
    rw [hLocal]
    split_ifs with hRst hAck hSyn hFin hPlain
    · exact hKept _ rfl fun h => by cases h
    · exact hKept _ rfl fun h => ⟨h, rfl⟩
    · have hInvalid : handleFin K (beforeFlags K hdr data c) = beforeFlags K hdr data c := by
        have hNot : ¬ (c.tcp.state = .established ∨ c.tcp.state = .finWait1) := fun hOpen =>
          hActs ⟨hUrg, by simpa using hRst, by simpa using hAck, by simpa using hSyn, hFin,
            fun hSome => not_lt.mp (hData hSome).1, hOpen⟩
        unfold handleFin
        rw [hState]
        split
        · exact absurd (Or.inl ‹_›) hNot
        · exact absurd (Or.inr ‹_›) hNot
        · rfl
      rw [hInvalid]
      exact hKept _ rfl fun h => ⟨h, rfl⟩
    · unfold handleAck
      dsimp only
      split
      · exact hKept _ rfl fun h => by cases h
      · exact hKept _ rfl fun h => by cases h
      · exact hKept _ rfl fun h => ⟨h, queueEnd_congr rfl rfl⟩
    · exact hKept _ rfl fun h => ⟨h, rfl⟩
    · apply handleOtherAck_keeps (P := FinIdle c)
      · exact hKept _ rfl fun h => ⟨h, rfl⟩
      · exact hKept _ (by simp) fun h => ⟨h, rfl⟩
      · exact fun _ => hKept _ rfl fun h => ⟨h, queueEnd_congr rfl rfl⟩
      · exact hKept _ (fins_writeRst K _) fun h => (closeWait_writeRst h).elim

/-! Steps and runs. -/

/-- A step acts on the FIN of its segment, or at most moves the one that waits. -/
theorem fin_step (hLife : Lifecycle c) (hPort : c.tcp.dest ≠ 443) (input : Kernel × Input) :
    (finOf c input ≠ none ∧ FinMoved (queuedEnd c input) c (step c input)) ∨
      (finOf c input = none ∧ FinIdle c (step c input)) := by
  obtain ⟨K, i⟩ := input
  cases i with
  | segment hdr data =>
      by_cases hActs : FinActs hdr data c
      · exact Or.inl ⟨by simp [finOf, hActs], fin_acts hLife hPort hActs⟩
      · exact Or.inr ⟨by simp [finOf, hActs], fin_idle hPort hActs⟩
  | event ev =>
      refine Or.inr ⟨rfl, ?_⟩
      unfold step
      dsimp only
      split_ifs
      · exact fin_event K ev c
      · exact finIdle_of_fins rfl fun h => ⟨h, rfl⟩
  | monitor =>
      refine Or.inr ⟨rfl, ?_⟩
      unfold step
      dsimp only
      split_ifs
      · exact fin_monitor K c
      · exact finIdle_of_fins rfl fun h => ⟨h, rfl⟩
  | check sessions maxsessions =>
      exact Or.inr ⟨rfl, (frame_checkTcpSession K 0 sessions maxsessions c).finIdle⟩
  | allowed =>
      refine Or.inr ⟨rfl, checkAllowed_keeps (finIdle_of_fins rfl fun h => ⟨h, rfl⟩) ?_⟩
      exact finIdle_of_fins (fins_writeRst K c) fun h => (closeWait_writeRst h).elim

/-- Between the steps of a run: a FIN that waits stands at the end of the queue
or before it. -/
structure FinWaits (base : U32) (s : Cell × Option U32) : Prop where
  known : SynKnown base s.1
  port : s.1.tcp.dest ≠ 443
  waits : s.1.tcp.state = .closeWait → fins s.1.log = 0 →
    ∃ finPos, s.2 = some finPos ∧ ¬ Before (queueEnd s.1.tcp) finPos

/-- Without a tunnel the SYN is counted once, whatever happens. -/
theorem SynKnown.step_of_port {base : U32} (h : SynKnown base c) (hPort : c.tcp.dest ≠ 443)
    (input : Kernel × Input) : SynKnown base (Tun2Http.step c input) := by
  apply h.step
  · intro hAgain
    exact (h.syn.listen hAgain.2.1).elim hAgain.1 fun hTunnel => hPort hTunnel.1
  · intro hOpens
    exact hPort (h.life.proxied hOpens.2.2.1)

theorem begun_of_finOf {input : Kernel × Input} (hActs : finOf c input ≠ none) : Begun c := by
  unfold finOf at hActs
  split at hActs
  · split_ifs at hActs with hFin
    · rcases hFin.2.2.2.2.2.2 with hState | hState <;> simp [Begun, hState]
    · exact absurd rfl hActs
  · exact absurd rfl hActs

/-- The FIN that a step counts or leaves waiting is not past the end of the data. -/
theorem FinWaits.moved {base : U32} {s : Cell × Option U32} (h : FinWaits base s)
    {input : Kernel × Input} (hOk : FinInTurn s.1 input) (hNone : fins s.1.log = 0)
    (hFin : fins (finStep s input).1.log ≠ 0 ∨ (finStep s input).1.tcp.state = .closeWait) :
    Begun s.1 ∧ ∃ last finPos, FinMoved last s.1 (finStep s input).1 ∧
      (finStep s input).2 = some finPos ∧ ¬ Before last finPos := by
  rcases fin_step h.known.life h.port input with ⟨hActs, hMoved⟩ | ⟨hIdle, hMoved, hOther⟩
  · obtain ⟨finPos, hPos⟩ := Option.ne_none_iff_exists'.mp hActs
    exact ⟨begun_of_finOf hActs, _, finPos, hMoved, by simp [finStep, hPos], hOk finPos hPos⟩
  · have hWait : s.1.tcp.state = .closeWait := by
      by_contra hState
      obtain ⟨hSame, hLeft⟩ := hOther hState
      rcases hFin with hFins | hWait
      · exact hFins (hSame.trans hNone)
      · exact hLeft hWait
    obtain ⟨finPos, hPos, hEnd⟩ := h.waits hWait hNone
    exact ⟨by simp [Begun, hWait], _, finPos, hMoved, by simp [finStep, hIdle, hPos], hEnd⟩

theorem FinWaits.step {base : U32} {s : Cell × Option U32} (h : FinWaits base s)
    {input : Kernel × Input} (hOk : FinInTurn s.1 input) : FinWaits base (finStep s input) := by
  have hKnown := h.known.step_of_port h.port input
  refine ⟨hKnown, by rw [finStep, step_dest]; exact h.port, fun hWait hNone => ?_⟩
  have hBefore : fins s.1.log = 0 := by
    obtain ⟨entries, hLog⟩ := step_log s.1 input
    rw [finStep, hLog, fins, List.count_append] at hNone
    exact (Nat.add_eq_zero_iff.mp hNone).2
  obtain ⟨-, last, finPos, hMoved, hPos, hEnd⟩ := h.moved hOk hBefore (Or.inr hWait)
  refine ⟨finPos, hPos, ?_⟩
  rcases hMoved with ⟨-, hOther⟩ | ⟨hCounted, -⟩ | ⟨-, hLast⟩
  · exact absurd hWait hOther
  · omega
  · rwa [hLast]

/-- In every run in which every turn counts what the client gets through, and
the queue reaches to the FIN when the session acts on it, the FIN is in order. -/
theorem fin_in_turn {info : SynInfo} {hdr : TcpHdr} {data : Payload} {start : Cell}
    (hNew : newSession K info hdr data = some start) (hPort : hdr.dest ≠ 443)
    (inputs : List (Kernel × Input))
    (hRun : Along step (fun c input => TurnsHeard c input ∧ FinInTurn c input) start inputs) :
    FinOrdered start inputs := by
  obtain ⟨-, hStartLog, window, hTcp⟩ := newSession_eq hNew
  have hView : ∀ s input, (finStep s input).1 = Tun2Http.step s.1 input := fun _ _ => rfl
  have hStart : FinWaits start.tcp.remoteStart (start, none) := by
    refine ⟨synKnown_newSession hNew, by rw [hTcp]; exact hPort, fun hWait => ?_⟩
    rw [hTcp] at hWait
    cases hWait
  have hWaits : ∀ inputs, Along Tun2Http.step (fun c input => TurnsHeard c input ∧ FinInTurn c input)
      start inputs → FinWaits start.tcp.remoteStart (run finStep (start, none) inputs) :=
    fun inputs hRun => run_invariant hStart (along_view hView (t := (start, none)) hRun)
      fun s input hs hOk => hs.step hOk.2
  constructor
  · have hEnd := (hWaits inputs hRun).known.fin.fins
    rwa [run_view hView] at hEnd
  intro first input rest hSplit
  subst hSplit
  intro s t hMore
  have hNext : t = finStep s input := rfl
  have hHere : s = run finStep (start, none) first := rfl
  clear_value t
  clear_value s
  rw [along_append] at hRun
  have hFirst := hWaits first hRun.1
  rw [← hHere] at hFirst
  have hTaken : Along Tun2Http.step (fun c input => TurnsHeard c input ∧ FinInTurn c input) start
      (first ++ [input]) := along_append.mpr ⟨hRun.1, hRun.2.1, trivial⟩
  have hSecond : FinWaits start.tcp.remoteStart t := by
    have hAll := hWaits _ hTaken
    rw [run_append, ← hHere] at hAll
    rw [hNext]
    exact hAll
  have hCell : s.1 = run Tun2Http.step start first := by
    rw [hHere]
    exact run_view hView _ _
  have hOk : FinInTurn s.1 input := by
    rw [hCell]
    exact hRun.2.1.2
  have hOne := hSecond.known.fin.fins
  have hNone : fins s.1.log = 0 := by omega
  have hSome : fins t.1.log ≠ 0 := by omega
  obtain ⟨hBegun, last, finPos, hMoved, hPos, hEnd⟩ := hFirst.moved hOk hNone
    (Or.inl (hNext ▸ hSome))
  rw [← hNext] at hMoved hPos
  refine ⟨finPos, hPos, ?_⟩
  have hLast : t.1.tcp.remoteSeq = last + 1 := by
    rcases hMoved with ⟨hSame, -⟩ | ⟨-, hSeq⟩ | ⟨hSame, -⟩
    · exact absurd hSame hMore.ne'
    · exact hSeq
    · exact absurd hSame hMore.ne'
  have hSyns : syns t.1.log = 1 := by
    have hBefore := hFirst.known.begun hBegun
    have hAfter := syns_step_le s.1 input
    have hAtMost := hSecond.known.syn.syns
    have hSame : t.1.log = (Tun2Http.step s.1 input).log := by rw [hNext]; rfl
    rw [← hSame] at hAfter
    omega
  have hSum := remoteSeq_run start (first ++ [input]) (hTaken.imp fun _ _ hOk => hOk.1)
  have hCellNext : run Tun2Http.step start (first ++ [input]) = t.1 := by
    rw [run_append, ← hCell, hNext]
    rfl
  have hSeq : start.tcp.remoteSeq = start.tcp.remoteStart := by rw [hTcp]; rfl
  have hFresh : syns start.log + fins start.log = 0 := by simp [hStartLog, syns, fins]
  have hFins : fins t.1.log = 1 := by omega
  rw [hCellNext, hSyns, hFins, hFresh, hSeq, hLast] at hSum
  have hReached : t.1.tcp.remoteStart + BitVec.ofNat 32 (1 + heard start (first ++ [input])) = last := by
    rw [hSecond.known.start]
    bv_omega
  rwa [hReached]

/-- The client of port 22 says `hi` and closes. -/
def closeRun : List (Kernel × Input) :=
  uploadRun ++ [(.willing, .segment { clientSegment 22 3 1001 with fin := true } .empty),
    (.willing, .event { epollout := true })]

/-- The FIN comes behind the data that is still queued. -/
theorem fin_in_turn_close : FinOrdered (clientCell 22 .empty) closeRun := by
  apply fin_in_turn (newSession_client 22 .empty) (by decide) _
  have hHeard : ∀ {c input}, input.1 = .willing → c.tcp.dest = 22 → TurnsHeard c input := by
    intro c input hKernel hPort
    refine ⟨fun t _ errno hError => ?_, fun t ht => countsHeard_of_port (by simp [hPort]) ht⟩
    rw [hKernel] at hError
    cases hError
  refine ⟨⟨hHeard rfl rfl, ?_⟩, ⟨hHeard rfl rfl, ?_⟩, ⟨hHeard rfl rfl, ?_⟩, ⟨hHeard rfl rfl, ?_⟩,
    ⟨hHeard rfl rfl, ?_⟩, trivial⟩ <;> decide

/-- The FIN overtakes the two bytes before it: it is counted in their place. -/
theorem fin_overtakes : ∃ inputs, Along step SendsTaken (clientCell 22 .empty) inputs ∧
    ¬ FinOrdered (clientCell 22 .empty) inputs := by
  let early : List (Kernel × Input) := [(.willing, .event { epollout := true }),
    (.willing, .segment (clientSegment 22 1 1001) .empty)]
  let fin : Kernel × Input := (.willing, .segment { clientSegment 22 3 1001 with fin := true } .empty)
  refine ⟨early ++ [fin], ⟨?_, ?_, ?_, trivial⟩, fun hOrdered => ?_⟩
  · exact fun _ _ _ h => by cases h
  · exact fun _ _ _ h => by cases h
  · exact fun _ _ _ h => by cases h
  · obtain ⟨finPos, hPos, hBefore⟩ := hOrdered.2 early fin [] rfl (by decide)
    have hFive : finPos = 5003 := (Option.some.inj (show some (5003 : U32) = some finPos from hPos)).symm
    rw [hFive] at hBefore
    exact hBefore (by decide)

end Tun2Http
