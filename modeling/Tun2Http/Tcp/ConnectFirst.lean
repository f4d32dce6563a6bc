import Tun2Http.Native.TcpEpoll
import Tun2Http.Tcp.SynCount

/-! The CONNECT request comes before the client's data. The forward loop does
not look at `connect_sent`; it is the mask of the socket that keeps it from
the queue while the tunnel is set up. -/
namespace Tun2Http

open Machine

/-- The client bytes that were passed to `send()`. -/
def handed : List Io → List UInt8
  | [] => []
  | .send data _ :: before => handed before ++ data
  | _ :: before => handed before

/-- The entry sends the CONNECT request. -/
def Io.connects : Io → Bool
  | .sendConnect _ (.accepted _) => true
  | _ => false

/-- How often the CONNECT request was sent. -/
def connects (log : List Io) : Nat := log.countP Io.connects

/-- No byte is passed to `send()` before the tunnel is established, and one
CONNECT request at most is sent. -/
def ConnectFirst (start : Cell) (inputs : List (Kernel × Input)) : Prop :=
  ∀ first rest, inputs = first ++ rest →
    let c := run step start first
    (c.tcp.connectSent ≠ .established → handed c.log = []) ∧ connects c.log ≤ 1

/-- A closing session without a tunnel finds data to send on a pending event. -/
def Escapes (c : Cell) (input : Kernel × Input) : Prop :=
  c.tcp.state = .closing ∧ c.tcp.connectSent ≠ .established ∧ ∃ ev, input.2 = .event ev ∧
    ev.epollerr = false ∧ ev.epollout = true ∧ HeadDue input.1 c

/-- A session is revived after `epoll_ctl` refused the mask that it believes to have. -/
def RevivesUnwatched (c : Cell) (input : Kernel × Input) : Prop :=
  Revives c input ∧ c.events ≠ registered c.log

/-- What keeps the forward loop from the queue until there is a tunnel. -/
structure Guarded (w : Watched) : Prop where
  life : Lifecycle w.cell
  port : w.cell.tcp.dest = 443
  handed : w.cell.tcp.connectSent ≠ .established → handed w.cell.log = []
  connects : connects w.cell.log ≤ 1
  tried : w.cell.tcp.connectSent = .notSent → Tun2Http.connects w.cell.log = 0
  watched : ¬ Closed w.cell → w.cell.events = registered w.cell.log
  blind : w.cell.tcp.state = .synRecv → w.cell.tcp.connectSent ≠ .established →
    w.armed = true → (registered w.cell.log).epollout = false

@[simp] theorem connects_cons (entry : Io) (log : List Io) :
    connects (entry :: log) = connects log + if entry.connects then 1 else 0 :=
  List.countP_cons ..

variable {K : Kernel} {i : Input} {s c d : Cell}

theorem handed_quiet (h : Quiet c d) : handed d.log = handed c.log :=
  h.log_eq handed fun entry log hEntry => by cases entry <;> simp_all [Io.quiet, handed]

theorem handed_afterWrite (packet : TcpPacket) (whole : Bool) :
    handed (afterWrite c packet whole).log = handed c.log := by
  rw [afterWrite_log]
  rfl

theorem handed_writeRst (K : Kernel) (c : Cell) : handed (writeRst K c).log = handed c.log := by
  by_cases hState : c.tcp.state = .listen
  · rw [writeRst_of_listen K c hState]
    rfl
  · rw [writeRst_of_ne_listen K c hState]
    split_ifs <;> rfl

/-- Only turns of the forward loop pass data to `send()`. -/
theorem handed_move (hNone : turns s (K, i) = []) (hMove : Move K i s c d) :
    handed d.log = handed c.log := by
  cases hMove with
  | quiet hSilent => exact handed_quiet hSilent.toQuiet
  | write => exact handed_afterWrite ..
  | relay bytes =>
      obtain ⟨e, whole, hBefore, hAfter⟩ := relay_quiet (K := K) bytes c (readSize c.tcp)
      rw [handed_quiet hAfter, handed_afterWrite, handed_quiet hBefore]
  | reset => exact handed_writeRst K c
  | synAck ev whole => cases whole <;> rfl
  | forward seg rest hTurn =>
      rw [hNone] at hTurn
      cases hTurn
  | fin next whole => cases whole <;> rfl
  | _ => rfl

theorem handed_step {input : Kernel × Input} (hNone : turns c input = []) :
    handed (step c input).log = handed c.log :=
  moves_invariant (I := fun d => handed d.log = handed c.log) (step_moves c input.1 input.2) rfl
    fun _ _ hSame hMove => (handed_move hNone hMove).trans hSame

/-- An established tunnel stays. -/
theorem established_step (hSent : c.tcp.connectSent = .established) (input : Kernel × Input) :
    (step c input).tcp.connectSent = .established := by
  apply moves_invariant (I := fun d => d.tcp.connectSent = .established)
    (step_moves c input.1 input.2) hSent
  intro a b hSame hMove
  cases hMove with
  | quiet hSilent => exact hSilent.connectSent.trans hSame
  | write => rwa [afterWrite_tcp]
  | relay bytes =>
      obtain ⟨e, whole, hBefore, hAfter⟩ := relay_quiet (K := input.1) bytes a (readSize a.tcp)
      rw [hAfter.connectSent, afterWrite_tcp]
      exact hBefore.connectSent.trans hSame
  | reset => exact (writeRst_tcp a).2.2.1.trans hSame
  | synAck ev whole => cases whole <;> exact hSame
  | forward seg rest =>
      rw [forwardTurn_eq]
      split_ifs <;> exact hSame
  | fin next whole => cases whole <;> exact hSame
  | connect hdr data count hQuiet hInput hUrg hPort hNot => simp [hSame] at hNot
  | reply => rfl
  | _ => exact hSame

/-- Until there is a tunnel the forward loop has no turn. -/
theorem turns_eq_nil {w : Watched} (h : Guarded w) {input : Kernel × Input}
    (hSent : w.cell.tcp.connectSent ≠ .established) (hScheduled : Scheduled w input)
    (hEscapes : ¬ Escapes w.cell input) : turns w.cell input = [] := by
  obtain ⟨K, i⟩ := input
  cases i with
  | segment hdr data => rfl
  | monitor => rfl
  | check sessions maxsessions => rfl
  | allowed => rfl
  | event ev =>
      unfold turns
      dsimp only
      split_ifs with hLoop
      · obtain ⟨hSocket, hError, hListen, hWrite⟩ := hLoop
        obtain ⟨hArmed, hWithin⟩ := hScheduled
        have hBlind : w.cell.tcp.state ≠ .synRecv := by
          intro hState
          have hMask := h.blind hState hSent hArmed
          rw [hWithin.2 hWrite] at hMask
          cases hMask
        have hClosing : w.cell.tcp.state = .closing := by
          have hSet := h.life.set
          have hClose := h.life.not_close (Or.inr hSocket)
          have hTunnel := mt (h.life.tunnel h.port) hSent
          revert hBlind hSet hClose hTunnel hListen
          cases w.cell.tcp.state <;> simp
        have hNotDue : ¬ HeadDue K w.cell := fun hDue =>
          hEscapes ⟨hClosing, hSent, ev, rfl, by simpa using hError, hWrite, hDue⟩
        unfold HeadDue at hNotDue
        rw [getReceiveBuffer_tcp]
        cases hQueue : w.cell.tcp.forward with
        | nil => rfl
        | cons seg rest =>
            rw [hQueue] at hNotDue
            rw [forwardTurns, if_neg (by simpa only [canForward, getReceiveBuffer_tcp] using hNotDue)]
      · rfl

/-- A step other than the monitor's asks for the tunnel once, and leaves the
mask alone. -/
theorem step_asks (c : Cell) (K : Kernel) (hInput : i ≠ .monitor) :
    (step c (K, i)).events = c.events ∧
      registered (step c (K, i)).log = registered c.log ∧
      (connects (step c (K, i)).log = connects c.log ∨
        (c.tcp.connectSent = .notSent ∧ connects (step c (K, i)).log = connects c.log + 1 ∧
          (step c (K, i)).tcp.connectSent ≠ .notSent)) ∧
      ((step c (K, i)).tcp.connectSent = .notSent → c.tcp.connectSent = .notSent) := by
  obtain ⟨b, hAsks, m, e, hTaken, hRepeats, queue, hEq⟩ := answers_step c K hInput
  have hEnd : e.tcp.connectSent = .notSent → b.tcp.connectSent = .notSent := fun h =>
    hTaken.tried (hRepeats.tried h)
  have hConnects : connects e.log = connects b.log :=
    (hRepeats.calls.log_eq connects fun entry log hEntry => by
      cases entry <;> simp_all [Io.acks, Io.connects]).trans
    (hTaken.calls.log_eq connects fun entry log hEntry => by
      cases entry <;> simp_all [Io.unwritten, Io.connects])
  have hMask : registered e.log = registered b.log :=
    (hRepeats.calls.log_eq registered fun entry log hEntry =>
      registered_cons log fun events ok hMod => by simp [hMod, Io.acks] at hEntry).trans
    (hTaken.calls.log_eq registered fun entry log hEntry =>
      registered_cons log fun events ok hMod => by simp [hMod, Io.unwritten] at hEntry)
  rw [hEq, Cell.setForward_events, Cell.setForward_log, Cell.setForward_tcp, hConnects, hMask]
  refine ⟨hRepeats.events.trans (hTaken.events.trans hAsks.events), ?_⟩
  rcases hAsks.log with ⟨hLog, hSent⟩ | ⟨hNot, request, result, hLog, hResult⟩
  · rw [hLog]
    exact ⟨rfl, Or.inl rfl, fun h => hSent.symm.trans (hEnd h)⟩
  · rw [hLog]
    refine ⟨rfl, ?_, fun _ => hNot⟩
    cases result with
    | error errno => exact Or.inl rfl
    | accepted count =>
        refine Or.inr ⟨hNot, by simp [Io.connects], fun h => ?_⟩
        obtain ⟨errno, hError⟩ := hResult (hEnd h)
        cases hError

/-- A monitor pass watches what it wants, or gives the session up. In
`TCP_SYN_RECV` it wants nothing. -/
theorem step_monitor (c : Cell) (K : Kernel) (hWatched : ¬ Closed c → c.events = registered c.log) :
    (¬ Closed (step c (K, .monitor)) →
        (step c (K, .monitor)).events = registered (step c (K, .monitor)).log) ∧
      connects (step c (K, .monitor)).log = connects c.log ∧
      (step c (K, .monitor)).tcp.connectSent = c.tcp.connectSent ∧
      ((step c (K, .monitor)).tcp.state = .synRecv → 0 ≤ c.socket →
        (registered (step c (K, .monitor)).log).epollout = false) := by
  unfold step
  dsimp only
  by_cases hSocket : 0 ≤ c.socket
  · rw [if_pos hSocket]
    have hFrame := frame_wantedEvents K c
    have hConnects : connects (wantedEvents K c).1.log = connects c.log :=
      hFrame.calls.log_eq connects fun entry log hEntry => by
        cases entry <;> simp_all [Io.repeats, Io.connects]
    have hMask : registered (wantedEvents K c).1.log = registered c.log :=
      hFrame.calls.log_eq registered fun entry log hEntry =>
        registered_cons log fun events ok hMod => by simp [hMod, Io.repeats] at hEntry
    have hOpen : ¬ Closed (wantedEvents K c).1 → ¬ Closed c := fun hNot hClosed =>
      hNot (hFrame.state.elim (fun hSame => by rwa [Closed, hSame]) id)
    have hBlind : (wantedEvents K c).1.tcp.state = .synRecv →
        (wantedEvents K c).2.1.epollout = false := by
      intro hState
      have hSame : c.tcp.state = .synRecv := by
        rcases hFrame.state with hSame | hClosed | hClosed
        · rwa [← hSame]
        · simp [hClosed] at hState
        · simp [hClosed] at hState
      simp [wantedEvents, hSame]
    unfold monitorTcpSession
    dsimp only
    by_cases hChange : (wantedEvents K c).2.1 ≠ (wantedEvents K c).1.events
    · simp only [if_pos hChange]
      cases hOk : K.epollCtl (wantedEvents K c).1.calls with
      | true => exact ⟨fun _ => rfl, by simpa [Io.connects] using hConnects, hFrame.connectSent,
          fun hState _ => hBlind hState⟩
      | false => exact ⟨fun h => absurd (Or.inl rfl) h, by simpa [Io.connects] using hConnects,
          hFrame.connectSent, fun h => by cases h⟩
    · simp only [if_neg hChange]
      have hWanted := not_not.mp hChange
      have hRegistered : ¬ Closed (wantedEvents K c).1 →
          (wantedEvents K c).1.events = registered (wantedEvents K c).1.log := fun hNot => by
        rw [hFrame.events, hMask, hWatched (hOpen hNot)]
      refine ⟨hRegistered, hConnects, hFrame.connectSent, fun hState _ => ?_⟩
      have hNot : ¬ Closed (wantedEvents K c).1 := by simp [Closed, hState]
      rw [← hRegistered hNot, ← hWanted]
      exact hBlind hState
  · rw [if_neg hSocket]
    exact ⟨hWatched, rfl, rfl, fun _ h => absurd h hSocket⟩

/-- A segment or a check begins no handshake. -/
theorem synRecv_step (hLife : Lifecycle c) (hPort : c.tcp.dest = 443)
    (hSent : c.tcp.connectSent ≠ .established) (hInput : ∀ ev, i ≠ .event ev)
    (hState : (step c (K, i)).tcp.state = .synRecv) : c.tcp.state = .synRecv := by
  by_contra hOther
  have hNot : ¬ Begun c := by
    rintro (hSyn | hTunnel)
    · exact hOther hSyn
    · exact hSent (hLife.tunnel hPort hTunnel)
  have hUnbegun := unbegun_step (K := K) (unbegun_of_not_begun hLife hNot) hInput
  exact hUnbegun.not_begun (Or.inl hState)

theorem Guarded.step {w : Watched} (h : Guarded w) (hDescriptor : Descriptor w.cell)
    {input : Kernel × Input} (hScheduled : Scheduled w input) (hEscapes : ¬ Escapes w.cell input)
    (hRevives : ¬ RevivesUnwatched w.cell input) : Guarded (watch w input) := by
  obtain ⟨K, i⟩ := input
  have hLife := h.life.step (K, i)
  have hPort : (Tun2Http.step w.cell (K, i)).tcp.dest = 443 := (step_dest _ _).trans h.port
  have hEarlier : (Tun2Http.step w.cell (K, i)).tcp.connectSent ≠ .established →
      w.cell.tcp.connectSent ≠ .established := mt fun hSent => established_step hSent (K, i)
  have hHanded : (Tun2Http.step w.cell (K, i)).tcp.connectSent ≠ .established →
      Tun2Http.handed (Tun2Http.step w.cell (K, i)).log = [] := fun hSent =>
    (handed_step (turns_eq_nil h (hEarlier hSent) hScheduled hEscapes)).trans
      (h.handed (hEarlier hSent))
  by_cases hMonitor : i = .monitor
  · subst hMonitor
    obtain ⟨hWatched, hConnects, hSame, hBlind⟩ := step_monitor w.cell K h.watched
    refine ⟨hLife, hPort, hHanded, hConnects.le.trans h.connects, fun hSent => ?_, hWatched,
      fun hState hSent _ => ?_⟩
    · exact hConnects.trans (h.tried (hSame.symm.trans hSent))
    · have hBefore := synRecv_step h.life h.port (hEarlier hSent) (fun ev => by simp) hState
      exact hBlind hState (hDescriptor.nonneg (by simp [hBefore]))
  · obtain ⟨hEvents, hMask, hConnects, hTried⟩ := step_asks w.cell K hMonitor
    refine ⟨hLife, hPort, hHanded, ?_, fun hSent => ?_, fun hOpen => ?_, fun hState hSent hArmed => ?_⟩
    · show Tun2Http.connects (Tun2Http.step w.cell (K, i)).log ≤ 1
      rcases hConnects with hSame | ⟨hNot, hMore, -⟩
      · rw [hSame]
        exact h.connects
      · rw [hMore, h.tried hNot]
    · show Tun2Http.connects (Tun2Http.step w.cell (K, i)).log = 0
      rcases hConnects with hSame | ⟨-, -, hAsked⟩
      · rw [hSame]
        exact h.tried (hTried hSent)
      · exact absurd hSent hAsked
    · show (Tun2Http.step w.cell (K, i)).events = registered (Tun2Http.step w.cell (K, i)).log
      rw [hEvents, hMask]
      by_cases hClosed : Closed w.cell
      · have hRevived : Revives w.cell (K, i) := by
          by_contra hNot
          have hRank := (closed_step_iff h.life (K, i)).mpr hNot
          exact hOpen (((TcpState.closed_le_iff _ _).mp hRank).1 hClosed)
        by_contra hDiffer
        exact hRevives ⟨hRevived, hDiffer⟩
      · exact h.watched hClosed
    · show (registered (Tun2Http.step w.cell (K, i)).log).epollout = false
      have hInput : ∀ ev, i ≠ .event ev := by
        rintro ev rfl
        cases hArmed
      have hSame : w.armed = true := by
        cases i with
        | event ev => exact absurd rfl (hInput ev)
        | monitor => exact absurd rfl hMonitor
        | segment hdr data => exact hArmed
        | check sessions maxsessions => exact hArmed
        | allowed => exact hArmed
      rw [hMask]
      exact h.blind (synRecv_step h.life h.port (hEarlier hSent) hInput hState) (hEarlier hSent) hSame

/-- A new session has nothing to guard. -/
theorem guarded_newSession {info : SynInfo} {hdr : TcpHdr} {data : Payload}
    (hNew : newSession K info hdr data = some c) (hPort : hdr.dest = 443) : Guarded ⟨c, false⟩ := by
  have hLife := lifecycle_newSession hNew
  obtain ⟨hSocket, hLog, window, hTcp⟩ := newSession_eq hNew
  refine ⟨hLife, by rw [hTcp]; exact hPort, fun _ => ?_, ?_, fun _ => ?_,
    fun _ => newSession_registered hNew, fun hState => ?_⟩
  · rw [hLog]
    rfl
  · simp [hLog, connects, Io.connects]
  · simp [hLog, connects, Io.connects]
  · simp [hTcp, synSession] at hState

/-- In every schedule in which no pending event lets a closing session send,
and no session is revived under a mask it does not know, the CONNECT request
comes first, and once. -/
theorem connect_first {info : SynInfo} {hdr : TcpHdr} {data : Payload} {start : Cell}
    (hNew : newSession K info hdr data = some start) (hPort : hdr.dest = 443)
    (inputs : List (Kernel × Input)) (hSchedule : Along watch Scheduled ⟨start, false⟩ inputs)
    (hRun : Along step (fun c input => ¬ Escapes c input ∧ ¬ RevivesUnwatched c input) start inputs) :
    ConnectFirst start inputs := by
  intro first rest hSplit
  subst hSplit
  have hWatch := along_view (t := ⟨start, false⟩) watch_cell hRun
  have hBoth := (along_append.mp (hSchedule.and hWatch)).1
  have hEnd := run_invariant (I := fun w : Watched => Guarded w ∧ Descriptor w.cell)
    ⟨guarded_newSession hNew hPort, descriptor_newSession hNew⟩ hBoth fun w input hw hOk =>
      ⟨hw.1.step hw.2 hOk.1 hOk.2.1 hOk.2.2, hw.2.step input⟩
  have hCell : (run watch ⟨start, false⟩ first).cell = run step start first :=
    run_view watch_cell _ first
  rw [← hCell]
  exact ⟨hEnd.1.handed, hEnd.1.connects⟩

/-- The wait for the connect, the SYN-ACK, and the packet that sends the CONNECT. -/
theorem connect_first_request :
    ConnectFirst (clientCell 443 .empty) [(.willing, .monitor),
      (.willing, .event { epollout := true }),
      (.willing, .segment (clientSegment 443 1 1001) ⟨[104, 105], by decide⟩)] := by
  have hOpen : ∀ {c : Cell} {input}, c.tcp.state ≠ .closing →
      ¬ Escapes c input ∧ ¬ RevivesUnwatched c input := fun hState =>
    ⟨fun h => hState h.1, fun h => hState h.1.1⟩
  apply connect_first (newSession_client 443 .empty) rfl
  · decide
  · exact ⟨hOpen (by decide), hOpen (by decide), hOpen (by decide), trivial⟩

/-- The CONNECT request fails, its reset counts the SYN, and the client's data
goes out on the event that the connect left behind. -/
theorem connect_not_first : ∃ inputs, Along watch Scheduled ⟨clientCell 443 .empty, false⟩ inputs ∧
    ¬ ConnectFirst (clientCell 443 .empty) inputs := by
  let inputs : List (Kernel × Input) := [(.willing, .monitor),
    ({ Kernel.willing with send := fun _ => .error ebadf },
      .segment (clientSegment 443 1 1001) ⟨[104, 105], by decide⟩),
    (.willing, .event { epollout := true })]
  refine ⟨inputs, by decide, fun h => ?_⟩
  have hEarly := (h inputs [] (List.append_nil _).symm).1 (by decide)
  exact absurd hEarly (by decide)

end Tun2Http
