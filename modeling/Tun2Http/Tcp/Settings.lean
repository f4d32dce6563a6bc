import Tun2Http.Tcp.Upstream

/-! What the SYN settles for good: version, ends and MSS of the session. A step
leaves them alone, and reads from the socket at most once, at a cell that is
named here. -/
namespace Tun2Http

open Machine

/-- What no step of a session changes. -/
structure Settings where
  version : Nat
  mss : U16
  saddr : List UInt8
  source : U16
  daddr : List UInt8
  dest : U16
  deriving DecidableEq

def TcpSession.settings (t : TcpSession) : Settings :=
  ⟨t.version, t.mss, t.saddr, t.source, t.daddr, t.dest⟩

/-- The call reads nothing from the socket. -/
def Io.unread : Io → Prop
  | .recv _ => False
  | _ => True

/-- From `c` to `d` the settings stay, and nothing is read. -/
structure Settled (c d : Cell) : Prop where
  settings : d.tcp.settings = c.tcp.settings
  calls : Calls Io.unread c d

namespace Settled

variable {a b c d : Cell}

theorem of_log_eq (hSettings : d.tcp.settings = c.tcp.settings) (hLog : d.log = c.log) :
    Settled c d :=
  ⟨hSettings, .of_log_eq hLog⟩

theorem refl (c : Cell) : Settled c c := .of_log_eq rfl rfl

theorem trans (hFirst : Settled a b) (hSecond : Settled b c) : Settled a c :=
  ⟨hSecond.settings.trans hFirst.settings, hFirst.calls.trans hSecond.calls⟩

theorem frame {seq : U32} (h : Frame seq c d) : Settled c d := by
  refine ⟨?_, h.calls.mono fun entry hEntry => by cases entry <;> simp_all [Io.repeats, Io.unread]⟩
  rw [h.tcp]
  rfl

theorem countSyn (c : Cell) : Settled c c.countSyn := ⟨rfl, .one .countSyn trivial rfl⟩

theorem countFin (c : Cell) : Settled c c.countFin := ⟨rfl, .one .countFin trivial rfl⟩

theorem setState (c : Cell) (state : TcpState) : Settled c (c.setState state) := .of_log_eq rfl rfl

theorem advanceLocal (c : Cell) (count : Nat) : Settled c (c.advanceLocal count) := .of_log_eq rfl rfl

theorem touch (K : Kernel) (c : Cell) : Settled c (touch K c) := .frame (frame_touch K 0 c)

theorem setAcked (c : Cell) (ackSeq : U32) :
    Settled c { c with tcp := { c.tcp with acked := ackSeq } } := .of_log_eq rfl rfl

theorem afterWrite (c : Cell) (packet : TcpPacket) (whole : Bool) :
    Settled c (afterWrite c packet whole) := by
  refine ⟨?_, .one (.tun packet whole) trivial (afterWrite_log c packet whole)⟩
  rw [afterWrite_tcp]
  rfl

theorem writeOrClose (K : Kernel) (c : Cell) (payload : List UInt8) (syn fin : Bool) :
    Settled c (writeOrClose K c payload syn fin).1 := by
  rw [writeOrClose_eq]
  exact .afterWrite c _ _

theorem writeRst (K : Kernel) (c : Cell) : Settled c (writeRst K c) := by
  by_cases hState : c.tcp.state = .listen
  · rw [writeRst_of_listen K c hState]
    exact ⟨rfl, [.tun _ _, .countSyn], by simp [Io.unread], rfl⟩
  · exact .frame (frame_writeRst K 0 hState)

theorem queueTcp (hdr : TcpHdr) (data : Payload) (c : Cell) : Settled c (queueTcp hdr data c) := by
  unfold Tun2Http.queueTcp
  split_ifs
  · exact refl c
  · exact .of_log_eq rfl rfl

end Settled

variable {K : Kernel} {c d : Cell}

/-! A segment of the client. -/

theorem settled_handleFin (K : Kernel) (c : Cell) : Settled c (handleFin K c) := by
  apply handleFin_keeps (P := Settled c) (.refl c)
  · exact (Settled.countFin c).trans (.writeOrClose K _ _ _ _)
  · exact fun d next h => h.trans (.setState d next)

theorem settled_handleFlags (K : Kernel) (hdr : TcpHdr) (c : Cell) :
    Settled c (handleFlags K hdr c) := by
  have hAcked := Settled.setAcked c hdr.ackSeq
  have hAck : Settled c (handleAck hdr.ackSeq c) :=
    handleAck_keeps hAcked fun d next h => h.trans (.setState d next)
  have hOther : Settled c (handleOtherAck K hdr.ackSeq c) := by
    have hKeepAlive : Settled c (c.call .keepAlive) := ⟨rfl, .one .keepAlive trivial rfl⟩
    exact handleOtherAck_keeps (.refl c) hKeepAlive (fun _ => hAcked) (.writeRst K c)
  exact handleFlags_keeps (.refl c) (.setState c _) (settled_handleFin K c) (fun _ _ => hAck) hOther

theorem settled_refresh (K : Kernel) (hdr : TcpHdr) (c : Cell) : Settled c (refresh K hdr c) :=
  (Settled.touch K c).trans (.of_log_eq rfl rfl)

theorem settled_connectPhase (K : Kernel) (data : Payload) (c : Cell) :
    Settled c (connectPhase K data c) := by
  have hNamed : Settled c (storeHostname (connectHost data.val c) c) := by
    unfold storeHostname
    split_ifs
    · exact .of_log_eq rfl rfl
    · exact .refl c
  have hSend : ∀ (d : Cell) request, Settled d (sendConnect K d request).1 := fun d request =>
    ⟨rfl, .one (.sendConnect request _) trivial rfl⟩
  unfold connectPhase
  dsimp only
  split_ifs
  · split
    · exact (hNamed.trans (hSend _ _)).trans (.writeRst K _)
    · exact (hNamed.trans (hSend _ _)).trans (.of_log_eq rfl rfl)
  · exact hNamed

theorem settled_existingSession (K : Kernel) (rport : U16) (hdr : TcpHdr) (data : Payload)
    (c : Cell) : Settled c (existingSession K rport hdr data c) := by
  have hTunnel : ∀ d : Cell, Settled d (tunnelSegment K rport hdr data d) := by
    intro d
    apply tunnelSegment_keeps (P := Settled d) (.refl d) (settled_refresh K hdr d)
    · exact fun e h => h.trans (.queueTcp hdr data e)
    · exact fun e h => h.trans (.writeRst K e)
    · exact fun e h => h.trans (settled_handleFlags K hdr e)
  unfold existingSession
  split_ifs
  · exact .refl c
  · exact (settled_connectPhase K data c).trans (hTunnel _)
  · exact hTunnel c

/-! The monitor. -/

theorem settled_monitor (K : Kernel) (c : Cell) : Settled c (monitorTcpSession K c).1 := by
  have hWanted : Settled c (wantedEvents K c).1 := .frame (frame_wantedEvents K c)
  have hMod : ∀ (e : Cell) events ok,
      Settled e ({ e with events := events }.call (.epollMod events ok)) := fun e events ok =>
    ⟨rfl, .one (.epollMod events ok) trivial rfl⟩
  unfold monitorTcpSession
  dsimp only
  split_ifs
  · exact hWanted.trans (hMod _ _ _)
  · exact (hWanted.trans (hMod _ _ _)).trans (.setState _ _)
  · exact hWanted

/-! The socket. -/

theorem settled_forwardData (K : Kernel) (c : Cell) : Settled c (forwardData K c).1 := by
  apply forwardLoop_keeps _ _ _ _ (Settled.frame (frame_getReceiveBuffer K 0 c))
  intro seg queue d h
  have hTurn : Settled d ((sentOn K seg d).setForward queue) :=
    ⟨rfl, .one (.send (forwardRequest K d seg) (sendAnswer K seg d)) trivial rfl⟩
  exact h.trans hTurn

theorem settled_acknowledge (K : Kernel) (fwd : Bool) (c : Cell) :
    Settled c (acknowledge K fwd c) := by
  have hConfirm : Settled c (confirmFin fwd c) := by
    unfold confirmFin
    split_ifs
    · exact .countFin c
    · exact .refl c
  have hWrite : Settled c (writeAck K (confirmFin fwd c)).1 :=
    hConfirm.trans (.writeOrClose K _ _ _ _)
  rw [acknowledge_eq]
  dsimp only
  split_ifs
  · exact hWrite.trans (.touch K _)
  · exact hWrite

theorem settled_socketEof (K : Kernel) (c : Cell) : Settled c (socketEof K c) := by
  have hClose : ∀ d, Settled c d → Settled c (closeSocket d) := fun d h =>
    h.trans (.frame (frame_closeSocket 0 d))
  unfold socketEof
  split_ifs
  · have hWrite : Settled c (writeFinAck K c).1 := .writeOrClose K c _ _ _
    apply hClose
    split_ifs
    all_goals first
      | exact (hWrite.trans (.advanceLocal _ 1)).trans (.setState _ _)
      | exact hWrite.trans (.advanceLocal _ 1)
      | exact hWrite.trans (.setState _ _)
  · exact hClose _ (.writeRst K c)

theorem settled_relay (K : Kernel) (bytes : List UInt8) (c : Cell) :
    Settled c (relay K bytes c) := by
  set d : Cell := { c with tcp := { c.tcp with
    received := c.tcp.received + BitVec.ofNat 64 bytes.length } }
  have hReceived : Settled c d := .of_log_eq rfl rfl
  have hWrite : Settled c (writeData K d bytes).1 := hReceived.trans (.writeOrClose K d _ _ _)
  have hEq : relay K bytes c = if (writeData K d bytes).2 then
      (writeData K d bytes).1.advanceLocal bytes.length else (writeData K d bytes).1 := rfl
  rw [hEq]
  split_ifs
  · exact hWrite.trans (.advanceLocal _ _)
  · exact hWrite

/-- What follows a `recv()` reads no more. -/
theorem settled_socketReceived (K : Kernel) (result : RecvResult) (c : Cell) :
    Settled c (socketReceived K result c) := by
  unfold socketReceived
  split
  · split_ifs
    · exact .writeRst K c
    · exact .refl c
  · exact settled_socketEof K c
  · exact settled_relay K _ c

theorem settled_beforeRead (K : Kernel) (ev : EpollEvents) (c : Cell) :
    Settled c (beforeRead K ev c) := by
  apply beforeRead_keeps (P := Settled c) (.refl c)
  · exact settled_forwardData K c
  · exact fun d h => h.trans (.frame (frame_storeWindow K 0 d))
  · exact fun fwd d h => h.trans (settled_acknowledge K fwd d)

/-- The session as it is where the step reads from the socket of an open session. -/
def reading (c : Cell) (input : Kernel × Input) : Option Cell :=
  match input.2 with
  | .event ev =>
      let d := beforeRead input.1 ev c
      if 0 ≤ c.socket ∧ ¬ev.epollerr ∧ c.tcp.state ≠ .listen ∧
          (d.tcp.state = .established ∨ d.tcp.state = .closeWait) ∧
          ev.epollin ∧ 0 < getSendWindow d.tcp then some d
      else none
  | _ => none

/-- It reads as much as `readSize` says. -/
def readFrom (K : Kernel) (d : Cell) : Cell × RecvResult := recvFrom K (touch K d) (readSize d.tcp)

/-- A step that reads goes on with what it read. -/
theorem step_of_reading {i : Input} (h : reading c (K, i) = some d) :
    Settled c d ∧ (d.tcp.state = .established ∨ d.tcp.state = .closeWait) ∧
      0 < getSendWindow d.tcp ∧
      step c (K, i) = socketReceived K (readFrom K d).2 (readFrom K d).1 := by
  cases i with
  | event ev =>
      simp only [reading, Option.ite_none_right_eq_some, Option.some.injEq] at h
      obtain ⟨⟨hSocket, hError, hState, hOpen, hIn, hWindow⟩, rfl⟩ := h
      refine ⟨settled_beforeRead K ev c, hOpen, hWindow, ?_⟩
      unfold step checkTcpSocket
      dsimp only
      rw [if_pos hSocket, if_neg hError, if_neg hState, socketReady_eq]
      apply (if_pos hOpen).trans
      exact if_pos ⟨hIn, hWindow⟩
  | _ => cases h

/-- Any other step reads at most the proxy's reply. -/
theorem step_of_not_reading {i : Input} (h : reading c (K, i) = none) :
    Settled c (step c (K, i)) ∨
      (c.tcp.state = .listen ∧
        step c (K, i) = listenReceived K (recvFrom K c 12).2 (recvFrom K c 12).1) := by
  cases i with
  | segment hdr data => exact Or.inl (settled_existingSession K _ hdr data c)
  | monitor =>
      left
      unfold step
      dsimp only
      split_ifs
      · exact settled_monitor K c
      · exact .refl c
  | check sessions maxsessions => exact Or.inl (.frame (frame_checkTcpSession K 0 _ _ c))
  | allowed => exact Or.inl (checkAllowed_keeps (.refl c) (.writeRst K c))
  | event ev =>
      unfold step checkTcpSocket
      dsimp only
      split_ifs with hSocket hError hState
      · exact Or.inl ((Settled.touch K c).trans (.writeRst K _))
      · unfold socketListen
        split_ifs with hIn
        · exact Or.inr ⟨hState, rfl⟩
        · left
          have hWrite : Settled c (writeSynAck K c.countSyn).1 :=
            (Settled.countSyn c).trans (.writeOrClose K _ _ _ _)
          dsimp only
          split_ifs
          · exact ((hWrite.trans (.touch K _)).trans (.advanceLocal _ 1)).trans (.setState _ _)
          · exact hWrite
      · left
        have hBefore := settled_beforeRead K ev c
        rw [socketReady_eq]
        split_ifs with hOpen
        · unfold socketRead
          rw [if_neg]
          · exact hBefore
          · intro hRead
            simp only [reading] at h
            rw [if_pos ⟨hSocket, hError, hState, hOpen, hRead⟩] at h
            cases h
        · exact hBefore
      · exact Or.inl (.refl c)

/-- The reply is not passed on. -/
theorem listenReceived_settings (K : Kernel) (result : RecvResult) (c : Cell) :
    (listenReceived K result c).tcp.settings = c.tcp.settings := by
  unfold listenReceived
  split
  · exact (Settled.writeRst K c).settings
  · split_ifs
    · rfl
    · exact (Settled.writeRst K c).settings
    · rfl

/-- No step changes the settings. -/
theorem step_settings (c : Cell) (input : Kernel × Input) :
    (step c input).tcp.settings = c.tcp.settings := by
  obtain ⟨K, i⟩ := input
  cases hReading : reading c (K, i) with
  | some d =>
      obtain ⟨hBefore, -, -, hStep⟩ := step_of_reading hReading
      rw [hStep]
      exact (settled_socketReceived K _ _).settings.trans hBefore.settings
  | none =>
      rcases step_of_not_reading hReading with hSettled | ⟨-, hListen⟩
      · exact hSettled.settings
      · rw [hListen]
        exact listenReceived_settings K _ _

theorem step_mss (c : Cell) (input : Kernel × Input) : (step c input).tcp.mss = c.tcp.mss :=
  congrArg Settings.mss (step_settings c input)

/-- A run keeps what the SYN settled. -/
theorem run_settings (c : Cell) (inputs : List (Kernel × Input)) :
    (run step c inputs).tcp.settings = c.tcp.settings :=
  run_invariant_always (I := fun d => d.tcp.settings = c.tcp.settings) inputs rfl
    fun d input hd => (step_settings d input).trans hd

end Tun2Http
