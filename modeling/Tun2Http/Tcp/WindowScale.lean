import Tun2Http.Native.Session
import Tun2Http.Tcp.Options
import Tun2Http.Tcp.SegmentSize

/-! The window scale of the client: the SYN settles it for both directions, and
every segment shifts its window by it. -/
namespace Tun2Http

open Machine

/-- Both scales, and the window that the client last announced. -/
def TcpSession.scaling (t : TcpSession) : BitVec 8 × BitVec 8 × U32 :=
  (t.recvScale, t.sendScale, t.sendWindow)

/-- From `c` to `d` the scales and the client's window stay. -/
def KeepsScaling (c d : Cell) : Prop := d.tcp.scaling = c.tcp.scaling

namespace KeepsScaling

variable {a b c d : Cell}

theorem recvScale (h : KeepsScaling c d) : d.tcp.recvScale = c.tcp.recvScale := congrArg Prod.fst h

theorem sendScale (h : KeepsScaling c d) : d.tcp.sendScale = c.tcp.sendScale :=
  congrArg (fun scaling => scaling.2.1) h

theorem sendWindow (h : KeepsScaling c d) : d.tcp.sendWindow = c.tcp.sendWindow :=
  congrArg (fun scaling => scaling.2.2) h

theorem refl (c : Cell) : KeepsScaling c c := rfl

theorem trans (hFirst : KeepsScaling a b) (hSecond : KeepsScaling b c) : KeepsScaling a c :=
  Eq.trans hSecond hFirst

theorem frame {seq : U32} (h : Frame seq c d) : KeepsScaling c d := by
  rw [KeepsScaling, h.tcp]
  rfl

theorem touch (K : Kernel) (c : Cell) : KeepsScaling c (touch K c) := rfl

theorem setState (c : Cell) (state : TcpState) : KeepsScaling c (c.setState state) := rfl

theorem writeOrClose (K : Kernel) (c : Cell) (payload : List UInt8) (syn fin : Bool) :
    KeepsScaling c (writeOrClose K c payload syn fin).1 := by
  rw [writeOrClose_eq, KeepsScaling, afterWrite_tcp]
  rfl

theorem writeRst (K : Kernel) (c : Cell) : KeepsScaling c (writeRst K c) := by
  by_cases hState : c.tcp.state = .listen
  · rw [writeRst_of_listen K c hState]
    rfl
  · exact .frame (frame_writeRst K 0 hState)

theorem queueTcp (hdr : TcpHdr) (data : Payload) (c : Cell) :
    KeepsScaling c (queueTcp hdr data c) := by
  unfold Tun2Http.queueTcp
  split_ifs <;> rfl

end KeepsScaling

variable {K : Kernel} {c : Cell} {hdr : TcpHdr} {data : Payload}

/-! A segment of the client. -/

theorem keepsScaling_handleFlags (K : Kernel) (hdr : TcpHdr) (c : Cell) :
    KeepsScaling c (handleFlags K hdr c) := by
  have hState : ∀ d next, KeepsScaling c d → KeepsScaling c (d.setState next) := fun d next h =>
    h.trans (.setState d next)
  have hFin : KeepsScaling c (handleFin K c) := by
    have hCount : KeepsScaling c c.countFin := rfl
    exact handleFin_keeps (.refl c) (hCount.trans (.writeOrClose K _ _ _ _)) hState
  have hAck : KeepsScaling c (handleAck hdr.ackSeq c) := handleAck_keeps rfl hState
  have hOther : KeepsScaling c (handleOtherAck K hdr.ackSeq c) :=
    handleOtherAck_keeps (.refl c) rfl (fun _ => rfl) (.writeRst K c)
  exact handleFlags_keeps (.refl c) (.setState c _) hFin (fun _ _ => hAck) hOther

theorem keepsScaling_connectPhase (K : Kernel) (data : Payload) (c : Cell) :
    KeepsScaling c (connectPhase K data c) := by
  have hNamed : KeepsScaling c (storeHostname (connectHost data.val c) c) := by
    unfold storeHostname
    split_ifs <;> rfl
  have hSent : ∀ d, KeepsScaling c d → ∀ request, KeepsScaling c (sendConnect K d request).1 :=
    fun d h request => h.trans (by unfold sendConnect; dsimp only; split_ifs <;> rfl)
  unfold connectPhase
  dsimp only
  generalize storeHostname (connectHost data.val c) c = named at hNamed ⊢
  generalize connectRequest named.tcp.hostname = request
  have hAfter := hSent named hNamed request
  generalize sendConnect K named request = result at hAfter ⊢
  split_ifs
  · split
    · exact hAfter.trans (.writeRst K result.1)
    · exact hAfter
  · exact hNamed

/-- The session as the CONNECT phase leaves it, where there is one. -/
def afterConnect (K : Kernel) (data : Payload) (c : Cell) : Cell :=
  if c.tcp.dest = 443 then connectPhase K data c else c

theorem keepsScaling_afterConnect (K : Kernel) (data : Payload) (c : Cell) :
    KeepsScaling c (afterConnect K data c) := by
  unfold afterConnect
  split_ifs
  · exact keepsScaling_connectPhase K data c
  · exact .refl c

/-- The segment gets to where its window is stored: neither is it urgent, nor
only queued in the CONNECT phase, nor is the session closed. -/
def StoresWindow (K : Kernel) (hdr : TcpHdr) (data : Payload) (c : Cell) : Prop :=
  hdr.urg = false ∧
    ¬ (c.tcp.dest = 443 ∧ (afterConnect K data c).tcp.connectSent ≠ .established) ∧
    ¬ Closed (afterConnect K data c)

/-- A segment that gets there stores its window, shifted. -/
theorem segment_scaling (hStores : StoresWindow K hdr data c) :
    (existingSession K c.tcp.dest hdr data c).tcp.scaling =
      (c.tcp.recvScale, c.tcp.sendScale, hdr.window.setWidth 32 <<< c.tcp.sendScale.toNat) := by
  obtain ⟨hUrg, hTunnel, hOpen⟩ := hStores
  have hConnect := keepsScaling_afterConnect K data c
  have hShape : existingSession K c.tcp.dest hdr data c =
      handleSegment K hdr data (afterConnect K data c) := by
    unfold existingSession tunnelSegment
    rw [if_neg (by simp [hUrg])]
    exact (if_neg hTunnel).trans (if_neg hOpen)
  set d := afterConnect K data c
  have hRefresh : (refresh K hdr d).tcp.scaling =
      (d.tcp.recvScale, d.tcp.sendScale, hdr.window.setWidth 32 <<< d.tcp.sendScale.toNat) := rfl
  have hKeeps : KeepsScaling (refresh K hdr d) (handleSegment K hdr data d) := by
    unfold handleSegment
    dsimp only
    split_ifs
    · exact .writeRst K _
    · exact .writeRst K _
    · exact (KeepsScaling.queueTcp hdr data _).trans (keepsScaling_handleFlags K hdr _)
    · exact keepsScaling_handleFlags K hdr _
  rw [hShape, hKeeps, hRefresh, hConnect.recvScale, hConnect.sendScale]

/-- Any other segment leaves the window. -/
theorem segment_keepsScaling (hStores : ¬ StoresWindow K hdr data c) :
    KeepsScaling c (existingSession K c.tcp.dest hdr data c) := by
  have hConnect := keepsScaling_afterConnect K data c
  unfold existingSession
  by_cases hUrg : hdr.urg = true
  · rw [if_pos hUrg]
    exact .refl c
  · rw [if_neg hUrg]
    change KeepsScaling c (tunnelSegment K c.tcp.dest hdr data (afterConnect K data c))
    unfold tunnelSegment
    split_ifs with hTunnel hClosed
    · exact hConnect.trans (.queueTcp hdr data _)
    · exact hConnect.trans (.writeRst K _)
    · exact absurd ⟨by simpa using hUrg, hTunnel, hClosed⟩ hStores

/-! The other inputs. -/

theorem keepsScaling_monitor (K : Kernel) (c : Cell) :
    KeepsScaling c (monitorTcpSession K c).1 := by
  have hWanted : KeepsScaling c (wantedEvents K c).1 := .frame (frame_wantedEvents K c)
  unfold monitorTcpSession
  dsimp only
  split_ifs
  · exact hWanted.trans rfl
  · exact hWanted.trans rfl
  · exact hWanted

theorem keepsScaling_beforeRead (K : Kernel) (ev : EpollEvents) (c : Cell) :
    KeepsScaling c (beforeRead K ev c) := by
  apply beforeRead_keeps (P := KeepsScaling c) (.refl c)
  · apply forwardLoop_keeps _ _ _ _ (KeepsScaling.frame (frame_getReceiveBuffer K 0 c))
    exact fun seg queue d h => h.trans rfl
  · exact fun d h => h.trans (.frame (frame_storeWindow K 0 d))
  · intro fwd d h
    have hConfirm : KeepsScaling d (confirmFin fwd d) := by
      unfold confirmFin
      split_ifs <;> rfl
    have hWrite : KeepsScaling c (writeAck K (confirmFin fwd d)).1 :=
      (h.trans hConfirm).trans (.writeOrClose K _ _ _ _)
    rw [acknowledge_eq]
    dsimp only
    split_ifs
    · exact hWrite.trans (.touch K _)
    · exact hWrite

theorem keepsScaling_socketReceived (K : Kernel) (result : RecvResult) (c : Cell) :
    KeepsScaling c (socketReceived K result c) := by
  have hClose : ∀ d, KeepsScaling c d → KeepsScaling c (closeSocket d) := fun d h => h.trans rfl
  have hEof : KeepsScaling c (socketEof K c) := by
    unfold socketEof
    split_ifs
    · have hWrite : KeepsScaling c (writeFinAck K c).1 := .writeOrClose K c _ _ _
      apply hClose
      split_ifs <;> exact hWrite.trans rfl
    · exact hClose _ (.writeRst K c)
  have hRelay : ∀ bytes, KeepsScaling c (relay K bytes c) := by
    intro bytes
    set d : Cell := { c with tcp := { c.tcp with
      received := c.tcp.received + BitVec.ofNat 64 bytes.length } }
    have hReceived : KeepsScaling c d := rfl
    have hWrite : KeepsScaling c (writeData K d bytes).1 :=
      hReceived.trans (.writeOrClose K d _ _ _)
    have hEq : relay K bytes c = if (writeData K d bytes).2 then
        (writeData K d bytes).1.advanceLocal bytes.length else (writeData K d bytes).1 := rfl
    rw [hEq]
    split_ifs
    · exact hWrite.trans rfl
    · exact hWrite
  unfold socketReceived
  split
  · split_ifs
    · exact .writeRst K c
    · exact .refl c
  · exact hEof
  · exact hRelay _

theorem keepsScaling_socketListen (K : Kernel) (ev : EpollEvents) (c : Cell) :
    KeepsScaling c (socketListen K ev c) := by
  unfold socketListen
  split_ifs
  · have hRecv : KeepsScaling c (recvFrom K c 12).1 := rfl
    unfold listenReceived
    dsimp only
    split
    · exact hRecv.trans (.writeRst K _)
    · split_ifs
      · exact hRecv.trans rfl
      · exact hRecv.trans (.writeRst K _)
      · exact hRecv
  · have hCount : KeepsScaling c c.countSyn := rfl
    have hWrite : KeepsScaling c (writeSynAck K c.countSyn).1 :=
      hCount.trans (.writeOrClose K _ _ _ _)
    dsimp only
    split_ifs
    · exact hWrite.trans rfl
    · exact hWrite

theorem keepsScaling_checkTcpSocket (K : Kernel) (ev : EpollEvents) (c : Cell) :
    KeepsScaling c (checkTcpSocket K ev c) := by
  unfold checkTcpSocket
  split_ifs
  · exact (KeepsScaling.touch K c).trans (.writeRst K _)
  · exact keepsScaling_socketListen K ev c
  · have hBefore := keepsScaling_beforeRead K ev c
    rw [socketReady_eq, socketRead]
    split_ifs
    · exact hBefore.trans ((KeepsScaling.touch K _).trans (keepsScaling_socketReceived K _ _))
    · exact hBefore
    · exact hBefore

/-- Nothing but a segment changes the client's window. -/
theorem step_keepsScaling (c : Cell) (K : Kernel) {i : Input}
    (hInput : ∀ hdr data, i ≠ .segment hdr data) : KeepsScaling c (step c (K, i)) := by
  cases i with
  | segment hdr data => exact absurd rfl (hInput hdr data)
  | event ev =>
      unfold step
      dsimp only
      split_ifs
      · exact keepsScaling_checkTcpSocket K ev c
      · exact .refl c
  | monitor =>
      unfold step
      dsimp only
      split_ifs
      · exact keepsScaling_monitor K c
      · exact .refl c
  | check sessions maxsessions => exact .frame (frame_checkTcpSession K 0 _ _ c)
  | allowed => exact checkAllowed_keeps (.refl c) (.writeRst K c)

/-- A session with the scale `ws` in both directions. -/
def ScaledBy (ws : BitVec 8) (c : Cell) : Prop := c.tcp.recvScale = ws ∧ c.tcp.sendScale = ws

theorem ScaledBy.keeps {ws : BitVec 8} {d : Cell} (h : ScaledBy ws c) (hKeeps : KeepsScaling c d) :
    ScaledBy ws d := ⟨hKeeps.recvScale.trans h.1, hKeeps.sendScale.trans h.2⟩

/-- No step changes the scales. -/
theorem ScaledBy.step {ws : BitVec 8} (h : ScaledBy ws c) (input : Kernel × Input) :
    ScaledBy ws (step c input) := by
  obtain ⟨K, i⟩ := input
  cases i with
  | segment hdr data =>
      change ScaledBy ws (existingSession K c.tcp.dest hdr data c)
      by_cases hStores : StoresWindow K hdr data c
      · have hScaling := segment_scaling hStores
        simp only [TcpSession.scaling, Prod.mk.injEq] at hScaling
        exact ⟨hScaling.1.trans h.1, hScaling.2.1.trans h.2⟩
      · exact h.keeps (segment_keepsScaling hStores)
  | event ev => exact h.keeps (step_keepsScaling c K fun _ _ h => by cases h)
  | monitor => exact h.keeps (step_keepsScaling c K fun _ _ h => by cases h)
  | check sessions maxsessions => exact h.keeps (step_keepsScaling c K fun _ _ h => by cases h)
  | allowed => exact h.keeps (step_keepsScaling c K fun _ _ h => by cases h)

theorem ScaledBy.runs {ws : BitVec 8} (h : ScaledBy ws c) (inputs : List (Kernel × Input)) :
    ScaledBy ws (run Tun2Http.step c inputs) :=
  run_invariant_always inputs h fun _ input hc => hc.step input

/-- The window of a segment that gets there is stored as a number, and no other
input touches the client's window. -/
def WindowExact (c : Cell) (input : Kernel × Input) : Prop :=
  match input.2 with
  | .segment hdr data =>
      (StoresWindow input.1 hdr data c → (step c input).tcp.sendWindow.toNat =
        hdr.window.toNat * 2 ^ (step c input).tcp.sendScale.toNat) ∧
      (¬ StoresWindow input.1 hdr data c → (step c input).tcp.sendWindow = c.tcp.sendWindow)
  | _ => (step c input).tcp.sendWindow = c.tcp.sendWindow

/-- The window scaling of the session that the SYN `hdr` opens: in all its runs the
windows are exact, no shift by a scale is too wide, and the scales are legal. -/
structure ScalesExactly (hdr : TcpHdr) (start : Cell) : Prop where
  first : start.tcp.sendWindow.toNat = hdr.window.toNat * 2 ^ start.tcp.sendScale.toNat
  later : ∀ inputs, Along step WindowExact start inputs
  shifts : ∀ inputs, (run step start inputs).tcp.recvScale.toNat < 32 ∧
    (run step start inputs).tcp.sendScale.toNat < 32
  legal : ∀ inputs, (run step start inputs).tcp.recvScale.toNat ≤ 14 ∧
    (run step start inputs).tcp.sendScale.toNat ≤ 14

theorem ScaledBy.windowExact {ws : BitVec 8} (h : ScaledBy ws c) (hLegal : ws.toNat ≤ 14)
    (input : Kernel × Input) : WindowExact c input := by
  obtain ⟨K, i⟩ := input
  cases i with
  | segment hdr data =>
      refine ⟨fun hStores => ?_, fun hStores => (segment_keepsScaling hStores).sendWindow⟩
      have hScaling := segment_scaling hStores
      simp only [TcpSession.scaling, Prod.mk.injEq] at hScaling
      change (existingSession K c.tcp.dest hdr data c).tcp.sendWindow.toNat =
        hdr.window.toNat * 2 ^ (existingSession K c.tcp.dest hdr data c).tcp.sendScale.toNat
      rw [hScaling.2.1, hScaling.2.2, toNat_shifted _ (h.2 ▸ hLegal)]
  | event ev => exact (step_keepsScaling c K fun _ _ h => by cases h).sendWindow
  | monitor => exact (step_keepsScaling c K fun _ _ h => by cases h).sendWindow
  | check sessions maxsessions => exact (step_keepsScaling c K fun _ _ h => by cases h).sendWindow
  | allowed => exact (step_keepsScaling c K fun _ _ h => by cases h).sendWindow

/-! The option of the SYN. -/

/-- The option at `found` is a window scale. -/
def ScaleAt (mem : Memory) (found : Nat) : Prop := mem found = 3 ∧ mem (found + 1) = 3

/-- The last window scale that the option loop comes to. -/
structure LastScaleAt (mem : Memory) (stop options found : Nat) : Prop where
  comes : OptionAt mem stop options found
  scale : ScaleAt mem found
  last : ∀ later, OptionAt mem stop options later → ScaleAt mem later → later ≤ found

theorem OptionAt.le {mem : Memory} {stop options found : Nat} (h : OptionAt mem stop options found) :
    options ≤ found := by
  induction h with
  | here hInside => exact Nat.le_refl _
  | later hInside hKind hRest ih => exact (le_nextOption mem _).trans ih

/-- What the loop comes to is its first option, or behind that. -/
theorem optionAt_iff {mem : Memory} {stop options found : Nat} (hInside : options < stop)
    (hKind : mem options ≠ 0) : OptionAt mem stop options found ↔
      found = options ∨ OptionAt mem stop (nextOption mem options) found := by
  constructor
  · intro h
    cases h with
    | here => exact Or.inl rfl
    | later _ _ hRest => exact Or.inr hRest
  · rintro (rfl | hRest)
    · exact .here hInside
    · exact .later hInside hKind hRest

/-- A window scale behind the first option is the last of all. -/
theorem LastScaleAt.later {mem : Memory} {stop options last : Nat}
    (h : LastScaleAt mem stop (nextOption mem options) last) (hInside : options < stop)
    (hKind : mem options ≠ 0) : LastScaleAt mem stop options last := by
  refine ⟨.later hInside hKind h.comes, h.scale, fun other hOther hScale => ?_⟩
  rcases (optionAt_iff hInside hKind).mp hOther with rfl | hRest
  · exact (le_nextOption mem _).trans h.comes.le
  · exact h.last other hRest hScale

theorem value_optionScale (mem : Memory) (options : Nat) (ws : BitVec 8) :
    (optionScale (mem options) (mem (options + 1)) options ws).value mem =
      if mem options = 3 ∧ mem (options + 1) = 3 then (mem (options + 2)).toBitVec else ws := by
  unfold optionScale
  split_ifs <;> rfl

/-- The loop takes the scale from the last window scale that it comes to. -/
theorem decodeOptions_scale {mem : Memory} {stop options : Nat} {mss found : U16} {ws scale : BitVec 8}
    {turns : Nat}
    (hEnds : (decodeOptions turns options (stop - options) mss ws).value mem = some (found, scale)) :
    (∃ last, LastScaleAt mem stop options last ∧ scale = (mem (last + 2)).toBitVec) ∨
      ((∀ other, OptionAt mem stop options other → ¬ ScaleAt mem other) ∧ scale = ws) := by
  induction turns generalizing options mss ws with
  | zero => cases hEnds
  | succ turns ih =>
      by_cases hInside : options < stop
      · rw [value_decodeOptions_succ hInside] at hEnds
        by_cases hKind : mem options = 0
        · rw [if_pos hKind, Option.some.injEq, Prod.mk.injEq] at hEnds
          refine Or.inr ⟨fun other hOther hScale => ?_, hEnds.2.symm⟩
          cases hOther with
          | here => exact absurd (hKind.symm.trans hScale.1) (by decide)
          | later _ hSome _ => exact hSome hKind
        · rw [if_neg hKind] at hEnds
          rcases ih hEnds with ⟨last, hLast, hValue⟩ | ⟨hNone, hValue⟩
          · exact Or.inl ⟨last, hLast.later hInside hKind, hValue⟩
          · rw [value_optionScale] at hValue
            by_cases hScale : ScaleAt mem options
            · refine Or.inl ⟨options, ⟨.here hInside, hScale, fun other hOther hOtherScale => ?_⟩,
                hValue.trans (if_pos hScale)⟩
              rcases (optionAt_iff hInside hKind).mp hOther with rfl | hRest
              · exact Nat.le_refl _
              · exact absurd hOtherScale (hNone other hRest)
            · refine Or.inr ⟨fun other hOther => ?_, hValue.trans (if_neg hScale)⟩
              rcases (optionAt_iff hInside hKind).mp hOther with rfl | hRest
              · exact hScale
              · exact hNone other hRest
      · rw [value_decodeOptions_done (not_lt.mp hInside), Option.some.injEq, Prod.mk.injEq] at hEnds
        refine Or.inr ⟨fun other hOther => ?_, hEnds.2.symm⟩
        cases hOther with
        | here h => exact absurd h hInside
        | later h _ _ => exact absurd h hInside

/-- The last window scale of a SYN, where it has one, is at most 14. -/
def LegalScale (mem : Memory) (payload : Nat) : Prop :=
  ∀ last, LastScaleAt mem (payload + 20 + optLen (mem (payload + 12) >>> 4)) (payload + 20) last →
    (mem (last + 2)).toNat ≤ 14

theorem ws_le_iff {pkt : Packet} {version payload : Nat} {info : SynInfo}
    (hInfo : pkt.synInfo version payload = some info) :
    info.ws.toNat ≤ 14 ↔ LegalScale pkt.mem payload := by
  obtain ⟨⟨mss, scale⟩, hDecoded, rfl⟩ := Option.map_eq_some_iff.mp hInfo
  have hSize : ((optLen (pkt.mem (payload + 12) >>> 4) : Nat) : Int) =
      ((payload + 20 + optLen (pkt.mem (payload + 12) >>> 4) : Nat) : Int) -
        (payload + 20 : Nat) := by omega
  rw [hSize] at hDecoded
  dsimp only
  rcases decodeOptions_scale hDecoded with ⟨last, hLast, rfl⟩ | ⟨hNone, rfl⟩
  · constructor
    · intro hLegal other hOther
      have hSame : other = last :=
        le_antisymm (hLast.last other hOther.comes hOther.scale)
          (hOther.last last hLast.comes hLast.scale)
      rw [hSame]
      exact hLegal
    · exact fun hLegal => hLegal last hLast
  · exact iff_of_true (Nat.zero_le _) fun last hLast => absurd hLast.scale (hNone last hLast.comes)

/-- The SYN's last window scale decides: all its session's windows are exact and
all scales legal just when it is at most 14. -/
theorem scales_exactly_iff {K : Kernel} {pkt : Packet} {version payload : Nat} {info : SynInfo}
    {data : Payload} {start : Cell} (hInfo : pkt.synInfo version payload = some info)
    (hNew : newSession K info ((readTcpHdr payload).value pkt.mem) data = some start) :
    ScalesExactly ((readTcpHdr payload).value pkt.mem) start ↔ LegalScale pkt.mem payload := by
  obtain ⟨-, -, window, hTcp⟩ := newSession_eq hNew
  have hScaled : ScaledBy info.ws start := by
    rw [ScaledBy, hTcp]
    exact ⟨rfl, rfl⟩
  rw [← ws_le_iff hInfo]
  constructor
  · intro hExact
    have hLegal := (hExact.legal []).1
    rwa [run_nil, hScaled.1] at hLegal
  · intro hLegal
    refine ⟨?_, fun inputs => ?_, fun inputs => ?_, fun inputs => ?_⟩
    · rw [hTcp]
      exact toNat_shifted _ hLegal
    · have hAny : Along step (fun _ _ => True) start inputs :=
        along_of_forall start fun _ _ => trivial
      exact along_of_invariant hScaled hAny (fun c input hc _ => hc.step input)
        fun c input hc _ => hc.windowExact hLegal input
    · obtain ⟨hRecv, hSend⟩ := hScaled.runs inputs
      rw [hRecv, hSend]
      exact ⟨by omega, by omega⟩
    · obtain ⟨hRecv, hSend⟩ := hScaled.runs inputs
      rw [hRecv, hSend]
      exact ⟨hLegal, hLegal⟩

/-- A SYN of the client with the window scale `shift`. -/
def scaleSyn (shift : UInt8) : Packet where
  mem := packetMemory { mssSyn 4 0 with options := [3, 3, shift, 0] }.bytes
  length := 44
  turns := 3
  uid := 10001

/-- The session that it opens. -/
def scaledSession (shift : UInt8) : Option Cell :=
  ((scaleSyn shift).synInfo 4 20).bind fun info =>
    newSession .willing info ((readTcpHdr 20).value (scaleSyn shift).mem) .empty

/-- With the scale 7 everything is exact. -/
theorem scales_exactly_iff_seven :
    ∃ start, scaledSession 7 = some start ∧
      (ScalesExactly ((readTcpHdr 20).value (scaleSyn 7).mem) start ↔
        LegalScale (scaleSyn 7).mem 20) := by
  obtain ⟨info, hInfo⟩ : ∃ info, (scaleSyn 7).synInfo 4 20 = some info := ⟨_, rfl⟩
  obtain ⟨start, hNew⟩ := Option.isSome_iff_exists.mp
    ((isSome_newSession .willing info ((readTcpHdr 20).value (scaleSyn 7).mem) .empty).mpr
      (by decide))
  refine ⟨start, ?_, scales_exactly_iff hInfo hNew⟩
  rw [scaledSession, hInfo]
  exact hNew

/-- With the scale 17 the window 65535 wraps. -/
theorem scale_wraps : ∃ start, scaledSession 17 = some start ∧
    start.tcp.sendWindow.toNat = 65535 * 2 ^ 17 % 2 ^ 32 ∧
    ¬ ScalesExactly ((readTcpHdr 20).value (scaleSyn 17).mem) start := by
  refine ⟨(scaledSession 17).get rfl, (Option.some_get _).symm, by decide, fun hExact => ?_⟩
  exact absurd (hExact.legal []).1 (by decide)

end Tun2Http
