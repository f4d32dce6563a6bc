import Tun2Http.Native.Session
import Tun2Http.Packet.RoundTrip
import Tun2Http.Tcp.Downstream
import Tun2Http.Tcp.Settings

/-! The size of the segments that carry the server's data. It is bounded by the
MSS of the SYN alone, which the option loop takes as it stands. -/
namespace Tun2Http

open Machine

/-- From `c` to `d` the packet went to the tun right behind a `recv()` of data
or of the end of the stream. It is neither the FIN nor a reset: it has the data. -/
def WritesData (c d : Cell) (packet : TcpPacket) : Prop :=
  packet.fin = false ∧ packet.rst = false ∧ ∃ after whole bytes before,
    d.log = after ++ .tun packet whole :: .recv (.data bytes) :: before ∧
      c.log.length ≤ before.length

/-- A packet with data has some, is no longer than the MTU, and its IP header
has its real length. -/
structure SizeLegal (packet : TcpPacket) : Prop where
  some : 1 ≤ packet.payload.length
  mtu : packet.bytes.length ≤ getMtu
  length : IpLengthReal packet.version packet.bytes

/-- Every packet with data that the step writes is legal, and where it reads
nothing it had asked for something. -/
structure SizesLegal (c : Cell) (input : Kernel × Input) : Prop where
  packets : ∀ packet, WritesData c (step c input) packet → SizeLegal packet
  eof : ∀ d, reading c input = some d → (readFrom input.1 d).2 = .data [] → 0 < readSize d.tcp

/-- The session is opened by a SYN of `version` with the MSS `mss`, or by one
without an MSS where that is the default. -/
def SynOpens (version : Nat) (mss : U16) (c : Cell) : Prop :=
  ∃ (K : Kernel) (pkt : Packet) (payload : Nat) (info : SynInfo) (data : Payload),
    pkt.synInfo version payload = some info ∧ info.mss = mss ∧
      ((readTcpHdr payload).value pkt.mem).syn = true ∧
      newSession K info ((readTcpHdr payload).value pkt.mem) data = some c

variable {K : Kernel} {i : Input} {c d : Cell}

/-! Which packets carry data. -/

/-- An entry behind which more lies than before is one of the calls. -/
theorem Calls.of_log_split {p : Io → Prop} (h : Calls p c d) {after before : List Io} {entry : Io}
    (hSplit : d.log = after ++ entry :: before) (hNew : c.log.length ≤ before.length) : p entry := by
  obtain ⟨calls, hCalls, hLog⟩ := h
  rw [hLog] at hSplit
  apply hCalls
  rcases List.append_eq_append_iff.mp hSplit with ⟨more, hAfter, hOld⟩ | ⟨more, hCallsEq, hOld⟩
  · have hLength := congrArg List.length hOld
    simp only [List.length_append, List.length_cons] at hLength
    omega
  · cases more with
    | nil =>
        have hLength := congrArg List.length hOld
        simp only [List.nil_append, List.length_cons] at hLength
        omega
    | cons first more =>
        obtain ⟨rfl, -⟩ := List.cons.inj hOld
        simp [hCallsEq]

theorem readFrom_fst (K : Kernel) (d : Cell) :
    (readFrom K d).1 = (touch K d).call (.recv (readFrom K d).2) := rfl

/-- The one place of a log where something was read. -/
theorem recv_split {more front old before : List Io} {result other : RecvResult}
    (h : more ++ .recv result :: old = front ++ .recv other :: before)
    (hMore : ∀ entry ∈ more, entry.unread) (hOld : ∀ middle, old ≠ middle ++ .recv other :: before) :
    more = front ∧ result = other := by
  rcases List.append_eq_append_iff.mp h with ⟨middle, hFront, hRest⟩ | ⟨middle, hFront, hRest⟩
  · cases middle with
    | nil => exact ⟨by simpa using hFront.symm, Io.recv.inj (List.cons.inj hRest).1⟩
    | cons first middle => exact absurd (List.cons.inj hRest).2 (hOld middle)
  · cases middle with
    | nil => exact ⟨by simpa using hFront, (Io.recv.inj (List.cons.inj hRest).1).symm⟩
    | cons first middle =>
        obtain ⟨rfl, -⟩ := List.cons.inj hRest
        have hEntry : Io.unread (.recv other) := hMore _ (by simp [hFront])
        exact hEntry.elim

/-- The log after data was relayed. -/
theorem relay_log (K : Kernel) (bytes : List UInt8) (c : Cell) :
    (relay K bytes c).log =
      .tun (buildTcp c.tcp bytes false true false false) (K.tunWrite c.calls) :: c.log := by
  simp only [relay, writeData, writeOrClose_eq]
  split_ifs <;> exact afterWrite_log _ _ _

/-- At the end of the stream the FIN or a reset is written, and the socket closed. -/
theorem socketEof_log (K : Kernel) (hState : c.tcp.state ≠ .listen) :
    ∃ packet whole, (socketEof K c).log = .close :: .tun packet whole :: c.log ∧
      (packet.fin = true ∨ packet.rst = true) := by
  unfold socketEof
  split_ifs with hQueue
  · refine ⟨buildTcp c.tcp [] false true true false, K.tunWrite c.calls, ?_, Or.inl rfl⟩
    simp only [writeFinAck, writeOrClose_eq]
    split_ifs <;> exact congrArg _ (afterWrite_log _ _ _)
  · refine ⟨buildTcp c.tcp [] false false false true, K.tunWrite c.calls, ?_, Or.inr rfl⟩
    rw [writeRst_of_ne_listen K c hState]
    split_ifs <;> rfl

/-- What follows the proxy's reply does not begin with a packet: a reset counts
the SYN first. -/
theorem listenReceived_log (K : Kernel) (result : RecvResult) (hState : c.tcp.state = .listen) :
    ∃ front, (listenReceived K result c).log = front ++ c.log ∧ (∀ entry ∈ front, entry.unread) ∧
      ∀ after packet whole, front ≠ after ++ [.tun packet whole] := by
  have hLast : ∀ (entry : Io) (front after : List Io) (packet : TcpPacket) (whole : Bool),
      (∀ packet whole, entry ≠ .tun packet whole) → front ++ [entry] ≠ after ++ [.tun packet whole] := by
    intro entry front after packet whole hEntry hEq
    exact hEntry packet whole (List.cons.inj (List.append_inj' hEq rfl).2).1
  have hReset : ∃ front, (writeRst K c).log = front ++ c.log ∧ (∀ entry ∈ front, entry.unread) ∧
      ∀ after packet whole, front ≠ after ++ [.tun packet whole] := by
    rw [writeRst_of_listen K c hState]
    exact ⟨[.tun _ _, .countSyn], rfl, by simp [Io.unread], fun after packet whole =>
      hLast .countSyn [.tun _ _] after packet whole (by simp)⟩
  have hNothing : ∃ front, c.log = front ++ c.log ∧ (∀ entry ∈ front, entry.unread) ∧
      ∀ after packet whole, front ≠ after ++ [.tun packet whole] :=
    ⟨[], rfl, by simp, fun after packet whole => by simp⟩
  unfold listenReceived
  split
  · exact hReset
  · split_ifs
    · exact ⟨[.drain _], rfl, by simp [Io.unread], fun after packet whole =>
        hLast (.drain _) [] after packet whole (by simp)⟩
    · exact hReset
    · exact hNothing

/-- The packet with the data `bytes` of the session. -/
def dataPacket (t : TcpSession) (bytes : List UInt8) : TcpPacket := buildTcp t bytes false true false false

/-- A step that reads writes the data that it reads, and no other. -/
theorem writesData_iff_of_reading (hReading : reading c (K, i) = some d) {packet : TcpPacket} :
    WritesData c (step c (K, i)) packet ↔
      ∃ bytes, bytes ≠ [] ∧ (readFrom K d).2 = .data bytes ∧ packet = dataPacket d.tcp bytes := by
  obtain ⟨hBefore, hOpen, -, hStep⟩ := step_of_reading hReading
  have hState : (readFrom K d).1.tcp.state ≠ .listen := by
    rcases hOpen with h | h <;> simp [readFrom_fst, h]
  rw [hStep]
  constructor
  · intro hWrites
    obtain ⟨hFin, hRst, after, whole, bytes, before, hSplit, hNew⟩ := hWrites
    obtain ⟨more, hUnread, hMore⟩ := (settled_socketReceived K (readFrom K d).2 (readFrom K d).1).calls
    have hOld : ∀ middle, (touch K d).log ≠ middle ++ .recv (.data bytes) :: before := fun middle h =>
      (hBefore.trans (.touch K d)).calls.of_log_split h hNew
    rw [List.append_cons, hMore, readFrom_fst, Cell.call_log] at hSplit
    obtain ⟨hLast, hRead⟩ := recv_split hSplit hUnread hOld
    have hOnly : ∀ front other taken, (socketReceived K (readFrom K d).2 (readFrom K d).1).log =
        front ++ .tun other taken :: (readFrom K d).1.log → packet = other := by
      intro front other taken hLog
      rw [hMore, List.append_cons, hLast] at hLog
      have hLasts := congrArg List.getLast? (List.append_cancel_right hLog)
      simp only [List.getLast?_append, List.getLast?_singleton, Option.some_or, Option.some.injEq,
        Io.tun.injEq] at hLasts
      exact hLasts.1
    rw [hRead] at hOnly
    cases bytes with
    | nil =>
        obtain ⟨other, taken, hLog, hFlag⟩ := socketEof_log K hState
        have hOther := hOnly [.close] other taken hLog
        rw [← hOther, hFin, hRst] at hFlag
        simp at hFlag
    | cons b rest =>
        exact ⟨b :: rest, by simp, hRead, hOnly [] _ _ (relay_log K (b :: rest) _)⟩
  · rintro ⟨bytes, hSome, hRead, rfl⟩
    obtain ⟨b, rest, rfl⟩ := List.exists_cons_of_ne_nil hSome
    have hRelay : socketReceived K (readFrom K d).2 (readFrom K d).1 =
        relay K (b :: rest) (readFrom K d).1 := by rw [hRead]; rfl
    obtain ⟨calls, -, hLog⟩ := hBefore.calls
    refine ⟨rfl, rfl, [], K.tunWrite (readFrom K d).1.calls, b :: rest, (touch K d).log, ?_, ?_⟩
    · rw [hRelay, relay_log, readFrom_fst, Cell.call_log, hRead]
      rfl
    · simp [hLog]
      omega

/-- Nothing but data of the socket is written right behind a `recv()`: the
answer to the proxy's reply counts the SYN first. -/
theorem not_writesData (hReading : reading c (K, i) = none) (packet : TcpPacket) :
    ¬ WritesData c (step c (K, i)) packet := by
  rintro ⟨-, -, after, whole, bytes, before, hSplit, hNew⟩
  rw [List.append_cons] at hSplit
  rcases step_of_not_reading hReading with hSettled | ⟨hState, hListen⟩
  · exact (hSettled.calls.of_log_split hSplit hNew).elim
  · have hOld : ∀ middle, c.log ≠ middle ++ .recv (.data bytes) :: before := by
      intro middle h
      have hLength := congrArg List.length h
      simp only [List.length_append, List.length_cons] at hLength
      omega
    obtain ⟨front, hLog, hUnread, hLast⟩ :=
      listenReceived_log (c := (recvFrom K c 12).1) K (recvFrom K c 12).2 hState
    rw [hListen, hLog] at hSplit
    exact hLast after packet whole (recv_split hSplit hUnread hOld).1

/-! The law of a step. -/

/-- What bounds the size of the data: the packet is legal up to the default MSS. -/
theorem sizeLegal_dataPacket_iff {t : TcpSession} {bytes : List UInt8}
    (hAddressed : Addressed t.version (addressOf t.version t.daddr) (addressOf t.version t.saddr)) :
    SizeLegal (dataPacket t bytes) ↔
      1 ≤ bytes.length ∧ bytes.length ≤ (getDefaultMss t.version).toNat := by
  have hLength : (dataPacket t bytes).bytes.length =
      ipHeaderLength t.version + (20 + bytes.length) := TcpPacket.length_bytes hAddressed
  have hMss : (getDefaultMss t.version).toNat + 20 + ipHeaderLength t.version = getMtu := by
    unfold getDefaultMss ipHeaderLength
    split_ifs <;> rfl
  constructor
  · intro hLegal
    have hMtu := hLegal.mtu
    exact ⟨hLegal.some, by omega⟩
  · rintro ⟨hSome, hSmall⟩
    have hMtu : (dataPacket t bytes).bytes.length ≤ getMtu := by omega
    have hFits : getMtu < 2 ^ 16 := by decide
    exact ⟨hSome, hMtu, TcpPacket.ipLengthReal hAddressed (hMtu.trans_lt hFits)⟩

theorem readSize_le_mss (t : TcpSession) : readSize t ≤ t.mss.toNat := by
  have hMss := t.mss.isLt
  have hWidth : (t.mss.setWidth 32).toNat = t.mss.toNat := by
    rw [BitVec.toNat_setWidth, Nat.mod_eq_of_lt (by omega)]
  unfold readSize
  dsimp only
  split_ifs with hLess
  · exact hWidth.le
  · rw [BitVec.not_lt, BitVec.le_def, hWidth] at hLess
    exact hLess

theorem readSize_pos {t : TcpSession} (hMss : 0 < t.mss) (hWindow : 0 < getSendWindow t) :
    0 < readSize t := by
  unfold readSize
  dsimp only
  split_ifs <;> bv_omega

/-- Every step of a session with an MSS from 1 to the default is legal. -/
theorem sizesLegal_of_mss
    (hAddressed : Addressed c.tcp.version (addressOf c.tcp.version c.tcp.daddr)
      (addressOf c.tcp.version c.tcp.saddr))
    (hMss : 0 < c.tcp.mss ∧ c.tcp.mss ≤ getDefaultMss c.tcp.version) (input : Kernel × Input) :
    SizesLegal c input := by
  obtain ⟨K, i⟩ := input
  constructor
  · intro packet hWrites
    cases hReading : reading c (K, i) with
    | none => exact absurd hWrites (not_writesData hReading packet)
    | some d =>
        obtain ⟨bytes, hSome, hRead, rfl⟩ := (writesData_iff_of_reading hReading).mp hWrites
        have hSettings := (step_of_reading hReading).1.settings
        simp only [TcpSession.settings, Settings.mk.injEq] at hSettings
        obtain ⟨hVersion, hSame, hSaddr, -, hDaddr, -⟩ := hSettings
        rw [← hVersion, ← hSaddr, ← hDaddr] at hAddressed
        apply (sizeLegal_dataPacket_iff hAddressed).mpr
        constructor
        · exact List.length_pos_iff.mpr hSome
        · calc bytes.length
              ≤ readSize d.tcp := length_recvFrom hRead
            _ ≤ d.tcp.mss.toNat := readSize_le_mss d.tcp
            _ ≤ (getDefaultMss d.tcp.version).toNat := by
                rw [hSame, hVersion]
                exact hMss.2
  · intro d hReading _
    obtain ⟨hSettled, -, hWindow, -⟩ := step_of_reading hReading
    have hSame : d.tcp.mss = c.tcp.mss := congrArg Settings.mss hSettled.settings
    exact readSize_pos (hSame ▸ hMss.1) hWindow

/-! Runs. -/

/-- What the SYN says of the session that it opens. -/
theorem SynOpens.settings {version : Nat} {mss : U16} (h : SynOpens version mss c) :
    c.tcp.version = version ∧ c.tcp.mss = mss ∧ Addressed version c.tcp.saddr c.tcp.daddr := by
  obtain ⟨K, pkt, payload, info, data, hInfo, hMss, -, hNew⟩ := h
  obtain ⟨-, -, window, hTcp⟩ := newSession_eq hNew
  obtain ⟨options, -, rfl⟩ := Option.map_eq_some_iff.mp hInfo
  rw [hTcp]
  exact ⟨rfl, hMss, addressed_readAddresses version pkt.mem⟩

/-- A SYN to port 22 with the MSS `mss`. -/
def mssSyn (version : Nat) (mss : U16) : TcpPacket where
  version := version
  saddr := List.replicate (addressLength version) 10
  daddr := List.replicate (addressLength version) 93
  source := 40000
  dest := 22
  seq := 5000
  ackSeq := 0
  window := 65535
  syn := true
  ack := false
  fin := false
  rst := false
  options := [2, 4] ++ field16 mss.toNat
  payload := []

theorem dataOffset_mssSyn (version : Nat) (mss : U16) : (mssSyn version mss).dataOffset = 0x60 := by
  rw [TcpPacket.dataOffset, show (mssSyn version mss).options.length = 4 from rfl]
  decide

/-- The option loop takes the MSS as it stands. -/
theorem decodeOptions_mss {mem : Memory} {offset : Nat} (mss default : U16) (ws : BitVec 8)
    (h : Holds mem offset ([2, 4] ++ field16 mss.toNat)) :
    (decodeOptions 2 offset 4 default ws).value mem = some (mss, ws) := by
  obtain ⟨hKind, hLen, hMss⟩ := h
  have hValue : (be16 (offset + 2)).value mem = mss.toNat := value_be16_of_holds hMss mss.isLt
  rw [decodeOptions_mssOption (by decide) hKind hLen, hValue, BitVec.ofNat_toNat,
    BitVec.setWidth_eq, decodeOptions_done (by decide)]

/-- It opens a session with this MSS, of the client that the concrete runs have. -/
theorem synOpens_mssSyn (version : Nat) (mss : U16) : ∃ info c,
    info.ws = 0 ∧ newSession .willing info (clientSyn 22) .empty = some c ∧ SynOpens version mss c := by
  have hAddressed : Addressed (mssSyn version mss).version (mssSyn version mss).saddr
      (mssSyn version mss).daddr := ⟨List.length_replicate, List.length_replicate⟩
  set pkt : Packet := ⟨packetMemory (mssSyn version mss).bytes, 0, 2, 0⟩ with hPkt
  have hHolds : Holds pkt.mem 0 (mssSyn version mss).bytes := holds_getD _
  obtain ⟨-, hHeader, hOptions, -⟩ := TcpPacket.holds_bytes hAddressed hHolds
  have hHdr : (readTcpHdr (ipHeaderLength version)).value pkt.mem = clientSyn 22 :=
    readTcpHdr_header hHeader
  have hWords : pkt.mem (ipHeaderLength version + 12) = 0x60 :=
    (dataOffset_header hHeader).trans (dataOffset_mssSyn version mss)
  have hOptLen : optLen (pkt.mem (ipHeaderLength version + 12) >>> 4) = 4 := by
    rw [hWords]
    decide
  have hDecoded : (decodeOptions pkt.turns (ipHeaderLength version + 20) 4 (getDefaultMss version)
      0).value pkt.mem = some (mss, 0) := decodeOptions_mss mss _ 0 hOptions
  set addresses := (readAddresses version).value pkt.mem
  have hInfo : pkt.synInfo version (ipHeaderLength version) =
      some ⟨pkt.uid, version, addresses.1, addresses.2, mss, 0⟩ := by
    unfold Packet.synInfo
    dsimp only
    rw [hOptLen, Nat.cast_ofNat, hDecoded]
    rfl
  obtain ⟨c, hNew⟩ := Option.isSome_iff_exists.mp
    ((isSome_newSession .willing ⟨pkt.uid, version, addresses.1, addresses.2, mss, 0⟩ (clientSyn 22)
      .empty).mpr (by decide))
  refine ⟨_, c, rfl, hNew, .willing, pkt, ipHeaderLength version, _, .empty, hInfo, rfl, ?_, ?_⟩
  · rw [hHdr]
    rfl
  · rw [hHdr]
    exact hNew

/-- The SYN-ACK, and the acknowledgement of the client. -/
def handshake : List (Kernel × Input) := uploadRun.take 2

/-- After the handshake the session is open, and the client has room. -/
theorem open_of_handshake {info : SynInfo} (hScale : info.ws = 0)
    (hNew : newSession .willing info (clientSyn 22) .empty = some c) :
    (run step c handshake).tcp.state = .established ∧ 0 ≤ (run step c handshake).socket ∧
      getSendWindow (run step c handshake).tcp = 65535 := by
  obtain ⟨uid, version, saddr, daddr, mss, ws⟩ := info
  subst hScale
  have hCell := Option.some.inj hNew
  have hNumbers : (run step c handshake).tcp.acked = 1001 ∧
      (run step c handshake).tcp.localSeq = 1001 ∧
      (run step c handshake).tcp.sendWindow = 65535 := by
    rw [← hCell]
    exact ⟨rfl, rfl, rfl⟩
  obtain ⟨hAcked, hLocal, hSend⟩ := hNumbers
  refine ⟨by rw [← hCell]; rfl, by rw [← hCell]; exact Int.natCast_nonneg 3, ?_⟩
  rw [getSendWindow, hAcked, hLocal, hSend]
  decide

/-- Where every write is taken, a readable socket of an open session is read. -/
theorem reading_of_open (hWrite : ∀ n, K.tunWrite n = true) (hState : c.tcp.state = .established)
    (hSocket : 0 ≤ c.socket) (hSend : 0 < getSendWindow c.tcp) :
    ∃ d, reading c (K, .event { epollin := true }) = some d ∧
      getSendWindow d.tcp = getSendWindow c.tcp := by
  have hBefore : (beforeRead K { epollin := true } c).tcp.state = c.tcp.state ∧
      getSendWindow (beforeRead K { epollin := true } c).tcp = getSendWindow c.tcp := by
    unfold beforeRead
    simp only [Bool.false_eq_true, if_false, false_or]
    split_ifs
    · simp only [acknowledge_eq, confirmFin_false, writeAck, writeOrClose_eq, hWrite, if_true,
        touch_tcp, afterWrite_tcp, storeWindow, getReceiveWindow_fst, getReceiveBuffer_tcp]
      exact ⟨trivial, rfl⟩
    · simp only [storeWindow, getReceiveWindow_fst, getReceiveBuffer_tcp]
      exact ⟨trivial, rfl⟩
  refine ⟨_, ?_, hBefore.2⟩
  simp only [reading]
  exact if_pos ⟨hSocket, by simp, by simp [hState], Or.inl (hBefore.1.trans hState), trivial,
    hBefore.2 ▸ hSend⟩

/-- The MSS decides: in every run of every session that a SYN with this MSS
opens all packets with data are legal, and no end of the stream is taken from a
`recv()` that asked for nothing, just when it is from 1 to the default. -/
theorem segment_sizes_legal_iff (version : Nat) (mss : U16) :
    (∀ start, SynOpens version mss start → ∀ inputs, Along step SizesLegal start inputs) ↔
      0 < mss ∧ mss ≤ getDefaultMss version := by
  constructor
  · intro hLegal
    obtain ⟨info, c, hScale, hNew, hOpens⟩ := synOpens_mssSyn version mss
    obtain ⟨hState, hSocket, hSend⟩ := open_of_handshake hScale hNew
    obtain ⟨hVersion, hMss, hAddressed⟩ := hOpens.settings
    set K : Kernel := { Kernel.willing with recv := fun _ => .data (List.replicate mss.toNat 0) }
    have hRun := along_append.mp
      (hLegal c hOpens (handshake ++ [(K, .event { epollin := true })]))
    have hStep : SizesLegal (run step c handshake) (K, .event { epollin := true }) := hRun.2.1
    obtain ⟨d, hReading, hWindow⟩ := reading_of_open (K := K) (fun _ => rfl) hState hSocket
      (by rw [hSend]; decide)
    have hSettings := (step_of_reading hReading).1.settings.trans (run_settings c handshake)
    simp only [TcpSession.settings, Settings.mk.injEq] at hSettings
    obtain ⟨hVersion', hSame, hSaddr, -, hDaddr, -⟩ := hSettings
    have hMssD : d.tcp.mss = mss := hSame.trans hMss
    have hSize : readSize d.tcp = mss.toNat := by
      rw [readSize, hWindow, hSend, hMssD]
      split_ifs <;> bv_omega
    have hRead : (readFrom K d).2 = .data (List.replicate mss.toNat 0) := by
      show RecvResult.data ((List.replicate mss.toNat (0 : UInt8)).take (readSize d.tcp)) = _
      rw [hSize, List.take_of_length_le (by simp)]
    have hSome : 0 < mss.toNat := by
      by_contra hNone
      have hEof := hStep.eof d hReading
      rw [Nat.eq_zero_of_not_pos hNone] at hSize hRead
      exact absurd (hEof hRead) (hSize ▸ Nat.lt_irrefl 0)
    have hWrites := (writesData_iff_of_reading hReading).mpr
      ⟨_, List.ne_nil_of_length_pos (by rwa [List.length_replicate]), hRead, rfl⟩
    have hAddressedD : Addressed d.tcp.version (addressOf d.tcp.version d.tcp.daddr)
        (addressOf d.tcp.version d.tcp.saddr) := by
      rw [hVersion', hSaddr, hDaddr, hVersion]
      exact addressed_addressOf hAddressed.saddr.ge hAddressed.daddr.ge
    obtain ⟨-, hBound⟩ := (sizeLegal_dataPacket_iff hAddressedD).mp (hStep.packets _ hWrites)
    rw [List.length_replicate, hVersion', hVersion] at hBound
    exact ⟨hSome, hBound⟩
  · intro hMss start hOpens inputs
    obtain ⟨hVersion, hSame, hAddressed⟩ := hOpens.settings
    have hAny : Along step (fun _ _ => True) start inputs :=
      along_of_forall start fun _ _ => trivial
    apply along_of_invariant (I := fun c => c.tcp.settings = start.tcp.settings) rfl hAny
    · exact fun c input hc _ => (step_settings c input).trans hc
    · intro c input hc _
      simp only [TcpSession.settings, Settings.mk.injEq] at hc
      obtain ⟨hVersion', hSame', hSaddr, -, hDaddr, -⟩ := hc
      apply sizesLegal_of_mss
      · rw [hVersion', hSaddr, hDaddr, hVersion]
        exact addressed_addressOf hAddressed.saddr.ge hAddressed.daddr.ge
      · rw [hVersion', hSame', hVersion, hSame]
        exact hMss

/-- The SYN has the MSS 0: two bytes of the server are taken for the end of its stream. -/
theorem mss_zero_illegal :
    let info : SynInfo := ⟨10001, 4, List.replicate 4 10, List.replicate 4 93, 0, 0⟩
    let start := (newSession .willing info (clientSyn 22) .empty).get rfl
    let K : Kernel := { Kernel.willing with recv := fun _ => .data [104, 105] }
    let input : Kernel × Input := (K, .event { epollin := true })
    SynOpens 4 0 start ∧ (run step start (handshake ++ [input])).tcp.state = .finWait1 ∧
      (run step start (handshake ++ [input])).socket = -1 ∧
      ¬ Along step SizesLegal start (handshake ++ [input]) := by
  intro info start K input
  have hHdr : (readTcpHdr 20).value (packetMemory (mssSyn 4 0).bytes) = clientSyn 22 := by decide
  refine ⟨?_, by decide, by decide, fun hLegal => ?_⟩
  · refine ⟨.willing, ⟨packetMemory (mssSyn 4 0).bytes, 44, 2, 10001⟩, 20, info, .empty, rfl, rfl,
      ?_, ?_⟩
    · rw [hHdr]
      rfl
    · rw [hHdr]
      exact (Option.some_get _).symm
  · have hStep : SizesLegal (run step start handshake) input := (along_append.mp hLegal).2.1
    obtain ⟨d, hReading, -⟩ := reading_of_open (K := K) (c := run step start handshake)
      (fun _ => rfl) (by decide) (by decide) (by decide)
    have hMss : d.tcp.mss = 0 := congrArg Settings.mss (step_of_reading hReading).1.settings
    have hSize : readSize d.tcp = 0 := by
      have hLe := readSize_le_mss d.tcp
      rw [hMss] at hLe
      exact Nat.le_zero.mp hLe
    have hRead : (readFrom K d).2 = .data [] := by
      show RecvResult.data ([104, 105].take (readSize d.tcp)) = _
      rw [hSize]
      rfl
    exact absurd (hStep.eof d hReading hRead) (by simp [hSize])

end Tun2Http
