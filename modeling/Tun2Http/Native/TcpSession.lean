import Tun2Http.Native.TcpSocket
import Tun2Http.Native.Tls

/-! `tcp.c`: the periodic checks of a session and `handle_tcp`, which opens
sessions and processes the segments of the client. -/
namespace Tun2Http

open Machine

/-- `get_tcp_timeout`; both divisions truncate. -/
def getTcpTimeout (t : TcpSession) (sessions maxsessions : Int) : Int :=
  let timeout :=
    if t.state = .listen ∨ t.state = .synRecv then 30
    else if t.state = .established then 3600
    else 30
  let scale := 100 - (sessions * 100).tdiv maxsessions
  (timeout * scale).tdiv 100

/-- The session timeout of `check_tcp_session`. -/
def checkTimeout (K : Kernel) (timeout now : Int) (c : Cell) : Cell :=
  if c.tcp.state ≠ .closing ∧ c.tcp.state ≠ .close ∧ c.tcp.time + timeout < now then
    if c.tcp.state = .listen then c.setState .closing else writeRst K c
  else c

/-- The closing sessions of `check_tcp_session`. -/
def checkClosing (K : Kernel) (c : Cell) : Cell :=
  if c.tcp.state = .closing then
    (touch K (if 0 ≤ c.socket then closeSocket c else c)).setState .close
  else c

/-- A session that is closing is closed at once. -/
theorem checkClosing_state (K : Kernel) (c : Cell) :
    (checkClosing K c).tcp.state = if c.tcp.state = .closing then .close else c.tcp.state := by
  unfold checkClosing
  split_ifs <;> rfl

/-- The byte counts of a closed session are given up. -/
def dropCounts (c : Cell) : Cell :=
  if (c.tcp.state = .closing ∨ c.tcp.state = .close) ∧ (c.tcp.sent ≠ 0 ∨ c.tcp.received ≠ 0) then
    { c with tcp := { c.tcp with sent := 0, received := 0 } }
  else c

theorem dropCounts_state (c : Cell) : (dropCounts c).tcp.state = c.tcp.state := by
  unfold dropCounts
  split_ifs <;> rfl

/-- `check_tcp_session`. The flag asks for the session to be freed. -/
def checkTcpSession (K : Kernel) (sessions maxsessions : Int) (c : Cell) : Cell × Bool :=
  let now := K.time c.calls
  let c := c.call (.time now)
  let c := dropCounts (checkClosing K
    (checkTimeout K (getTcpTimeout c.tcp sessions maxsessions) now c))
  -- Cleanup lingering sessions
  (c, decide (c.tcp.state = .close ∧ c.tcp.time + 300 < now))

/-- `check_allowed`, for a TCP session: what is left of it is reset. -/
def checkAllowed (K : Kernel) (c : Cell) : Cell :=
  if c.tcp.state ≠ .closing ∧ c.tcp.state ≠ .close then writeRst K c else c

/-- What the reset and its absence keep, it keeps. -/
theorem checkAllowed_keeps {P : Cell → Prop} {K : Kernel} {c : Cell} (h : P c) (hReset : P (writeRst K c)) :
    P (checkAllowed K c) := by
  unfold checkAllowed
  split_ifs
  · exact hReset
  · exact h

/-- The keep alive that `monitor_tcp_session` sends to learn the window. -/
def keepAliveProbe (K : Kernel) (c : Cell) : Cell :=
  let ms := K.clock c.calls
  let c := c.call (.clock ms)
  if ms - c.tcp.lastKeepAlive > 100 then
    let c := { c with tcp := { c.tcp with
      lastKeepAlive := ms, remoteSeq := c.tcp.remoteSeq - 1 } }
    let c := (writeAck K c).1
    { c with tcp := { c.tcp with remoteSeq := c.tcp.remoteSeq + 1 } }
  else c

/-- Whether the head of the queue is the next expected data. -/
def headReady (t : TcpSession) : Prop :=
  match t.forward with
  | [] => False
  | seg :: _ => seg.seq + BitVec.ofNat 32 seg.sent = t.remoteSeq

instance (t : TcpSession) : Decidable (headReady t) := by
  unfold headReady
  split <;> infer_instance

/-- The check for outgoing data, after the one for incoming data. -/
def queueEvents (K : Kernel) (readable : Bool) (c : Cell) : Cell × EpollEvents × Bool :=
  match c.tcp.forward with
  | [] => (c, { epollerr := true, epollin := readable }, !readable)
  | seg :: _ =>
      let buffer := getReceiveBuffer K c
      let writable := decide (seg.seq + BitVec.ofNat 32 seg.sent = c.tcp.remoteSeq ∧
        BitVec.ofNat 32 seg.unsent < BitVec.ofInt 32 buffer.2)
      (buffer.1, { epollerr := true, epollin := readable, epollout := writable },
        !readable || !writable)

/-- The events that `monitor_tcp_session` wants, with its `recheck`. -/
def wantedEvents (K : Kernel) (c : Cell) : Cell × EpollEvents × Bool :=
  if c.tcp.state = .listen then
    if c.tcp.connectSent = .sent ∧ c.tcp.dest = 443 then
      (c, { epollerr := true, epollin := true }, false)
    else (c, { epollerr := true, epollout := true }, false)
  else if c.tcp.state = .established ∨ c.tcp.state = .closeWait then
    let readable := decide (0 < getSendWindow c.tcp)
    queueEvents K readable (if readable then c else keepAliveProbe K c)
  else (c, { epollerr := true }, false)

/-- `monitor_tcp_session`. The flag is its result `recheck`. -/
def monitorTcpSession (K : Kernel) (c : Cell) : Cell × Bool :=
  let wanted := wantedEvents K c
  let c := wanted.1
  let events := wanted.2.1
  let c :=
    if events ≠ c.events then
      let ok := K.epollCtl c.calls
      let c := { c with events := events }.call (.epollMod events ok)
      if ok then c else c.setState .closing
    else c
  (c, wanted.2.2)

/-! `handle_tcp`, for a session that exists. -/

/-- One number of a dotted quad. -/
def decimal (n : Nat) : List UInt8 :=
  if n < 10 then [(48 + n).toUInt8]
  else if n < 100 then [(48 + n / 10).toUInt8, (48 + n % 10).toUInt8]
  else [(48 + n / 100).toUInt8, (48 + n / 10 % 10).toUInt8, (48 + n % 10).toUInt8]

/-- `inet_ntoa` on the first four bytes of an address. -/
def inetNtoa (address : List UInt8) : List UInt8 :=
  let part i := decimal (address.getD i 0).toNat
  part 0 ++ [46] ++ part 1 ++ [46] ++ part 2 ++ [46] ++ part 3

/-- `lookup_hostname`, as it is compiled without `DNS_LOOKUPS`. -/
def lookupHostname (address : List UInt8) : List UInt8 := (inetNtoa address).take 511

/-- `hostname` after `parse_tls_header`: empty unless a server name was found. -/
def tlsHostname (data : List UInt8) : List UInt8 :=
  ((parseTlsHeader 0 data.length).value fun offset => data.getD offset 0).getD []

/-- The host of the CONNECT request that a packet on port 443 leads to. -/
def connectHost (data : List UInt8) (c : Cell) : List UInt8 :=
  if 0 < (tlsHostname data).length then tlsHostname data else lookupHostname c.tcp.daddr

/-- The text of the CONNECT request. -/
def connectRequest (hostname : List UInt8) : List UInt8 :=
  ascii ['C', 'O', 'N', 'N', 'E', 'C', 'T', ' '] ++ hostname ++
    ascii [':', '4', '4', '3', ' ', 'H', 'T', 'T', 'P', '/', '1', '.', '0', '\r', '\n', '\r', '\n']

/-- `send()` of the CONNECT request. A closed descriptor is refused. -/
def sendConnect (K : Kernel) (c : Cell) (request : List UInt8) : Cell × SendResult :=
  let result := if c.socket < 0 then .error ebadf else (K.send c.calls).clamp request.length
  (c.call (.sendConnect request result), result)

/-- `strcpy(cur->tcp.hostname, hostname)`, where a host name was found. -/
def storeHostname (hostname : List UInt8) (c : Cell) : Cell :=
  if 0 < hostname.length then { c with tcp := { c.tcp with hostname := hostname } } else c

/-- A packet for port 443: the host name, and the CONNECT request once. -/
def connectPhase (K : Kernel) (data : Payload) (c : Cell) : Cell :=
  let hostname := connectHost data.val c
  let c := storeHostname hostname c
  if c.tcp.connectSent = .notSent ∧ 0 < hostname.length then
    let result := sendConnect K c (connectRequest c.tcp.hostname)
    match result.2 with
    | .error _ => writeRst K result.1
    | .accepted _ =>
        { result.1 with tcp := { result.1.tcp with connectSent := .sent, state := .listen } }
  else c

/-- The FIN of the client. -/
def handleFin (K : Kernel) (c : Cell) : Cell :=
  match c.tcp.state with
  | .established =>
      if c.tcp.forward = [] then
        let result := writeAck K c.countFin
        if result.2 then result.1.setState .closeWait else result.1
      else c.setState .closeWait
  | .finWait1 =>
      let result := writeAck K c.countFin
      if result.2 then result.1.setState .close else result.1
  | _ => c -- repeated or invalid FIN

/-- A plain acknowledgement of everything sent. -/
def handleAck (ackSeq : U32) (c : Cell) : Cell :=
  let c := { c with tcp := { c.tcp with acked := ackSeq } }
  match c.tcp.state with
  | .synRecv => c.setState .established
  | .lastAck => c.setState .closing
  | _ => c

/-- An acknowledgement of something else than everything sent. -/
def handleOtherAck (K : Kernel) (ackSeq : U32) (c : Cell) : Cell :=
  if ackSeq + 1 = c.tcp.localSeq then -- keep alive
    if c.tcp.state = .established then c.call .keepAlive else c
  else if compareU32 ackSeq c.tcp.localSeq < 0 then
    if compareU32 ackSeq c.tcp.acked ≤ 0 then c -- repeated ACK
    else { c with tcp := { c.tcp with acked := ackSeq } } -- previous ACK
  else writeRst K c -- future ACK

/-- The flags of the segment, after its data was queued. -/
def handleFlags (K : Kernel) (hdr : TcpHdr) (c : Cell) : Cell :=
  if hdr.rst then c.setState .closing
  else if ¬hdr.ack ∨ hdr.ackSeq = c.tcp.localSeq then
    if hdr.syn then c -- repeated SYN
    else if hdr.fin then handleFin K c
    else if hdr.ack then handleAck hdr.ackSeq c
    else c -- unknown packet
  else handleOtherAck K hdr.ackSeq c

/-- The clock and the send window that every segment refreshes. -/
def refresh (K : Kernel) (hdr : TcpHdr) (c : Cell) : Cell :=
  let c := touch K c
  { c with tcp := { c.tcp with sendWindow := hdr.window.setWidth 32 <<< c.tcp.sendScale.toNat } }

/-- A window shifted by a legal scale does not wrap. -/
theorem toNat_shifted (window : U16) {scale : Nat} (hScale : scale ≤ 14) :
    ((window.setWidth 32 : U32) <<< scale).toNat = window.toNat * 2 ^ scale := by
  have hWindow := window.isLt
  have hPower : 2 ^ scale ≤ 2 ^ 14 := Nat.pow_le_pow_right (by decide) hScale
  have hProduct : window.toNat * 2 ^ scale < 2 ^ 32 := by
    calc window.toNat * 2 ^ scale
        ≤ window.toNat * 2 ^ 14 := Nat.mul_le_mul_left _ hPower
      _ < 2 ^ 32 := by omega
  rw [BitVec.toNat_shiftLeft, BitVec.toNat_setWidth, Nat.shiftLeft_eq,
    Nat.mod_eq_of_lt (show window.toNat < 2 ^ 32 by omega), Nat.mod_eq_of_lt hProduct]

/-- A segment of a session that is neither closed nor setting up its tunnel. -/
def handleSegment (K : Kernel) (hdr : TcpHdr) (data : Payload) (c : Cell) : Cell :=
  let c := refresh K hdr c
  if data.val ≠ [] then
    if c.socket < 0 then writeRst K c -- data while local closed
    else if c.tcp.state = .closeWait then writeRst K c -- data while remote closed
    else handleFlags K hdr (queueTcp hdr data c)
  else handleFlags K hdr c

/-- `handle_tcp` after the CONNECT phase: until the tunnel is established a
packet for port 443 is only queued. -/
def tunnelSegment (K : Kernel) (rport : U16) (hdr : TcpHdr) (data : Payload) (c : Cell) : Cell :=
  if rport = 443 ∧ c.tcp.connectSent ≠ .established then queueTcp hdr data c
  else if c.tcp.state = .closing ∨ c.tcp.state = .close then writeRst K c
  else handleSegment K hdr data c

/-- `handle_tcp` once the session is found; `rport` is the packet's port. -/
def existingSession (K : Kernel) (rport : U16) (hdr : TcpHdr) (data : Payload) (c : Cell) : Cell :=
  if hdr.urg then c -- drop URG data
  else tunnelSegment K rport hdr data (if rport = 443 then connectPhase K data c else c)

/-! `handle_tcp`, for a SYN that opens a session. -/

/-- `open_tcp_socket`: the descriptor, or `-1` where a call fails. -/
def openTcpSocket (K : Kernel) : Int :=
  if K.socket 0 < 0 then -1
  else if ¬K.protect 0 then -1
  else if ¬K.fcntl 0 then -1
  else match K.connect 0 with
    | some errno => if errno ≠ einprogress then -1 else K.socket 0
    | none => K.socket 0

/-- What a SYN says about the session, besides its header and data. -/
structure SynInfo where
  uid : Int
  version : Nat
  saddr : List UInt8
  daddr : List UInt8
  mss : U16
  ws : BitVec 8

/-- The `tcp_session` that a SYN registers. -/
def synSession (K : Kernel) (info : SynInfo) (hdr : TcpHdr) (data : Payload) : TcpSession :=
  let localSeq := K.rand 0
  { uid := info.uid
    time := K.time 0
    version := info.version
    mss := info.mss
    recvScale := info.ws
    sendScale := info.ws
    recvWindow := 0
    sendWindow := hdr.window.setWidth 32 <<< info.ws.toNat
    remoteSeq := hdr.seq
    localSeq := localSeq
    remoteStart := hdr.seq
    localStart := localSeq
    acked := 0
    lastKeepAlive := 0
    sent := 0
    received := 0
    saddr := info.saddr
    source := hdr.source
    daddr := info.daddr
    dest := hdr.dest
    state := .listen
    forward := if data.val ≠ [] then [Segment.ofPayload hdr.seq hdr.psh data] else []
    hostname := []
    connectSent := if hdr.dest = 80 then .established else .notSent }

/-- The SYN branch of `handle_tcp`: the registered session, or `none` where
its socket cannot be opened. The first watch is for the connect to finish. -/
def newSession (K : Kernel) (info : SynInfo) (hdr : TcpHdr) (data : Payload) : Option Cell :=
  let socket := openTcpSocket K
  if socket < 0 then none
  else
    let c : Cell :=
      { tcp := synSession K info hdr data
        socket := socket
        events := { epollout := true, epollerr := true }
        log := [] }
    let window := getReceiveWindow K c
    some { window.1 with tcp := { window.1.tcp with recvWindow := window.2 } }

/-! `handle_tcp`, for a segment of no session that is no SYN. -/

/-- The temporary session `rst`, cleared by `memset`. Its version is always 4, and
what is 0 in `connect_sent` is `TCP_CONNECT_SENT`. -/
def rstSession (addresses : List UInt8 × List UInt8) (hdr : TcpHdr) (datalen : Nat) : TcpSession :=
  { uid := 0
    time := 0
    version := 4
    mss := 0
    recvScale := 0
    sendScale := 0
    recvWindow := 0
    sendWindow := 0
    remoteSeq := hdr.seq + BitVec.ofNat 32 datalen + if hdr.syn ∨ hdr.fin then 1 else 0
    localSeq := hdr.ackSeq
    remoteStart := 0
    localStart := 0
    acked := 0
    lastKeepAlive := 0
    sent := 0
    received := 0
    saddr := addresses.1
    source := hdr.source
    daddr := addresses.2
    dest := hdr.dest
    state := .unset
    forward := []
    hostname := []
    connectSent := .sent }

/-- `write_rst` on it. There is no node around it, and no socket. -/
def resetUnknown (K : Kernel) (addresses : List UInt8 × List UInt8) (hdr : TcpHdr) (datalen : Nat) :
    Cell :=
  writeRst K { tcp := rstSession addresses hdr datalen, socket := -1, events := {}, log := [] }

end Tun2Http
