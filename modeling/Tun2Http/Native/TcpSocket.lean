import Tun2Http.Native.Http
import Tun2Http.Native.TcpWrite
import Tun2Http.Native.TcpQueue

/-! `tcp.c`: `check_tcp_socket`, the handler of events on the socket of a
session: connect and proxy reply, forwarding queued client data, and
relaying what the server sends. -/
namespace Tun2Http

open Machine

/-- `s->tcp.time = time(NULL)`. -/
def touch (K : Kernel) (c : Cell) : Cell :=
  let now := K.time c.calls
  { c with tcp := { c.tcp with time := now } }.call (.time now)

@[simp] theorem touch_tcp (K : Kernel) (c : Cell) :
    (touch K c).tcp = { c.tcp with time := K.time c.calls } := rfl
@[simp] theorem touch_socket (K : Kernel) (c : Cell) : (touch K c).socket = c.socket := rfl
@[simp] theorem touch_events (K : Kernel) (c : Cell) : (touch K c).events = c.events := rfl
@[simp] theorem touch_log (K : Kernel) (c : Cell) :
    (touch K c).log = .time (K.time c.calls) :: c.log := rfl

namespace SendResult

/-- `send()` takes at most what it was given. -/
def clamp (result : SendResult) (length : Nat) : SendResult :=
  match result with
  | error errno => error errno
  | accepted count => accepted (min count length)

/-- The `ssize_t` that `send()` returns. -/
def value : SendResult → U32
  | error _ => -1
  | accepted count => BitVec.ofNat 32 count

def errno : SendResult → Nat
  | error errno => errno
  | accepted _ => 0

/-- How many bytes the socket took. -/
def count : SendResult → Nat
  | error _ => 0
  | accepted count => count

end SendResult

/-- `recv()` with room for `size` bytes. -/
def recvFrom (K : Kernel) (c : Cell) (size : Nat) : Cell × RecvResult :=
  let result := match K.recv c.calls with
    | .error errno => .error errno
    | .data bytes => .data (bytes.take size)
  (c.call (.recv result), result)

/-- The memory from `s->data + s->sent` on. -/
def forwardMemory (K : Kernel) (c : Cell) (seg : Segment) : Memory := fun offset =>
  if h : seg.sent + offset < seg.data.length then seg.data[seg.sent + offset]
  else K.behind c.calls (seg.sent + offset - seg.data.length)

/-- The bytes passed to `send()`: the rest of the segment, rewritten for port
80 where `patch_http_url` does not return null. -/
def forwardRequest (K : Kernel) (c : Cell) (seg : Segment) : List UInt8 :=
  if c.tcp.dest = 80 then
    ((patchHttpUrl seg.unsent).value (forwardMemory K c seg)).getD seg.rest
  else seg.rest

/-- `if (sent > len) sent = len`. `sent` is a `ssize_t` and `len` a `size_t`, so
the comparison is unsigned. -/
def clampSent (sent len : U32) : U32 := if len < sent then len else sent

theorem clampSent_le (sent : U32) (seg : Segment) :
    (clampSent sent (BitVec.ofNat 32 seg.unsent)).toNat ≤ seg.unsent := by
  have hLt := seg.unsent_lt
  unfold clampSent
  split_ifs with h
  · simp only [BitVec.toNat_ofNat]
    omega
  · simp only [BitVec.not_lt] at h
    bv_omega

/-- How a turn of the forward loop ends: the loop is left, with or without
data forwarded in this turn, or the head was sent whole and the loop goes on. -/
inductive Turn where
  | stop (forwarded : Bool)
  | popped (count : Nat)

/-- One turn of the forward loop on the head `seg` of the queue. -/
def forwardTurn (K : Kernel) (seg : Segment) (rest : List Segment) (c : Cell) : Cell × Turn :=
  let request := forwardRequest K c seg
  let result := (K.send c.calls).clamp request.length
  let c := c.call (.send request result)
  let sent := clampSent result.value (BitVec.ofNat 32 seg.unsent)
  if sent.toInt < 0 then
    if result.errno = eintr ∨ result.errno = eagain then (c, .stop false) -- retry later
    else (writeRst K c, .stop false)
  else
    let head := seg.advance sent.toNat (clampSent_le _ seg)
    let c := { c with tcp := { c.tcp with
      sent := c.tcp.sent + BitVec.ofNat 64 sent.toNat
      remoteSeq := head.seq + BitVec.ofNat 32 head.sent } }
    if head.len = head.sent then (c.setForward rest, .popped sent.toNat)
    else (c.setForward (head :: rest), .stop true) -- partial send

/-- The head is the next expected data and smaller than the free buffer. -/
def canForward (c : Cell) (seg : Segment) (bufferSize : U32) : Prop :=
  seg.seq + BitVec.ofNat 32 seg.sent = c.tcp.remoteSeq ∧ BitVec.ofNat 32 seg.unsent < bufferSize

instance (c : Cell) (seg : Segment) (bufferSize : U32) : Decidable (canForward c seg bufferSize) :=
  inferInstanceAs (Decidable (_ ∧ _))

/-- The forward loop. The list is the queue of the session; a turn that goes
on has removed its head. The flag is `fwd`. -/
def forwardLoop (K : Kernel) : List Segment → U32 → Bool → Cell → Cell × Bool
  | [], _, fwd, c => (c, fwd)
  | seg :: rest, bufferSize, fwd, c =>
      if canForward c seg bufferSize then
        match forwardTurn K seg rest c with
        | (c, .stop forwarded) => (c, fwd || forwarded)
        | (c, .popped count) => forwardLoop K rest (bufferSize - BitVec.ofNat 32 count) true c
      else (c, fwd)

/-- Forward data, on a writable socket. -/
def forwardData (K : Kernel) (c : Cell) : Cell × Bool :=
  let buffer := getReceiveBuffer K c
  forwardLoop K buffer.1.tcp.forward (BitVec.ofInt 32 buffer.2) false buffer.1

/-- Acknowledge forwarded data; the FIN is confirmed with the last of it. -/
def acknowledge (K : Kernel) (fwd : Bool) (c : Cell) : Cell :=
  let c := if fwd ∧ c.tcp.forward = [] ∧ c.tcp.state = .closeWait then c.countFin else c
  let result := writeAck K c
  if result.2 then touch K result.1 else result.1

/-- `close(s->socket)`; the descriptor is forgotten whatever `close` says. -/
def closeSocket (c : Cell) : Cell := { c with socket := -1 }.call .close

/-- The end of the server's stream. -/
def socketEof (K : Kernel) (c : Cell) : Cell :=
  if c.tcp.forward = [] then
    let result := writeFinAck K c
    let c := if result.2 then result.1.advanceLocal 1 else result.1
    let c :=
      if c.tcp.state = .established then c.setState .finWait1
      else if c.tcp.state = .closeWait then c.setState .lastAck
      else c
    closeSocket c
  else closeSocket (writeRst K c) -- there was still data to send

/-- The room for one `recv()`: the send window, at most the MSS. -/
def readSize (t : TcpSession) : Nat :=
  let mss := t.mss.setWidth 32
  let sendWindow := getSendWindow t
  (if mss < sendWindow then mss else sendWindow).toNat

/-- Forward what the server sent to the tun. -/
def relay (K : Kernel) (bytes : List UInt8) (c : Cell) : Cell :=
  let c := { c with tcp := { c.tcp with
    received := c.tcp.received + BitVec.ofNat 64 bytes.length } }
  let result := writeData K c bytes
  if result.2 then result.1.advanceLocal bytes.length else result.1

/-- What follows a `recv()`: an error, the end of the stream, or data. -/
def socketReceived (K : Kernel) (result : RecvResult) (c : Cell) : Cell :=
  match result with
  | .error errno => if errno ≠ eintr ∧ errno ≠ eagain then writeRst K c else c
  | .data [] => socketEof K c
  | .data bytes => relay K bytes c

/-- Read from the socket and forward to the tun, within the send window. -/
def socketRead (K : Kernel) (ev : EpollEvents) (c : Cell) : Cell :=
  if ev.epollin ∧ 0 < getSendWindow c.tcp then
    let received := recvFrom K (touch K c) (readSize c.tcp)
    socketReceived K received.2 received.1
  else c

/-- The first lines of a proxy's answer that accept the CONNECT. -/
def proxyAccepts : List (List UInt8) :=
  [ascii ['H', 'T', 'T', 'P', '/', '1', '.', '0', ' ', '2', '0', '0'],
   ascii ['H', 'T', 'T', 'P', '/', '1', '.', '1', ' ', '2', '0', '0']]

/-- The C string in a buffer: what stands before the first NUL. -/
def cString (bytes : List UInt8) : List UInt8 := bytes.takeWhile (· ≠ 0)

/-- What follows the 12 bytes read in `TCP_LISTEN`. An accepted CONNECT drains
the socket. -/
def listenReceived (K : Kernel) (result : RecvResult) (c : Cell) : Cell :=
  match result with
  | .error _ => writeRst K c
  | .data bytes =>
      if c.tcp.connectSent = .sent then
        if cString bytes ∈ proxyAccepts then
          let c := c.call (.drain (K.drain c.calls))
          { c with tcp := { c.tcp with connectSent := .established, state := .synRecv } }
        else writeRst K c
      else c

/-- An event in `TCP_LISTEN`: the proxy's reply, or the connected socket. -/
def socketListen (K : Kernel) (ev : EpollEvents) (c : Cell) : Cell :=
  if ev.epollin then
    let received := recvFrom K c 12
    listenReceived K received.2 received.1
  else
    let result := writeSynAck K c.countSyn
    if result.2 then ((touch K result.1).advanceLocal 1).setState .synRecv else result.1

/-- An event outside `TCP_LISTEN`: always forward data, then read. -/
def socketReady (K : Kernel) (ev : EpollEvents) (c : Cell) : Cell :=
  let forwarded := if ev.epollout then forwardData K c else (c, false)
  let window := getReceiveWindow K forwarded.1
  let prev := window.1.tcp.recvWindow
  let c := { window.1 with tcp := { window.1.tcp with recvWindow := window.2 } }
  let c := if forwarded.2 ∨ (prev = 0 ∧ 0 < window.2) then acknowledge K forwarded.2 c else c
  if c.tcp.state = .established ∨ c.tcp.state = .closeWait then socketRead K ev c else c

/-- `check_tcp_socket`. -/
def checkTcpSocket (K : Kernel) (ev : EpollEvents) (c : Cell) : Cell :=
  if ev.epollerr then writeRst K (touch K c)
  else if c.tcp.state = .listen then socketListen K ev c
  else socketReady K ev c

end Tun2Http
