import Tun2Http.Machine.Memory
import Mathlib.Data.BitVec

/-! Data of the native code: segments, sessions and the system calls that
the handlers make. Sequence numbers and windows are `uint32_t`, ports
`uint16_t` in host notation; addresses are the bytes of the source's union. -/
namespace Tun2Http

abbrev U16 := BitVec 16
abbrev U32 := BitVec 32

/-- The states of `netinet/tcp.h` that the code assigns. `unset` is the zero
of a session cleared by `memset`. -/
inductive TcpState where
  | unset | established | synRecv | finWait1 | close | closeWait | lastAck | listen | closing
  deriving DecidableEq, Repr

/-- `TCP_CONNECT_NOT_SENT`, `TCP_CONNECT_SENT` and `TCP_CONNECT_ESTABLISHED`. -/
inductive ConnectSent where
  | notSent | sent | established
  deriving DecidableEq, Repr

/-- The bits of `epoll_event.events` that the code looks at. -/
structure EpollEvents where
  epollin : Bool := false
  epollout : Bool := false
  epollerr : Bool := false
  epollhup : Bool := false
  deriving DecidableEq, Repr

/-- Data of one packet. The length is what `uint16_t datalen` can hold. -/
abbrev Payload := {bytes : List UInt8 // bytes.length < 2 ^ 16}

def Payload.empty : Payload := ⟨[], Nat.two_pow_pos 16⟩

/-- `struct segment`. `data` is the block that was allocated, which can be
longer than `len`: a larger duplicate replaces the block and not the length. -/
structure Segment where
  seq : U32
  len : Nat
  sent : Nat
  psh : Bool
  data : List UInt8
  sent_le : sent ≤ len
  len_le : len ≤ data.length
  data_lt : data.length < 2 ^ 16
  deriving DecidableEq

namespace Segment

/-- `len - sent`, the bytes of the segment still to be sent. -/
def unsent (s : Segment) : Nat := s.len - s.sent

/-- The bytes handed to `send()`: `data + sent`, `len - sent` of them. -/
def rest (s : Segment) : List UInt8 := (s.data.drop s.sent).take s.unsent

/-- `sent += count`. -/
def advance (s : Segment) (count : Nat) (h : count ≤ s.unsent) : Segment where
  seq := s.seq
  len := s.len
  sent := s.sent + count
  psh := s.psh
  data := s.data
  sent_le := by have := s.sent_le; unfold unsent at h; omega
  len_le := s.len_le
  data_lt := s.data_lt

/-- The segment that `queue_tcp` and the SYN path allocate for a packet. -/
def ofPayload (seq : U32) (psh : Bool) (data : Payload) : Segment where
  seq := seq
  len := data.val.length
  sent := 0
  psh := psh
  data := data.val
  sent_le := Nat.zero_le _
  len_le := Nat.le_refl _
  data_lt := data.property

/-- The block is replaced by a longer one; `len` keeps its value. -/
def replaceData (s : Segment) (data : Payload) (h : s.len < data.val.length) : Segment where
  seq := s.seq
  len := s.len
  sent := s.sent
  psh := s.psh
  data := data.val
  sent_le := s.sent_le
  len_le := Nat.le_of_lt h
  data_lt := data.property

theorem unsent_lt (s : Segment) : s.unsent < 2 ^ 16 := by
  have := s.len_le
  have := s.data_lt
  unfold unsent
  omega

@[simp] theorem length_rest (s : Segment) : s.rest.length = s.unsent := by
  have := s.len_le
  have := s.sent_le
  simp only [rest, List.length_take, List.length_drop, unsent]
  omega

@[simp] theorem advance_seq (s : Segment) (count : Nat) (h : count ≤ s.unsent) :
    (s.advance count h).seq = s.seq := rfl

@[simp] theorem advance_sent (s : Segment) (count : Nat) (h : count ≤ s.unsent) :
    (s.advance count h).sent = s.sent + count := rfl

@[simp] theorem advance_len (s : Segment) (count : Nat) (h : count ≤ s.unsent) :
    (s.advance count h).len = s.len := rfl

@[simp] theorem advance_data (s : Segment) (count : Nat) (h : count ≤ s.unsent) :
    (s.advance count h).data = s.data := rfl

end Segment

/-- `struct tcp_session`, without the fields that only feed log lines. -/
structure TcpSession where
  uid : Int
  time : Int
  version : Nat
  mss : U16
  recvScale : BitVec 8
  sendScale : BitVec 8
  recvWindow : U32
  sendWindow : U32
  remoteSeq : U32
  localSeq : U32
  remoteStart : U32
  localStart : U32
  acked : U32
  lastKeepAlive : Int
  sent : BitVec 64
  received : BitVec 64
  saddr : List UInt8
  source : U16
  daddr : List UInt8
  dest : U16
  state : TcpState
  forward : List Segment
  hostname : List UInt8
  connectSent : ConnectSent
  deriving DecidableEq

/-- A TCP segment written to the tun, field by field. -/
structure TcpPacket where
  version : Nat
  saddr : List UInt8
  daddr : List UInt8
  source : U16
  dest : U16
  seq : U32
  ackSeq : U32
  window : U16
  syn : Bool
  ack : Bool
  fin : Bool
  rst : Bool
  options : List UInt8
  payload : List UInt8
  deriving DecidableEq

/-- `send()`: `-1` with an `errno`, or the number of bytes taken. -/
inductive SendResult where
  | error (errno : Nat)
  | accepted (count : Nat)
  deriving DecidableEq

/-- `recv()`: `-1` with an `errno`, or the bytes read; no bytes is the end of
the stream. -/
inductive RecvResult where
  | error (errno : Nat)
  | data (bytes : List UInt8)
  deriving DecidableEq

def eintr : Nat := 4
def ebadf : Nat := 9
def eagain : Nat := 11
def einprogress : Nat := 115

/-- What the program does to the outside, one entry for each system call.
`countSyn` and `countFin` are no calls: they mark the places where the source
steps `remote_seq` over the client's SYN or FIN. -/
inductive Io where
  | time (now : Int)
  | clock (ms : Int)
  | buffer (sndbuf outq : Int)
  | tun (packet : TcpPacket) (whole : Bool)
  | send (data : List UInt8) (result : SendResult)
  | sendConnect (request : List UInt8) (result : SendResult)
  | recv (result : RecvResult)
  | drain (bytes : List UInt8)
  | epollMod (events : EpollEvents) (ok : Bool)
  | keepAlive
  | close
  | countSyn
  | countFin
  deriving DecidableEq

/-- The kernel's answers. The answer to a call is found under the number of
calls already made, so no two calls share one and every outcome is possible. -/
structure Kernel where
  time : Nat → Int
  clock : Nat → Int
  sndbuf : Nat → Int
  outq : Nat → Int
  /-- The write to the tun takes the whole packet. -/
  tunWrite : Nat → Bool
  send : Nat → SendResult
  recv : Nat → RecvResult
  /-- What repeated `recv` calls return before one fails or reads nothing. -/
  drain : Nat → List UInt8
  epollCtl : Nat → Bool
  /-- Bytes behind the data in a block of the heap, which `patch_http_url` and
  `parse_dns_response` can read. -/
  behind : Nat → Nat → UInt8
  socket : Nat → Int
  protect : Nat → Bool
  fcntl : Nat → Bool
  connect : Nat → Option Nat
  rand : Nat → U32

/-- The `ng_session` node of a TCP session, with the calls made for it so
far, newest first. -/
structure Cell where
  tcp : TcpSession
  socket : Int
  events : EpollEvents
  log : List Io
  deriving DecidableEq

namespace Cell

/-- Record a system call. -/
def call (c : Cell) (entry : Io) : Cell := { c with log := entry :: c.log }

/-- How many calls have been made. -/
def calls (c : Cell) : Nat := c.log.length

def setState (c : Cell) (state : TcpState) : Cell := { c with tcp := { c.tcp with state := state } }

def setForward (c : Cell) (forward : List Segment) : Cell :=
  { c with tcp := { c.tcp with forward := forward } }

/-- `remote_seq++` over the client's SYN. -/
def countSyn (c : Cell) : Cell :=
  { c with tcp := { c.tcp with remoteSeq := c.tcp.remoteSeq + 1 } }.call .countSyn

/-- `remote_seq++` over the client's FIN. -/
def countFin (c : Cell) : Cell :=
  { c with tcp := { c.tcp with remoteSeq := c.tcp.remoteSeq + 1 } }.call .countFin

/-- `local_seq += count`. -/
def advanceLocal (c : Cell) (count : Nat) : Cell :=
  { c with tcp := { c.tcp with localSeq := c.tcp.localSeq + BitVec.ofNat 32 count } }

@[simp] theorem call_tcp (c : Cell) (entry : Io) : (c.call entry).tcp = c.tcp := rfl
@[simp] theorem call_socket (c : Cell) (entry : Io) : (c.call entry).socket = c.socket := rfl
@[simp] theorem call_events (c : Cell) (entry : Io) : (c.call entry).events = c.events := rfl
@[simp] theorem call_log (c : Cell) (entry : Io) : (c.call entry).log = entry :: c.log := rfl

@[simp] theorem setState_tcp (c : Cell) (state : TcpState) :
    (c.setState state).tcp = { c.tcp with state := state } := rfl
@[simp] theorem setState_socket (c : Cell) (state : TcpState) :
    (c.setState state).socket = c.socket := rfl
@[simp] theorem setState_events (c : Cell) (state : TcpState) :
    (c.setState state).events = c.events := rfl
@[simp] theorem setState_log (c : Cell) (state : TcpState) : (c.setState state).log = c.log := rfl

@[simp] theorem setForward_tcp (c : Cell) (forward : List Segment) :
    (c.setForward forward).tcp = { c.tcp with forward := forward } := rfl
@[simp] theorem setForward_socket (c : Cell) (forward : List Segment) :
    (c.setForward forward).socket = c.socket := rfl
@[simp] theorem setForward_events (c : Cell) (forward : List Segment) :
    (c.setForward forward).events = c.events := rfl
@[simp] theorem setForward_log (c : Cell) (forward : List Segment) :
    (c.setForward forward).log = c.log := rfl

@[simp] theorem countSyn_tcp (c : Cell) :
    c.countSyn.tcp = { c.tcp with remoteSeq := c.tcp.remoteSeq + 1 } := rfl
@[simp] theorem countSyn_socket (c : Cell) : c.countSyn.socket = c.socket := rfl
@[simp] theorem countSyn_events (c : Cell) : c.countSyn.events = c.events := rfl
@[simp] theorem countSyn_log (c : Cell) : c.countSyn.log = .countSyn :: c.log := rfl

@[simp] theorem countFin_tcp (c : Cell) :
    c.countFin.tcp = { c.tcp with remoteSeq := c.tcp.remoteSeq + 1 } := rfl
@[simp] theorem countFin_socket (c : Cell) : c.countFin.socket = c.socket := rfl
@[simp] theorem countFin_events (c : Cell) : c.countFin.events = c.events := rfl
@[simp] theorem countFin_log (c : Cell) : c.countFin.log = .countFin :: c.log := rfl

@[simp] theorem advanceLocal_tcp (c : Cell) (count : Nat) :
    (c.advanceLocal count).tcp =
      { c.tcp with localSeq := c.tcp.localSeq + BitVec.ofNat 32 count } := rfl
@[simp] theorem advanceLocal_socket (c : Cell) (count : Nat) :
    (c.advanceLocal count).socket = c.socket := rfl
@[simp] theorem advanceLocal_events (c : Cell) (count : Nat) :
    (c.advanceLocal count).events = c.events := rfl
@[simp] theorem advanceLocal_log (c : Cell) (count : Nat) :
    (c.advanceLocal count).log = c.log := rfl

end Cell

end Tun2Http
