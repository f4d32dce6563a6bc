import Tun2Http.Machine.Execution
import Tun2Http.Native.TcpSession

/-! The life of one session: the event loop hands it segments of the client,
events of its socket, monitor passes and periodic checks, in any order. Where
the loop is started again, it is terminated. -/
namespace Tun2Http

/-- What the event loop does with a session. -/
inductive Input where
  | segment (hdr : TcpHdr) (data : Payload)
  | event (ev : EpollEvents)
  | monitor
  | check (sessions maxsessions : Int)
  | allowed
  deriving DecidableEq

/-- One step, with the kernel's answers to the calls made in it. A closed
socket has no events and is not monitored. -/
def step (c : Cell) (input : Kernel × Input) : Cell :=
  match input.2 with
  | .segment hdr data => existingSession input.1 c.tcp.dest hdr data c
  | .event ev => if 0 ≤ c.socket then checkTcpSocket input.1 ev c else c
  | .monitor => if 0 ≤ c.socket then (monitorTcpSession input.1 c).1 else c
  | .check sessions maxsessions => (checkTcpSession input.1 sessions maxsessions c).1
  | .allowed => checkAllowed input.1 c

/-- A cell is reachable when some SYN opened the session and some run led there. -/
def Reachable (c : Cell) : Prop :=
  ∃ K info hdr data start inputs,
    newSession K info hdr data = some start ∧ Machine.run step start inputs = c

/-- What a new session looks like: one call was made for its window. -/
theorem newSession_eq {K : Kernel} {info : SynInfo} {hdr : TcpHdr} {data : Payload} {c : Cell}
    (hNew : newSession K info hdr data = some c) :
    0 ≤ c.socket ∧ c.log = [.buffer (K.sndbuf 0) (K.outq 0)] ∧
      ∃ window, c.tcp = { synSession K info hdr data with recvWindow := window } := by
  unfold newSession at hNew
  dsimp only at hNew
  split_ifs at hNew with hSocket
  simp only [Option.some.injEq] at hNew
  subst hNew
  simp [getReceiveBuffer, hSocket, not_lt.mp hSocket, Cell.calls]

/-- It is opened wherever there is a socket. -/
theorem isSome_newSession (K : Kernel) (info : SynInfo) (hdr : TcpHdr) (data : Payload) :
    (newSession K info hdr data).isSome = true ↔ 0 ≤ openTcpSocket K := by
  unfold newSession
  dsimp only
  split_ifs with hSocket
  · simp [hSocket]
  · simp [not_lt.mp hSocket]

/-- A kernel that refuses nothing: every write is taken whole, every `send()`
takes all it is given, and there is nothing to read. -/
def Kernel.willing : Kernel where
  time _ := 0
  clock _ := 0
  sndbuf _ := 16384
  outq _ := 0
  tunWrite _ := true
  send _ := .accepted 65535
  recv _ := .error eagain
  drain _ := []
  epollCtl _ := true
  behind _ _ := 0
  socket _ := 3
  protect _ := true
  fcntl _ := true
  connect _ := some einprogress
  rand _ := 1000

/-- A client on IPv4, for concrete runs. -/
def clientInfo : SynInfo where
  uid := 10001
  version := 4
  saddr := [10, 1, 10, 1]
  daddr := [93, 184, 216, 34]
  mss := 1400
  ws := 0

/-- Its header to `port`, with the flags of a SYN at sequence number 5000. -/
def clientSyn (port : U16) : TcpHdr where
  source := 40000
  dest := port
  seq := 5000
  ackSeq := 0
  window := 65535
  syn := true
  ack := false
  psh := false
  fin := false
  rst := false
  urg := false

/-- The session that its SYN opens. -/
def clientCell (port : U16) (data : Payload) : Cell :=
  (newSession .willing clientInfo (clientSyn port) data).get rfl

theorem newSession_client (port : U16) (data : Payload) :
    newSession .willing clientInfo (clientSyn port) data = some (clientCell port data) :=
  (Option.some_get _).symm

theorem reachable_client (port : U16) (data : Payload) (inputs : List (Kernel × Input)) :
    Reachable (Machine.run step (clientCell port data) inputs) :=
  ⟨_, _, _, _, _, inputs, newSession_client port data, rfl⟩

/-- A later segment of it, `offset` past the SYN's own number. -/
def clientSegment (port : U16) (offset : Nat) (ackSeq : U32) : TcpHdr :=
  { clientSyn port with
    seq := 5000 + BitVec.ofNat 32 offset, ackSeq := ackSeq, syn := false, ack := true, psh := true }

/-- The handshake, two bytes of data and room to send them. -/
def uploadRun : List (Kernel × Input) :=
  [(.willing, .event { epollout := true }), (.willing, .segment (clientSegment 22 1 1001) .empty),
    (.willing, .segment (clientSegment 22 1 1001) ⟨[104, 105], by decide⟩)]

/-- What `send()` reports for the head `seg` of the queue. -/
def sendAnswer (K : Kernel) (seg : Segment) (c : Cell) : SendResult :=
  (K.send c.calls).clamp (forwardRequest K c seg).length

/-- By how much a turn of the forward loop moves `remote_seq`. -/
def counted (K : Kernel) (seg : Segment) (c : Cell) : Nat :=
  (clampSent (sendAnswer K seg c).value (BitVec.ofNat 32 seg.unsent)).toNat

theorem counted_le (K : Kernel) (seg : Segment) (c : Cell) : counted K seg c ≤ seg.unsent :=
  clampSent_le _ seg

/-- The session after a turn, whatever is left of the queue. -/
def sentOn (K : Kernel) (seg : Segment) (c : Cell) : Cell :=
  { c with tcp := { c.tcp with
    sent := c.tcp.sent + BitVec.ofNat 64 (counted K seg c)
    remoteSeq := seg.seq + BitVec.ofNat 32 (seg.sent + counted K seg c) } }.call
      (.send (forwardRequest K c seg) (sendAnswer K seg c))

/-- The error branch of a turn is dead: after the clamp nothing is negative. -/
theorem forwardTurn_eq (K : Kernel) (seg : Segment) (rest : List Segment) (c : Cell) :
    forwardTurn K seg rest c =
      if counted K seg c = seg.unsent then
        ((sentOn K seg c).setForward rest, .popped (counted K seg c))
      else
        ((sentOn K seg c).setForward (seg.advance (counted K seg c) (counted_le K seg c) :: rest),
          .stop true) := by
  have hCounted := counted_le K seg c
  have hUnsent := seg.unsent_lt
  have hSent := seg.sent_le
  have hNonneg : ¬ (clampSent (sendAnswer K seg c).value (BitVec.ofNat 32 seg.unsent)).toInt < 0 := by
    have hLt : (clampSent (sendAnswer K seg c).value (BitVec.ofNat 32 seg.unsent)).toNat < 2 ^ 16 :=
      lt_of_le_of_lt hCounted hUnsent
    rw [BitVec.toInt_eq_toNat_cond]
    split_ifs <;> omega
  have hLast : seg.len = seg.sent + counted K seg c ↔ counted K seg c = seg.unsent := by
    unfold Segment.unsent
    omega
  apply (if_neg hNonneg).trans
  by_cases hAll : counted K seg c = seg.unsent
  · rw [if_pos hAll]
    exact if_pos (hLast.mpr hAll)
  · rw [if_neg hAll]
    exact if_neg fun h => hAll (hLast.mp h)

/-- An error counts as the whole rest of the segment. -/
theorem counted_of_error {K : Kernel} {seg : Segment} {c : Cell} {errno : Nat}
    (h : K.send c.calls = .error errno) : counted K seg c = seg.unsent := by
  have hUnsent := seg.unsent_lt
  simp only [counted, sendAnswer, h, SendResult.clamp, SendResult.value, clampSent]
  rw [if_pos (by bv_omega)]
  simp only [BitVec.toNat_ofNat]
  omega

/-- What is passed to `send()` is never shorter than the rest of the segment. -/
theorem length_forwardRequest (K : Kernel) (c : Cell) (seg : Segment) :
    seg.unsent ≤ (forwardRequest K c seg).length ∧
      (forwardRequest K c seg).length ≤ seg.unsent + 518 := by
  have hUnsent := seg.unsent_lt
  unfold forwardRequest
  split_ifs
  · cases hPatch : (patchHttpUrl seg.unsent).value (forwardMemory K c seg) with
    | none => simp
    | some request => exact length_patchHttpUrl (by omega) hPatch
  · simp

/-- A count is taken as it is, up to the rest of the segment. -/
theorem counted_of_accepted {K : Kernel} {seg : Segment} {c : Cell} {count : Nat}
    (h : K.send c.calls = .accepted count) : counted K seg c = min count seg.unsent := by
  have hUnsent := seg.unsent_lt
  obtain ⟨hShort, hLong⟩ := length_forwardRequest K c seg
  simp only [counted, sendAnswer, h, SendResult.clamp, SendResult.value, clampSent]
  have hMin : min (min count (forwardRequest K c seg).length) seg.unsent = min count seg.unsent := by
    omega
  have hBound : min count (forwardRequest K c seg).length < 2 ^ 32 := by omega
  rw [← hMin]
  generalize min count (forwardRequest K c seg).length = n at hBound
  split_ifs with hLt <;> simp only [BitVec.toNat_ofNat] <;> bv_omega

/-- A packet on port 443 before the tunnel is established finds the session in
use: its CONNECT request is taken, or was sent and the session is not closed. -/
def TunnelOpening (K : Kernel) (c : Cell) : Prop :=
  if c.tcp.connectSent = .notSent then 0 ≤ c.socket ∧ ∃ count, K.send c.calls = .accepted count
  else c.tcp.state ≠ .closing ∧ c.tcp.state ≠ .close

/-- The packet reaches `queue_tcp`, and not on the way to a reset. -/
def Queues (K : Kernel) (c : Cell) (hdr : TcpHdr) (data : Payload) : Prop :=
  hdr.urg = false ∧
    if c.tcp.dest = 443 ∧ c.tcp.connectSent ≠ .established then TunnelOpening K c
    else data.val ≠ [] ∧ 0 ≤ c.socket ∧ c.tcp.state ≠ .closeWait ∧ c.tcp.state ≠ .closing ∧
      c.tcp.state ≠ .close

/-- The socket has the accepting answer of the proxy. -/
def Accepts (K : Kernel) (c : Cell) : Prop :=
  ∃ bytes, K.recv c.calls = .data bytes ∧ cString (bytes.take 12) ∈ proxyAccepts

/-- The loop starts again, or `TCP_LISTEN` answers an event with anything but the
open tunnel. -/
def Declined (c : Cell) (input : Kernel × Input) : Prop :=
  input.2 = .allowed ∨ ∃ ev, input.2 = .event ev ∧
    ¬ (ev.epollerr = false ∧ ev.epollin = true ∧ Accepts input.1 c)

/-- The cells in which the forward loop calls `send()`. -/
def forwardTurns (K : Kernel) : List Segment → U32 → Cell → List Cell
  | [], _, _ => []
  | seg :: rest, bufferSize, c =>
      if canForward c seg bufferSize then
        c :: match forwardTurn K seg rest c with
          | (_, .stop _) => []
          | (c, .popped count) => forwardTurns K rest (bufferSize - BitVec.ofNat 32 count) c
      else []

/-- The turns of the forward loop in one step. Only a writable socket outside
`TCP_LISTEN` enters the loop. -/
def turns (c : Cell) (input : Kernel × Input) : List Cell :=
  match input.2 with
  | .event ev =>
      if 0 ≤ c.socket ∧ ¬ev.epollerr ∧ c.tcp.state ≠ .listen ∧ ev.epollout then
        let buffer := getReceiveBuffer input.1 c
        forwardTurns input.1 buffer.1.tcp.forward (BitVec.ofInt 32 buffer.2) buffer.1
      else []
  | _ => []

end Tun2Http
