import Tun2Http.Native.Ip
import Tun2Http.Native.TcpSocket

/-! `icmp.c`: sessions that pass echo requests on. A session has one socket for
all requests between two addresses, and ends by `stop`. -/
namespace Tun2Http

open Machine

/-- `struct icmp_session`. The identifier is as the host loads it. -/
structure IcmpSession where
  time : Int
  uid : Int
  version : Nat
  saddr : List UInt8
  daddr : List UInt8
  id : U16
  stop : Bool
  deriving DecidableEq

/-- An ICMP message written to the tun. -/
structure IcmpPacket where
  version : Nat
  saddr : List UInt8
  daddr : List UInt8
  data : List UInt8
  deriving DecidableEq

/-- The calls made for an ICMP session. -/
inductive IcmpIo where
  | time (now : Int)
  | tun (packet : IcmpPacket) (whole : Bool)
  | send (message : List UInt8) (result : SendResult)
  | recv (result : RecvResult)
  | close
  deriving DecidableEq

/-- The `ng_session` node of an ICMP session, with its calls, newest first. -/
structure IcmpCell where
  icmp : IcmpSession
  socket : Int
  log : List IcmpIo
  deriving DecidableEq

namespace IcmpCell

def call (c : IcmpCell) (entry : IcmpIo) : IcmpCell := { c with log := entry :: c.log }

def calls (c : IcmpCell) : Nat := c.log.length

/-- `s->icmp.time = time(NULL)`. -/
def touch (K : Kernel) (c : IcmpCell) : IcmpCell :=
  let now := K.time c.calls
  { c with icmp := { c.icmp with time := now } }.call (.time now)

/-- `s->icmp.stop = 1`. -/
def halt (c : IcmpCell) : IcmpCell := { c with icmp := { c.icmp with stop := true } }

@[simp] theorem call_icmp (c : IcmpCell) (entry : IcmpIo) : (c.call entry).icmp = c.icmp := rfl
@[simp] theorem call_socket (c : IcmpCell) (entry : IcmpIo) : (c.call entry).socket = c.socket := rfl
@[simp] theorem touch_socket (K : Kernel) (c : IcmpCell) : (c.touch K).socket = c.socket := rfl
@[simp] theorem touch_stop (K : Kernel) (c : IcmpCell) :
    (c.touch K).icmp.stop = c.icmp.stop := rfl
@[simp] theorem halt_socket (c : IcmpCell) : c.halt.socket = c.socket := rfl
@[simp] theorem halt_stop (c : IcmpCell) : c.halt.icmp.stop = true := rfl

end IcmpCell

/-- The timeouts of the three protocols shrink with the number of sessions.
Both divisions truncate. -/
def scaleTimeout (timeout sessions maxsessions : Int) : Int :=
  (timeout * (100 - (sessions * 100).tdiv maxsessions)).tdiv 100

/-- `get_icmp_timeout`. -/
def getIcmpTimeout (sessions maxsessions : Int) : Int := scaleTimeout 15 sessions maxsessions

/-- `check_icmp_session`. The flag asks for the session to be freed. -/
def checkIcmpSession (K : Kernel) (sessions maxsessions : Int) (c : IcmpCell) : IcmpCell × Bool :=
  let now := K.time c.calls
  let c := c.call (.time now)
  if c.icmp.stop ∨ c.icmp.time + getIcmpTimeout sessions maxsessions < now then
    ({ c with socket := -1 }.call .close, true)
  else (c, false)

/-- `ICMP4_MAXMSG` and `ICMP6_MAXMSG`. -/
def icmpMaxmsg (version : Nat) : Nat := if version = 4 then 65535 - 20 - 8 else 65535 - 40 - 8

/-- Store a 16-bit field as a little-endian host does. -/
def storeLe16 (message : List UInt8) (offset : Nat) (value : U16) : List UInt8 :=
  (message.set offset (value.toNat % 256).toUInt8).set (offset + 1) (value.toNat / 256).toUInt8

/-- `icmp_cksum`, computed over the message with the field at zero. -/
def storeChecksum (csum : U16) (message : List UInt8) : List UInt8 :=
  storeLe16 message 2 (~~~ calcChecksum csum (storeLe16 message 2 0))

/-- The sum over `struct ip6_hdr_pseudo`; `len` holds its four bytes. -/
def pseudoChecksum (src dst len : List UInt8) (nxt : UInt8) : U16 :=
  calcChecksum 0 (src ++ dst ++ len ++ [0, 0, 0, nxt])

/-- A `uint32_t` as a little-endian host stores it. -/
def le32Bytes (value : U32) : List UInt8 :=
  [(value.toNat % 256).toUInt8, (value.toNat / 256 % 256).toUInt8,
    (value.toNat / 65536 % 256).toUInt8, (value.toNat / 16777216).toUInt8]

/-- The reply that goes to the tun: it gets the identifier of the session back. -/
def icmpReply (cur : IcmpSession) (bytes : List UInt8) : List UInt8 :=
  let csum : U16 := if cur.version = 6 then
    pseudoChecksum cur.daddr cur.saddr (le32Bytes (BitVec.ofNat 32 bytes.length - 40))
      ipprotoIcmpv6 else 0
  storeChecksum csum (storeLe16 bytes 4 cur.id)

/-- `write_icmp`. The flag tells whether the whole packet was written. -/
def writeIcmp (K : Kernel) (c : IcmpCell) (data : List UInt8) : IcmpCell × Bool :=
  let whole := K.tunWrite c.calls
  let packet : IcmpPacket :=
    { version := c.icmp.version
      saddr := addressOf c.icmp.version c.icmp.daddr
      daddr := addressOf c.icmp.version c.icmp.saddr
      data := data }
  (c.call (.tun packet whole), whole)

/-- `check_icmp_socket`. -/
def checkIcmpSocket (K : Kernel) (ev : EpollEvents) (c : IcmpCell) : IcmpCell :=
  if ev.epollerr then (c.touch K).halt
  else if ev.epollin then
    let c := c.touch K
    match K.recv c.calls with
    | .error errno =>
        let c := c.call (.recv (.error errno))
        if errno ≠ eintr ∧ errno ≠ eagain then c.halt else c
    | .data arrived =>
        let bytes := arrived.take (icmpMaxmsg c.icmp.version)
        let c := c.call (.recv (.data bytes))
        if bytes = [] then c.halt
        else
          let result := writeIcmp K c (icmpReply c.icmp bytes)
          if result.2 then result.1 else result.1.halt
  else c

/-- `open_icmp_socket`, and `open_udp_socket` but for its socket options: the
descriptor, or `-1` where a call fails. -/
def openDatagramSocket (K : Kernel) : Int :=
  if K.socket 0 < 0 then -1
  else if ¬K.protect 0 then -1
  else K.socket 0

/-- The session that an echo request registers, or `none` where its socket
cannot be opened. -/
def newIcmp (K : Kernel) (uid : Int) (version : Nat) (addresses : List UInt8 × List UInt8)
    (id : U16) : Option IcmpCell :=
  let now := K.time 0
  let socket := openDatagramSocket K
  if socket < 0 then none
  else some
    { icmp :=
        { time := now
          uid := uid
          version := version
          saddr := addresses.1
          daddr := addresses.2
          id := id
          stop := false }
      socket := socket
      log := [.time now] }

/-- The request as it is sent: its identifier is complemented. `plen` holds
the bytes of `ip6_plen`, and `nxt` is `ip6_nxt`. -/
def icmpRequest (version : Nat) (addresses : List UInt8 × List UInt8) (plen : List UInt8)
    (nxt : UInt8) (id : U16) (message : List UInt8) : List UInt8 :=
  let csum : U16 :=
    if version = 6 then pseudoChecksum addresses.2 addresses.1 (plen ++ [0, 0]) nxt else 0
  storeChecksum csum (storeLe16 message 4 (~~~ id))

/-- `handle_icmp`, once there is a session. A datagram is sent whole or not at all. -/
def forwardIcmp (K : Kernel) (message : List UInt8) (c : IcmpCell) : IcmpCell :=
  let c := c.touch K
  let result := K.send c.calls
  let c := c.call (.send message result)
  match result with
  | .error errno => if errno ≠ eintr ∧ errno ≠ eagain then c.halt else c
  | .accepted _ => c

/-- Only the check gives the socket up, and frees the session with it. -/
theorem checkIcmpSession_freed {K : Kernel} {sessions maxsessions : Int} {c : IcmpCell}
    (h : (checkIcmpSession K sessions maxsessions c).2 = true) :
    (checkIcmpSession K sessions maxsessions c).1.socket = -1 := by
  unfold checkIcmpSession at h ⊢
  dsimp only at h ⊢
  split_ifs at h ⊢
  rfl

/-- A stopped session stays stopped, and an event keeps the socket. -/
theorem checkIcmpSocket_socket (K : Kernel) (ev : EpollEvents) (c : IcmpCell) :
    (checkIcmpSocket K ev c).socket = c.socket := by
  unfold checkIcmpSocket
  dsimp only
  split_ifs
  · rfl
  · split
    · split_ifs <;> rfl
    · split_ifs <;> rfl
  · rfl

theorem checkIcmpSocket_stop {K : Kernel} {ev : EpollEvents} {c : IcmpCell} (h : c.icmp.stop = true) :
    (checkIcmpSocket K ev c).icmp.stop = true := by
  unfold checkIcmpSocket
  dsimp only
  split_ifs
  · rfl
  · split
    · split_ifs
      · rfl
      · exact h
    · split_ifs
      · rfl
      · exact h
      · rfl
  · exact h

theorem forwardIcmp_socket (K : Kernel) (message : List UInt8) (c : IcmpCell) :
    (forwardIcmp K message c).socket = c.socket := by
  unfold forwardIcmp
  dsimp only
  split
  · split_ifs <;> rfl
  · rfl

theorem forwardIcmp_stop {K : Kernel} {message : List UInt8} {c : IcmpCell}
    (h : c.icmp.stop = true) : (forwardIcmp K message c).icmp.stop = true := by
  unfold forwardIcmp
  dsimp only
  split
  · split_ifs
    · rfl
    · exact h
  · exact h

/-- A new session has a socket, and is not stopped. -/
theorem newIcmp_eq {K : Kernel} {uid : Int} {version : Nat} {addresses : List UInt8 × List UInt8}
    {id : U16} {c : IcmpCell} (hNew : newIcmp K uid version addresses id = some c) :
    0 ≤ c.socket ∧ c.icmp.stop = false := by
  unfold newIcmp at hNew
  dsimp only at hNew
  split_ifs at hNew with hSocket
  simp only [Option.some.injEq] at hNew
  subst hNew
  exact ⟨not_lt.mp hSocket, rfl⟩

/-- It is opened wherever there is a socket. -/
theorem isSome_newIcmp (K : Kernel) (uid : Int) (version : Nat) (addresses : List UInt8 × List UInt8)
    (id : U16) : (newIcmp K uid version addresses id).isSome = true ↔ 0 ≤ openDatagramSocket K := by
  unfold newIcmp
  dsimp only
  split_ifs with hSocket
  · simp [hSocket]
  · simp [not_lt.mp hSocket]

end Tun2Http
