import Tun2Http.Native.Dns
import Tun2Http.Native.Icmp

/-! `udp.c` and `dhcp.c`: sessions that pass datagrams on. A session that is
over is finished, then closed, and lingers for a minute; a datagram of a DHCP
client is answered instead of sent. -/
namespace Tun2Http

open Machine

/-- `UDP_ACTIVE`, `UDP_FINISHING`, `UDP_CLOSED` and `UDP_BLOCKED`. -/
inductive UdpState where
  | active | finishing | closed | blocked
  deriving DecidableEq, Repr

/-- `struct udp_session`. -/
structure UdpSession where
  time : Int
  uid : Int
  version : Nat
  mss : U16
  sent : BitVec 64
  received : BitVec 64
  saddr : List UInt8
  source : U16
  daddr : List UInt8
  dest : U16
  state : UdpState
  deriving DecidableEq

/-- The two ends that a session connects. -/
def UdpSession.endpoints (u : UdpSession) : Nat × List UInt8 × List UInt8 × U16 × U16 :=
  (u.version, u.saddr, u.daddr, u.source, u.dest)

/-- A datagram written to the tun. -/
structure UdpPacket where
  version : Nat
  saddr : List UInt8
  daddr : List UInt8
  source : U16
  dest : U16
  data : List UInt8
  deriving DecidableEq

/-- The calls made for a UDP session. -/
inductive UdpIo where
  | time (now : Int)
  | tun (packet : UdpPacket) (whole : Bool)
  | send (data : List UInt8) (result : SendResult)
  | recv (result : RecvResult)
  | close
  deriving DecidableEq

/-- The `ng_session` node of a UDP session, with its calls, newest first. -/
structure UdpCell where
  udp : UdpSession
  socket : Int
  log : List UdpIo
  deriving DecidableEq

namespace UdpCell

def call (c : UdpCell) (entry : UdpIo) : UdpCell := { c with log := entry :: c.log }

def calls (c : UdpCell) : Nat := c.log.length

/-- `s->udp.time = time(NULL)`. -/
def touch (K : Kernel) (c : UdpCell) : UdpCell :=
  let now := K.time c.calls
  { c with udp := { c.udp with time := now } }.call (.time now)

/-- `s->udp.state = UDP_FINISHING`. -/
def finish (c : UdpCell) : UdpCell := { c with udp := { c.udp with state := .finishing } }

@[simp] theorem call_udp (c : UdpCell) (entry : UdpIo) : (c.call entry).udp = c.udp := rfl
@[simp] theorem call_socket (c : UdpCell) (entry : UdpIo) : (c.call entry).socket = c.socket := rfl
@[simp] theorem touch_socket (K : Kernel) (c : UdpCell) : (c.touch K).socket = c.socket := rfl
@[simp] theorem touch_state (K : Kernel) (c : UdpCell) : (c.touch K).udp.state = c.udp.state := rfl
@[simp] theorem finish_socket (c : UdpCell) : c.finish.socket = c.socket := rfl
@[simp] theorem finish_state (c : UdpCell) : c.finish.udp.state = .finishing := rfl

end UdpCell

/-- `get_udp_timeout`. -/
def getUdpTimeout (u : UdpSession) (sessions maxsessions : Int) : Int :=
  scaleTimeout (if u.dest = 53 then 15 else 300) sessions maxsessions

/-- The session timeout of `check_udp_session`. -/
def udpTimeout (timeout now : Int) (c : UdpCell) : UdpCell :=
  if c.udp.state = .active ∧ c.udp.time + timeout < now then c.finish else c

/-- The finished sessions of `check_udp_session`. -/
def udpFinished (K : Kernel) (c : UdpCell) : UdpCell :=
  if c.udp.state = .finishing then
    let c := ({ c with socket := -1 }.call .close).touch K
    { c with udp := { c.udp with state := .closed } }
  else c

/-- The byte counts of a closed session are given up. -/
def udpDropCounts (c : UdpCell) : UdpCell :=
  if c.udp.state = .closed ∧ (c.udp.sent ≠ 0 ∨ c.udp.received ≠ 0) then
    { c with udp := { c.udp with sent := 0, received := 0 } }
  else c

/-- `check_udp_session`. The flag asks for the session to be freed. -/
def checkUdpSession (K : Kernel) (sessions maxsessions : Int) (c : UdpCell) : UdpCell × Bool :=
  let now := K.time c.calls
  let c := c.call (.time now)
  let c := udpDropCounts (udpFinished K
    (udpTimeout (getUdpTimeout c.udp sessions maxsessions) now c))
  -- Cleanup lingering sessions
  (c, decide ((c.udp.state = .closed ∨ c.udp.state = .blocked) ∧ c.udp.time + 60 < now))

/-- `write_udp`. The flag tells whether the whole packet was written. -/
def writeUdp (K : Kernel) (c : UdpCell) (data : List UInt8) : UdpCell × Bool :=
  let whole := K.tunWrite c.calls
  let packet : UdpPacket :=
    { version := c.udp.version
      saddr := addressOf c.udp.version c.udp.daddr
      daddr := addressOf c.udp.version c.udp.saddr
      source := c.udp.dest
      dest := c.udp.source
      data := data }
  (c.call (.tun packet whole), whole)

/-- The buffer that `check_udp_socket` has read into. -/
def receivedMemory (K : Kernel) (c : UdpCell) (bytes : List UInt8) : Memory := fun offset =>
  if h : offset < bytes.length then bytes[offset] else K.behind c.calls (offset - bytes.length)

/-- `check_udp_socket`. A response of a name server is only looked at, but where
`parse_dns_response` does not come back nothing is written. -/
def checkUdpSocket (K : Kernel) (ev : EpollEvents) (c : UdpCell) : UdpCell :=
  if ev.epollerr then (c.touch K).finish
  else if ev.epollin then
    let c := c.touch K
    match K.recv c.calls with
    | .error errno =>
        let c := c.call (.recv (.error errno))
        if errno ≠ eintr ∧ errno ≠ eagain then c.finish else c
    | .data arrived =>
        let bytes := arrived.take c.udp.mss.toNat
        let c := c.call (.recv (.data bytes))
        if bytes = [] then c.finish
        else
          let c := { c with udp := { c.udp with
            received := c.udp.received + BitVec.ofNat 64 bytes.length } }
          -- Process DNS response
          if c.udp.dest = 53 ∧ dnsResponseReturns (receivedMemory K c bytes) bytes.length = false then c
          else
            let result := writeUdp K c bytes
            -- Prevent too many open files
            if ¬result.2 ∨ c.udp.dest = 53 then result.1.finish else result.1
  else c

/-- `UDP4_MAXMSG` and `UDP6_MAXMSG`. -/
def udpMaxmsg (version : Nat) : U16 :=
  if version = 4 then BitVec.ofNat 16 (65535 - 20 - 8) else BitVec.ofNat 16 (65535 - 40 - 8)

/-- The session that a datagram registers, or `none` where its socket cannot
be opened. -/
def newUdp (K : Kernel) (uid : Int) (version : Nat) (addresses : List UInt8 × List UInt8)
    (source dest : U16) : Option UdpCell :=
  let now := K.time 0
  let socket := openDatagramSocket K
  if socket < 0 then none
  else some
    { udp :=
        { time := now
          uid := uid
          version := version
          mss := udpMaxmsg version
          sent := 0
          received := 0
          saddr := addresses.1
          source := source
          daddr := addresses.2
          dest := dest
          state := .active }
      socket := socket
      log := [.time now] }

/-! `dhcp.c`. -/

/-- `DHCP_OPTION_MAGIC_NUMBER`. -/
def dhcpOptionMagicNumber : U32 := 0x63825363

/-- The address `10.1.10.1` of the tun. -/
def dhcpServer : List UInt8 := [10, 1, 10, 1]

/-- What `check_dhcp` asks of the data to go on: a whole `struct dhcp_packet`
with the magic number, of an Ethernet client. -/
def dhcpPacket (data datalen : Nat) : Reader Bool :=
  if datalen < 240 then pure false
  else do
    let magic ← be32 (data + 236)
    let htype ← Reader.byte (data + 1)
    let hlen ← Reader.byte (data + 2)
    pure (decide (magic = dhcpOptionMagicNumber ∧ htype = 1 ∧ hlen = 6))

/-- The 500 bytes of the response. The options are stored behind them: the
pointer moves by whole packets. -/
def dhcpResponse (request : List UInt8) : List UInt8 :=
  let siaddr := (request.drop 20).take 4
  let opcode : UInt8 := if siaddr = [0, 0, 0, 0] then 2 else 4
  [opcode] ++ (request.drop 1).take 7 ++ [0, 0, 0, 0] ++ [0, 0, 0, 0] ++ [10, 1, 10, 2] ++ dhcpServer ++
    [0, 0, 0, 0] ++ (request.drop 28).take 212 ++ List.replicate 260 0

/-- The request as `check_dhcp` answers it. First the source address of the
session is overwritten. -/
def answerDhcp (K : Kernel) (request : List UInt8) (c : UdpCell) : UdpCell :=
  let c := { c with udp := { c.udp with saddr := dhcpServer ++ c.udp.saddr.drop 4 } }
  (writeUdp K c (dhcpResponse request)).1

/-- `check_dhcp` on the data at `data`. The flag is that it returns 0. -/
def checkDhcp (K : Kernel) (mem : Memory) (data datalen : Nat) (c : UdpCell) : UdpCell × Bool :=
  if (dhcpPacket data datalen).value mem then
    if mem data = 1 then (answerDhcp K ((readBytes data 240).value mem) c, true) -- Discover/request
    else (c, true)
  else (c, false)

/-- The datagram of `handle_udp`. It is sent whole or not at all. -/
def sendUdp (K : Kernel) (message : List UInt8) (c : UdpCell) : UdpCell :=
  let c := c.touch K
  let result := K.send c.calls
  let c := c.call (.send message result)
  match result with
  | .error errno => if errno ≠ eintr ∧ errno ≠ eagain then c.finish else c
  | .accepted _ =>
      { c with udp := { c.udp with sent := c.udp.sent + BitVec.ofNat 64 message.length } }

/-- `get_dns_query` is called for the datagram, and does not come back. -/
def QueryHangs (mem : Memory) (dest data datalen : Nat) : Prop :=
  dest = 53 ∧ dnsQueryReturns (fun off => mem (data + off)) datalen = false

instance (mem : Memory) (dest data datalen : Nat) : Decidable (QueryHangs mem dest data datalen) :=
  inferInstanceAs (Decidable (_ ∧ _))

/-- `handle_udp`, once there is an active session. A query to a name server is only
looked at, but where `get_dns_query` does not come back nothing is sent. -/
def forwardUdp (K : Kernel) (mem : Memory) (source dest data datalen : Nat) (c : UdpCell) : UdpCell :=
  let message := (readBytes data datalen).value mem
  if QueryHangs mem dest data datalen then c -- Check for DNS
  else if source = 68 ∨ dest = 67 then -- Check for DHCP (tethering)
    let checked := checkDhcp K mem data datalen c
    if checked.2 then checked.1 else sendUdp K message checked.1
  else sendUdp K message c

/-! What a UDP session keeps. -/

/-- From `c` to `d` socket and ends stay, and the session goes on or is finished. -/
structure UdpKept (c d : UdpCell) : Prop where
  socket : d.socket = c.socket
  endpoints : d.udp.endpoints = c.udp.endpoints
  state : d.udp.state = c.udp.state ∨ d.udp.state = .finishing

theorem udpKept_udpTimeout (timeout now : Int) (c : UdpCell) :
    UdpKept c (udpTimeout timeout now c) := by
  unfold udpTimeout
  split_ifs
  · exact ⟨rfl, rfl, Or.inr rfl⟩
  · exact ⟨rfl, rfl, Or.inl rfl⟩

theorem udpKept_udpDropCounts (c : UdpCell) : UdpKept c (udpDropCounts c) := by
  unfold udpDropCounts
  split_ifs <;> exact ⟨rfl, rfl, Or.inl rfl⟩

theorem udpKept_checkUdpSocket (K : Kernel) (ev : EpollEvents) (c : UdpCell) :
    UdpKept c (checkUdpSocket K ev c) := by
  unfold checkUdpSocket
  dsimp only
  split_ifs
  · exact ⟨rfl, rfl, Or.inr rfl⟩
  · split
    · split_ifs
      · exact ⟨rfl, rfl, Or.inr rfl⟩
      · exact ⟨rfl, rfl, Or.inl rfl⟩
    · split_ifs
      · exact ⟨rfl, rfl, Or.inr rfl⟩
      · exact ⟨rfl, rfl, Or.inl rfl⟩
      · exact ⟨rfl, rfl, Or.inr rfl⟩
      · exact ⟨rfl, rfl, Or.inl rfl⟩
  · exact ⟨rfl, rfl, Or.inl rfl⟩

theorem udpKept_sendUdp (K : Kernel) (message : List UInt8) (c : UdpCell) :
    UdpKept c (sendUdp K message c) := by
  unfold sendUdp
  dsimp only
  split
  · split_ifs
    · exact ⟨rfl, rfl, Or.inr rfl⟩
    · exact ⟨rfl, rfl, Or.inl rfl⟩
  · exact ⟨rfl, rfl, Or.inl rfl⟩

/-- The datagram is a DHCP request that is answered. -/
def AsksDhcp (mem : Memory) (source dest data datalen : Nat) : Prop :=
  ¬ QueryHangs mem dest data datalen ∧ (source = 68 ∨ dest = 67) ∧
    (dhcpPacket data datalen).value mem = true ∧ mem data = 1

instance (mem : Memory) (source dest data datalen : Nat) :
    Decidable (AsksDhcp mem source dest data datalen) :=
  inferInstanceAs (Decidable (_ ∧ _))

/-- Of an answer only the overwritten source address stays. -/
theorem answerDhcp_eq (K : Kernel) (request : List UInt8) (c : UdpCell) :
    (answerDhcp K request c).socket = c.socket ∧
      (answerDhcp K request c).udp = { c.udp with saddr := dhcpServer ++ c.udp.saddr.drop 4 } :=
  ⟨rfl, rfl⟩

/-- A datagram is an answered DHCP request, or leaves socket and ends. -/
theorem forwardUdp_cases (K : Kernel) (mem : Memory) (source dest data datalen : Nat) (c : UdpCell) :
    (¬ AsksDhcp mem source dest data datalen ∧
      UdpKept c (forwardUdp K mem source dest data datalen c)) ∨
    (AsksDhcp mem source dest data datalen ∧ forwardUdp K mem source dest data datalen c =
      answerDhcp K ((readBytes data 240).value mem) c) := by
  unfold forwardUdp checkDhcp AsksDhcp
  dsimp only
  by_cases hHangs : QueryHangs mem dest data datalen
  · refine Or.inl ⟨fun hAsks => hAsks.1 hHangs, ?_⟩
    rw [if_pos hHangs]
    exact ⟨rfl, rfl, Or.inl rfl⟩
  rw [if_neg hHangs]
  by_cases hPort : source = 68 ∨ dest = 67
  · by_cases hPacket : (dhcpPacket data datalen).value mem = true
    · by_cases hOpcode : mem data = 1
      · exact Or.inr ⟨⟨hHangs, hPort, hPacket, hOpcode⟩, by simp [hPort, hPacket, hOpcode]⟩
      · refine Or.inl ⟨fun hAsks => hOpcode hAsks.2.2.2, ?_⟩
        simp only [hPort, hPacket, hOpcode, if_true, if_false]
        exact ⟨rfl, rfl, Or.inl rfl⟩
    · refine Or.inl ⟨fun hAsks => hPacket hAsks.2.2.1, ?_⟩
      simp only [hPort, hPacket, if_true]
      exact udpKept_sendUdp K _ c
  · refine Or.inl ⟨fun hAsks => hPort hAsks.2.1, ?_⟩
    simp only [hPort, if_false]
    exact udpKept_sendUdp K _ c

theorem forwardUdp_socket (K : Kernel) (mem : Memory) (source dest data datalen : Nat)
    (c : UdpCell) : (forwardUdp K mem source dest data datalen c).socket = c.socket := by
  rcases forwardUdp_cases K mem source dest data datalen c with ⟨-, hKept⟩ | ⟨-, hAnswer⟩
  · exact hKept.socket
  · rw [hAnswer, (answerDhcp_eq K _ c).1]

/-- A new session has a socket, is active, and has the ends that it is given. -/
theorem newUdp_eq {K : Kernel} {uid : Int} {version : Nat} {addresses : List UInt8 × List UInt8}
    {source dest : U16} {c : UdpCell} (hNew : newUdp K uid version addresses source dest = some c) :
    0 ≤ c.socket ∧ c.udp.state = .active ∧
      c.udp.endpoints = (version, addresses.1, addresses.2, source, dest) := by
  unfold newUdp at hNew
  dsimp only at hNew
  split_ifs at hNew with hSocket
  simp only [Option.some.injEq] at hNew
  subst hNew
  exact ⟨not_lt.mp hSocket, rfl, rfl⟩

theorem isSome_newUdp (K : Kernel) (uid : Int) (version : Nat) (addresses : List UInt8 × List UInt8)
    (source dest : U16) :
    (newUdp K uid version addresses source dest).isSome = true ↔ 0 ≤ openDatagramSocket K := by
  unfold newUdp
  dsimp only
  split_ifs with hSocket
  · simp [hSocket]
  · simp [not_lt.mp hSocket]

end Tun2Http
