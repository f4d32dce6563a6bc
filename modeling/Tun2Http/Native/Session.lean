import Tun2Http.Native.Ip
import Tun2Http.Native.TcpRun
import Tun2Http.Native.Udp

/-! `session.c`: the list of all sessions and the loop of `handle_events`,
which checks them, hands packets of the tun to the handlers of their protocol
and events to the session that epoll has registered. -/
namespace Tun2Http

open Machine

/-- The union of `struct ng_session`, with the socket. -/
inductive SessionData where
  | icmp (cell : IcmpCell)
  | udp (cell : UdpCell)
  | tcp (cell : Cell)
  deriving DecidableEq

/-- A session of the list. The pointer is the address it was allocated at. -/
structure NgSession where
  pointer : Nat
  data : SessionData
  deriving DecidableEq

/-- What tells UDP and TCP sessions apart. -/
structure Key where
  protocol : UInt8
  version : Nat
  saddr : List UInt8
  daddr : List UInt8
  source : Nat
  dest : Nat
  deriving DecidableEq

namespace SessionData

def socket : SessionData → Int
  | icmp c => c.socket
  | udp c => c.socket
  | tcp c => c.socket

/-- The fields that the search for a session compares. -/
def key : SessionData → Option Key
  | icmp _ => none
  | udp c => some ⟨ipprotoUdp, c.udp.version, c.udp.saddr, c.udp.daddr, c.udp.source.toNat,
      c.udp.dest.toNat⟩
  | tcp c => some ⟨ipprotoTcp, c.tcp.version, c.tcp.saddr, c.tcp.daddr, c.tcp.source.toNat,
      c.tcp.dest.toNat⟩

/-- `udp.state == UDP_ACTIVE`. -/
def active : SessionData → Bool
  | udp c => decide (c.udp.state = .active)
  | _ => false

/-- A session as `handle_ip` sees it. -/
def flow (data : SessionData) : Option Flow :=
  data.key.map fun key => ⟨key.protocol, key.version, key.saddr, key.daddr, key.source, key.dest,
    data.active⟩

/-- The sessions that `handle_events` counts. -/
def live : SessionData → Bool
  | icmp c => !c.icmp.stop
  | udp c => decide (c.udp.state = .active)
  | tcp c => decide (c.tcp.state ≠ .closing ∧ c.tcp.state ≠ .close)

/-- `monitor_tcp_session`, for the sessions that have one. -/
def monitor (K : Kernel) : SessionData → SessionData
  | tcp c => tcp (step c (K, .monitor))
  | data => data

/-- `check_icmp_session`, `check_udp_session` and `check_tcp_session`. -/
def check (K : Kernel) (sessions maxsessions : Int) : SessionData → SessionData × Bool
  | icmp c =>
      let result := checkIcmpSession K sessions maxsessions c
      (icmp result.1, result.2)
  | udp c =>
      let result := checkUdpSession K sessions maxsessions c
      (udp result.1, result.2)
  | tcp c =>
      let result := checkTcpSession K sessions maxsessions c
      (tcp result.1, result.2)

/-- `check_allowed`, for one session. -/
def allowed (K : Kernel) : SessionData → SessionData × Bool
  | icmp c => (icmp (if c.icmp.stop then c else c.halt), false)
  | udp c =>
      if c.udp.state = .active then (udp c.finish, false)
      else (udp c, decide (c.udp.state = .blocked))
  | tcp c => (tcp (checkAllowed K c), false)

/-- An event of the socket. Of a UDP session it is one turn of the loop that
reads while there is something to read. -/
def event (K : Kernel) (ev : EpollEvents) : SessionData → SessionData
  | icmp c => icmp (checkIcmpSocket K ev c)
  | udp c => udp (if ¬ev.epollerr ∧ ev.epollin then checkUdpSocket K ev c else c)
  | tcp c => tcp (step c (K, .event ev))

/-- What `handle_events` does with a reported socket. A UDP session reads while it is
readable, with the answers of the kernel to every turn. -/
def ready (K : Kernel) (turns : List Kernel) (ev : EpollEvents) : SessionData → SessionData
  | udp c => turns.foldl (fun data K => data.event K ev) (udp c)
  | data => data.event K ev

end SessionData

/-- The state of `handle_events`. `sessions` is the count of the last pass,
`epoll` has the registered sockets with the session they point to, and `freed`
the sessions that were unlinked and freed. -/
structure EventLoop where
  ngSession : List NgSession
  fwd53 : Bool
  maxsessions : Int
  sessions : Int
  next : Nat
  epoll : List (Int × Nat)
  freed : List NgSession

/-- `init`. -/
def EventLoop.init : EventLoop := ⟨[], false, 0, 0, 0, [], []⟩

/-- A packet of the tun, with what lies behind it. The loops over its extension
headers and options are followed for `turns` turns; `uid` is what `get_uid` finds. -/
structure Packet where
  mem : Memory
  length : Nat
  turns : Nat
  uid : Int

namespace EventLoop

/-- Every session is treated by `f`, which may ask for it to be freed. A socket
that is closed leaves epoll. -/
def update (L : EventLoop) (f : NgSession → SessionData × Bool) : EventLoop :=
  { L with
    ngSession := L.ngSession.filterMap fun s =>
      if (f s).2 then none else some ⟨s.pointer, (f s).1⟩
    freed := (L.ngSession.filterMap fun s =>
      if (f s).2 then some ⟨s.pointer, (f s).1⟩ else none) ++ L.freed
    epoll := L.epoll.filter fun registration =>
      ∀ s ∈ L.ngSession, (f s).1.socket ≠ s.data.socket → s.data.socket ≠ registration.1 }

/-- One session is treated, through its pointer. -/
def store (L : EventLoop) (pointer : Nat) (data : SessionData) : EventLoop :=
  L.update fun s => (if s.pointer = pointer then data else s.data, false)

/-- A new session is registered, also where epoll refuses it. -/
def register (L : EventLoop) (K : Kernel) (data : SessionData) : EventLoop :=
  { L with
    ngSession := ⟨L.next, data⟩ :: L.ngSession
    next := L.next + 1
    epoll := if K.epollCtl 0 then (data.socket, L.next) :: L.epoll else L.epoll }

/-- How many sessions are live. -/
def live (L : EventLoop) : Nat := L.ngSession.countP (·.data.live)

/-- The top of the loop: count and monitor the sessions, and check them where
the last check is long enough ago. -/
def pass (L : EventLoop) (kernels : Nat → Kernel) (check : Bool) : EventLoop :=
  let counted := { L with sessions := L.live }.update fun s =>
    (s.data.monitor (kernels s.pointer), false)
  if check then
    counted.update fun s => s.data.check (kernels s.pointer) counted.sessions counted.maxsessions
  else counted

/-- `handle_events` begins: sessions that are left are terminated, and epoll
is empty. -/
def start (L : EventLoop) (kernels : Nat → Kernel) (fwd53 : Bool) (maxsessions : Int) : EventLoop :=
  { L.update fun s => s.data.allowed (kernels s.pointer) with
    fwd53 := fwd53, maxsessions := maxsessions, epoll := [] }

/-- What `handle_ip` looks at. -/
def context (L : EventLoop) : IpContext :=
  ⟨L.sessions, L.maxsessions, L.fwd53, L.ngSession.filterMap (·.data.flow)⟩

/-- The search of `handle_udp` and `handle_tcp`. -/
def search (L : EventLoop) (key : Key) : Option NgSession :=
  L.ngSession.find? fun s => s.data.key = some key

/-- The search of `handle_icmp`. -/
def searchIcmp (L : EventLoop) (version : Nat) (addresses : List UInt8 × List UInt8) :
    Option NgSession :=
  L.ngSession.find? fun s => match s.data with
    | .icmp c => !c.icmp.stop && decide (c.icmp.version = version ∧ c.icmp.saddr = addresses.1 ∧
        c.icmp.daddr = addresses.2)
    | _ => false

end EventLoop

namespace Packet

/-- The key of the session that a packet with ports belongs to. -/
def key (pkt : Packet) (protocol : UInt8) (version payload : Nat) : Key :=
  let addresses := (readAddresses version).value pkt.mem
  ⟨protocol, version, addresses.1, addresses.2, (be16 payload).value pkt.mem,
    (be16 (payload + 2)).value pkt.mem⟩

/-- The data that `handle_tcp` takes; `datalen` is a `uint16_t`. -/
def payload (pkt : Packet) (span : Span) : Payload :=
  ⟨(readBytes span.data (span.datalen % 2 ^ 16)).value pkt.mem, by
    rw [length_readBytes]
    exact Nat.mod_lt _ (Nat.two_pow_pos 16)⟩

/-- The message of an echo request, with its new identifier. -/
def echo (pkt : Packet) (version payload : Nat) (span : Span) : List UInt8 :=
  icmpRequest version ((readAddresses version).value pkt.mem) ((readBytes 4 2).value pkt.mem)
    (pkt.mem 6) ((le16 (payload + 4)).value pkt.mem) ((readBytes span.data span.datalen).value pkt.mem)

/-- What a SYN says besides its header and data, where its options end. -/
def synInfo (pkt : Packet) (version payload : Nat) : Option SynInfo :=
  let addresses := (readAddresses version).value pkt.mem
  let tcpoptlen := optLen (pkt.mem (payload + 12) >>> 4)
  ((decodeOptions pkt.turns (payload + 20) tcpoptlen (getDefaultMss version) 0).value pkt.mem).map
    fun options =>
      { uid := pkt.uid
        version := version
        saddr := addresses.1
        daddr := addresses.2
        mss := options.1
        ws := options.2 }

end Packet

namespace EventLoop

/-- `handle_icmp`. -/
def handleIcmp (L : EventLoop) (K : Kernel) (pkt : Packet) (version payload : Nat) : EventLoop :=
  match (Tun2Http.handleIcmp pkt.length version payload).value pkt.mem with
  | none => L -- not an echo request
  | some span =>
      let addresses := (readAddresses version).value pkt.mem
      match L.searchIcmp version addresses with
      | some ⟨pointer, .icmp c⟩ =>
          L.store pointer (.icmp (forwardIcmp K (pkt.echo version payload span) c))
      | some _ => L
      | none =>
          match newIcmp K pkt.uid version addresses ((le16 (payload + 4)).value pkt.mem) with
          | none => L
          | some c => L.register K (.icmp (forwardIcmp K (pkt.echo version payload span) c))

/-- `handle_udp`. -/
def handleUdp (L : EventLoop) (K : Kernel) (pkt : Packet) (version payload : Nat) : EventLoop :=
  match (Tun2Http.handleUdp L.context pkt.length version payload).value pkt.mem with
  | none => L -- the session is over
  | some span =>
      let key := pkt.key ipprotoUdp version payload
      let forward := forwardUdp K pkt.mem key.source key.dest span.data span.datalen
      match L.search key with
      | some ⟨pointer, .udp c⟩ => L.store pointer (.udp (forward c))
      | some _ => L
      | none =>
          match newUdp K pkt.uid version (key.saddr, key.daddr) (BitVec.ofNat 16 key.source)
            (BitVec.ofNat 16 key.dest) with
          | none => L
          | some c => L.register K (.udp (forward c))

/-- `handle_tcp`. A segment of no session that is no SYN is answered by a reset. -/
def handleTcp (L : EventLoop) (K : Kernel) (pkt : Packet) (version payload : Nat) : EventLoop :=
  match (Tun2Http.handleTcp L.context pkt.turns pkt.length version payload).value pkt.mem with
  | none => L -- URG
  | some span =>
      let hdr := (readTcpHdr payload).value pkt.mem
      match L.search (pkt.key ipprotoTcp version payload) with
      | some ⟨pointer, .tcp c⟩ =>
          L.store pointer (.tcp (step c (K, .segment hdr (pkt.payload span))))
      | some _ => L
      | none =>
          if hdr.syn then
            match pkt.synInfo version payload with
            | none => L
            | some info =>
                match newSession K info hdr (pkt.payload span) with
                | none => L
                | some c => L.register K (.tcp c)
          else L

/-- The calls of `handle_tcp` for a segment of no session that is no SYN. -/
def unknownTcp (L : EventLoop) (K : Kernel) (pkt : Packet) (version payload : Nat) : List Io :=
  match (Tun2Http.handleTcp L.context pkt.turns pkt.length version payload).value pkt.mem with
  | none => [] -- URG
  | some span =>
      let hdr := (readTcpHdr payload).value pkt.mem
      match L.search (pkt.key ipprotoTcp version payload) with
      | some _ => []
      | none =>
          if hdr.syn then []
          else (resetUnknown K ((readAddresses version).value pkt.mem) hdr span.datalen).log

/-- `handle_ip`, from the packet to what its handler leaves. -/
def handleIp (L : EventLoop) (K : Kernel) (pkt : Packet) : EventLoop :=
  match (Tun2Http.handleIp L.context pkt.turns pkt.length).value pkt.mem with
  | .handler version protocol payload =>
      if protocol = ipprotoIcmp ∨ protocol = ipprotoIcmpv6 then L.handleIcmp K pkt version payload
      else if protocol = ipprotoUdp then L.handleUdp K pkt version payload
      else L.handleTcp K pkt version payload
  | _ => L

/-- An event of epoll, for the session that its registration points to. -/
def event (L : EventLoop) (K : Kernel) (registration : Int × Nat) (ev : EpollEvents) : EventLoop :=
  if registration ∈ L.epoll then
    match L.ngSession.find? (·.pointer = registration.2) with
    | none => L
    | some s => L.store s.pointer (s.data.event K ev)
  else L

/-- Whether a registration is still there. -/
@[reducible] def decideRegistered (L : EventLoop) (registration : Int × Nat) :
    Decidable (registration ∈ L.epoll) := inferInstance

/-- `clear`, after `handle_events` has ended. -/
def clear (L : EventLoop) : EventLoop := { L with ngSession := [], epoll := [] }

end EventLoop

/-- What happens to the sessions, in the order of the source: `handle_events`
begins; it makes a pass over the sessions, waits, and handles a batch with
packets of the tun and events of the sockets, and so on; and when it has ended
it may begin again, or the sessions are cleared. A step that the source never
comes back from, at an option of length 0 or a name that points at itself, is a
step here too, in which no data is handled. -/
inductive LoopInput where
  | start (kernels : Nat → Kernel) (fwd53 : Bool) (maxsessions : Int)
  | pass (kernels : Nat → Kernel) (check : Bool)
  | packet (K : Kernel) (pkt : Packet)
  | event (K : Kernel) (registration : Int × Nat) (ev : EpollEvents)
  | clear

/-- One step of the loop. -/
def stepLoop (L : EventLoop) : LoopInput → EventLoop
  | .start kernels fwd53 maxsessions => L.start kernels fwd53 maxsessions
  | .pass kernels check => L.pass kernels check
  | .packet K pkt => L.handleIp K pkt
  | .event K registration ev => L.event K registration ev
  | .clear => L.clear

/-- What `epoll_wait` reports, one entry after the other: packets of the tun, which
are read until there is none, and sockets, with the pointer to their session. -/
inductive Ready where
  | packet (K : Kernel) (pkt : Packet)
  | socket (pointer : Nat) (K : Kernel) (turns : List Kernel) (ev : EpollEvents)

/-- The session that an entry points to. -/
def Ready.pointer : Ready → Option Nat
  | packet _ _ => none
  | socket pointer _ _ _ => some pointer

/-- `handle_events` on one entry of a batch. -/
def readyStep (L : EventLoop) : Ready → EventLoop
  | .packet K pkt => L.handleIp K pkt
  | .socket pointer K turns ev =>
      match L.ngSession.find? (·.pointer = pointer) with
      | none => L
      | some s => L.store s.pointer (s.data.ready K turns ev)

end Tun2Http
