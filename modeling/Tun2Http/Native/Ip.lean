import Tun2Http.Native.TcpQueue
import Tun2Http.Native.TcpWrite

/-! `ip.c`: `handle_ip`, which finds the transport header of a packet from the
tun, and the heads of the handlers, up to where they take the payload. Offsets
count from the packet; what lies behind it is arbitrary. -/
namespace Tun2Http

open Machine

def ipprotoIcmp : UInt8 := 1
def ipprotoTcp : UInt8 := 6
def ipprotoUdp : UInt8 := 17
def ipprotoIcmpv6 : UInt8 := 58

/-- `IP_MF`, as the host loads it. -/
def ipMf : U16 := 0x2000

/-- `ICMP_ECHO`. -/
def icmpEcho : UInt8 := 8

/-- What a lookup in the session list compares, and `udp.state == UDP_ACTIVE`. -/
structure Flow where
  protocol : UInt8
  version : Nat
  saddr : List UInt8
  daddr : List UInt8
  source : Nat
  dest : Nat
  active : Bool
  deriving DecidableEq

/-- What `handle_ip` knows besides the packet. -/
structure IpContext where
  sessions : Int
  maxsessions : Int
  fwd53 : Bool
  ngSession : List Flow

/-- `is_lower_layer`. -/
def isLowerLayer (protocol : UInt8) : Prop :=
  protocol = 0 ∨ protocol = 60 ∨ protocol = 43 ∨ protocol = 44 ∨ protocol = 51 ∨ protocol = 50 ∨
    protocol = 135

/-- `is_upper_layer`. -/
def isUpperLayer (protocol : UInt8) : Prop :=
  protocol = ipprotoTcp ∨ protocol = ipprotoUdp ∨ protocol = ipprotoIcmp ∨ protocol = ipprotoIcmpv6

instance (protocol : UInt8) : Decidable (isLowerLayer protocol) :=
  inferInstanceAs (Decidable (_ ∨ _))

instance (protocol : UInt8) : Decidable (isUpperLayer protocol) :=
  inferInstanceAs (Decidable (_ ∨ _))

/-- `length - (payload - pkt)` in `size_t`. -/
def remaining (length offset : Nat) : Nat := (BitVec.ofNat 32 length - BitVec.ofNat 32 offset).toNat

/-- What is left of the packet, where the header lies in it. -/
theorem remaining_of_le {length offset : Nat} (hOffset : offset ≤ length) (hLength : length ≤ getMtu) :
    remaining length offset = length - offset := by
  unfold remaining
  unfold getMtu at hLength
  bv_omega

/-- Where the header lies behind the packet, the subtraction wraps. -/
theorem remaining_of_lt {length offset : Nat} (hOffset : length < offset) (hSmall : offset < 2 ^ 16) :
    remaining length offset = 2 ^ 32 - (offset - length) := by
  unfold remaining
  bv_omega

/-- `(uint8_t) ((words - 5) * 4)`, the bytes of options behind a header. -/
def optLen (words : UInt8) : Nat := ((words - 5) * 4).toNat

/-- The loop over the extension headers, `none` while it goes on after `turns`
turns. `off` is a `uint16_t`. -/
def skipExtensions : Nat → U16 → UInt8 → Reader (Option (U16 × UInt8))
  | 0, _, _ => pure none
  | turns + 1, off, protocol => do
      let next ← Reader.byte off.toNat
      if isLowerLayer next ∧ ¬ isUpperLayer protocol then do
        let len ← Reader.byte (off.toNat + 1)
        skipExtensions turns (off + 8 + BitVec.ofNat 16 len.toNat) next
      else pure (some (off, protocol))

/-- What the loop leaves: without an upper layer it starts over with the first
header. The payload is behind the fixed header and `off`. -/
def afterExtensions (nxt : UInt8) : Option (U16 × UInt8) → Option (UInt8 × Nat)
  | none => none
  | some (off, protocol) =>
      if isUpperLayer protocol then some (protocol, 40 + off.toNat) else some (nxt, 40)

/-- Protocol and payload of an IPv6 packet. -/
def ip6Payload (turns : Nat) : Reader (Option (UInt8 × Nat)) := do
  let nxt ← Reader.byte 6
  if isUpperLayer nxt then pure (some (nxt, 40))
  else do
    let walked ← skipExtensions turns 40 nxt
    pure (afterExtensions nxt walked)

/-- The addresses of the packet. -/
def readAddresses (version : Nat) : Reader (List UInt8 × List UInt8) :=
  if version = 4 then do
    let saddr ← readBytes 12 4
    let daddr ← readBytes 16 4
    pure (saddr, daddr)
  else do
    let saddr ← readBytes 8 16
    let daddr ← readBytes 24 16
    pure (saddr, daddr)

/-- The search for a session. -/
def findSession (X : IpContext) (protocol : UInt8) (version : Nat)
    (addresses : List UInt8 × List UInt8) (source dest : Nat) : Option Flow :=
  X.ngSession.find? fun cur =>
    cur.protocol = protocol ∧ cur.version = version ∧ cur.source = source ∧ cur.dest = dest ∧
      cur.saddr = addresses.1 ∧ cur.daddr = addresses.2

/-- `has_udp_session`. -/
def hasUdpSession (X : IpContext) (version payload : Nat) : Reader Bool := do
  let dest ← be16 (payload + 2)
  if dest = 53 ∧ ¬X.fwd53 then pure true
  else do
    let source ← be16 payload
    let addresses ← readAddresses version
    pure (findSession X ipprotoUdp version addresses source dest).isSome

/-- Get ports and flags, and limit the number of sessions: whether a handler is
called for the packet. -/
def limitSessions (X : IpContext) (length version : Nat) (protocol : UInt8) (payload : Nat) :
    Reader Bool :=
  if protocol = ipprotoIcmp ∨ protocol = ipprotoIcmpv6 then
    if remaining length payload < 28 then pure false -- ICMP packet too short
    else do
      let _ ← be16 (payload + 4)
      pure (decide (X.sessions < X.maxsessions))
  else if protocol = ipprotoUdp then
    if remaining length payload < 8 then pure false -- UDP packet too short
    else do
      let _ ← be16 payload
      let known ← hasUdpSession X version payload
      pure (decide (X.sessions < X.maxsessions) || known)
  else if protocol = ipprotoTcp then
    if remaining length payload < 20 then pure false -- TCP packet too short
    else do
      let _ ← be16 payload
      let _ ← be16 (payload + 2)
      let flags ← Reader.byte (payload + 13)
      pure (decide (X.sessions < X.maxsessions) || decide (flags &&& 0x02 = 0))
  else pure false

/-- What the handler needs to be called: its header, and room for a session
where it may open one. -/
def Admitted (X : IpContext) (length version : Nat) (mem : Memory) (protocol : UInt8)
    (payload : Nat) : Prop :=
  if protocol = ipprotoIcmp ∨ protocol = ipprotoIcmpv6 then
    28 ≤ remaining length payload ∧ X.sessions < X.maxsessions
  else if protocol = ipprotoUdp then
    8 ≤ remaining length payload ∧
      (X.sessions < X.maxsessions ∨ (hasUdpSession X version payload).value mem = true)
  else if protocol = ipprotoTcp then
    20 ≤ remaining length payload ∧ (X.sessions < X.maxsessions ∨ mem (payload + 13) &&& 0x02 = 0)
  else False

instance (X : IpContext) (length version : Nat) (mem : Memory) (protocol : UInt8) (payload : Nat) :
    Decidable (Admitted X length version mem protocol payload) := by
  unfold Admitted
  infer_instance

theorem value_limitSessions_iff (X : IpContext) (length version : Nat) (mem : Memory)
    (protocol : UInt8) (payload : Nat) :
    (limitSessions X length version protocol payload).value mem = true ↔
      Admitted X length version mem protocol payload := by
  unfold limitSessions Admitted
  split_ifs with hIcmp hShort hUdp hShort hTcp hShort
  · simp [hShort]
  · simp [not_lt.mp hShort]
  · simp [hShort]
  · simp [not_lt.mp hShort]
  · simp [hShort]
  · simp only [Reader.value_bind, Reader.value_pure, Reader.value_byte, Bool.or_eq_true,
      decide_eq_true_eq, not_lt.mp hShort, true_and]
    exact or_congr Iff.rfl decide_eq_true_iff
  · simp

theorem Admitted.upper {X : IpContext} {length version payload : Nat} {mem : Memory}
    {protocol : UInt8} (h : Admitted X length version mem protocol payload) :
    isUpperLayer protocol := by
  unfold Admitted at h
  split_ifs at h with hIcmp hUdp hTcp
  · exact Or.inr (Or.inr hIcmp)
  · exact Or.inr (Or.inl hUdp)
  · exact Or.inl hTcp

/-- What `handle_ip` does with a packet: it drops it, or calls the handler of
`protocol`. It is `running` while the loop over the extensions goes on. -/
inductive IpResult where
  | running
  | dropped
  | handler (version : Nat) (protocol : UInt8) (payload : Nat)
  deriving DecidableEq

/-- The part of `handle_ip` behind the IP header. -/
def handlePayload (X : IpContext) (length version : Nat) (protocol : UInt8) (payload : Nat) :
    Reader IpResult := do
  let _ ← readAddresses version
  let admitted ← limitSessions X length version protocol payload
  pure (if admitted then .handler version protocol payload else .dropped)

theorem value_handlePayload (X : IpContext) (length version : Nat) (mem : Memory) (protocol : UInt8)
    (payload : Nat) :
    (handlePayload X length version protocol payload).value mem =
      if Admitted X length version mem protocol payload then .handler version protocol payload
      else .dropped := by
  rw [handlePayload, Reader.value_bind, Reader.value_bind, Reader.value_pure]
  exact if_congr (value_limitSessions_iff ..) rfl rfl

/-- The IPv6 packet, once the loop over the extensions has ended. -/
def handleIp6 (X : IpContext) (length : Nat) : Option (UInt8 × Nat) → Reader IpResult
  | none => pure .running
  | some (protocol, payload) => handlePayload X length 6 protocol payload

/-- `handle_ip`. The checksum is not looked at: `loglevel` is always
`ANDROID_LOG_WARN`. -/
def handleIp (X : IpContext) (turns length : Nat) : Reader IpResult := do
  let first ← Reader.byte 0
  if first >>> 4 = 4 then
    if length < 20 then pure .dropped -- IP4 packet too short
    else do
      let protocol ← Reader.byte 9
      let fragOff ← le16 6
      if fragOff &&& ipMf ≠ 0 then pure .dropped -- IP fragment
      else do
        let totLen ← be16 2
        if totLen ≠ length then pure .dropped -- Invalid length
        else handlePayload X length 4 protocol (20 + optLen (first &&& 0x0F))
  else if first >>> 4 = 6 then
    if length < 40 then pure .dropped -- IP6 packet too short
    else do
      let found ← ip6Payload turns
      handleIp6 X length found
  else pure .dropped -- Unknown version

/-! The heads of the handlers. -/

/-- `data` and `datalen` of a handler. -/
structure Span where
  data : Nat
  datalen : Nat
  deriving DecidableEq

/-- `ip6_plen`, for the pseudo header that an ICMPv6 checksum covers. -/
def readPlen (version : Nat) : Reader Nat := if version = 6 then be16 4 else pure 0

/-- `handle_icmp`, up to where it takes the message; other types are ignored. -/
def handleIcmp (length version payload : Nat) : Reader (Option Span) := do
  let kind ← Reader.byte payload
  if kind ≠ icmpEcho then pure none
  else do
    let _ ← readAddresses version
    let _ ← le16 (payload + 4)
    let _ ← readPlen version
    pure (some ⟨payload, remaining length payload⟩)

/-- `handle_udp`, up to the search for the session; inactive ones are ignored. -/
def handleUdp (X : IpContext) (length version payload : Nat) : Reader (Option Span) := do
  let source ← be16 payload
  let dest ← be16 (payload + 2)
  let addresses ← readAddresses version
  if (findSession X ipprotoUdp version addresses source dest).any (!·.active) then pure none
  else pure (some ⟨payload + 8, remaining length (payload + 8)⟩)

/-- The fields of `struct tcphdr`. -/
def readTcpHdr (payload : Nat) : Reader TcpHdr := do
  let source ← be16 payload
  let dest ← be16 (payload + 2)
  let seq ← be32 (payload + 4)
  let ackSeq ← be32 (payload + 8)
  let flags ← Reader.byte (payload + 13)
  let window ← be16 (payload + 14)
  pure
    { source := BitVec.ofNat 16 source
      dest := BitVec.ofNat 16 dest
      seq := seq
      ackSeq := ackSeq
      window := BitVec.ofNat 16 window
      syn := decide (flags &&& 0x02 ≠ 0)
      ack := decide (flags &&& 0x10 ≠ 0)
      psh := decide (flags &&& 0x08 ≠ 0)
      fin := decide (flags &&& 0x01 ≠ 0)
      rst := decide (flags &&& 0x04 ≠ 0)
      urg := decide (flags &&& 0x20 ≠ 0) }

/-- The MSS of an option, where it has one. -/
def optionMss (kind len : UInt8) (options : Nat) (mss : U16) : Reader U16 :=
  if kind = 2 ∧ len = 4 then do
    let value ← be16 (options + 2)
    pure (BitVec.ofNat 16 value)
  else pure mss

/-- The window scale of an option, where it has one. -/
def optionScale (kind len : UInt8) (options : Nat) (ws : BitVec 8) : Reader (BitVec 8) :=
  if kind = 3 ∧ len = 3 then do
    let value ← Reader.byte (options + 2)
    pure value.toBitVec
  else pure ws

/-- The option loop of `handle_tcp`, `none` while it goes on after `turns` turns. -/
def decodeOptions : Nat → Nat → Int → U16 → BitVec 8 → Reader (Option (U16 × BitVec 8))
  | 0, _, _, _, _ => pure none
  | turns + 1, options, optlen, mss, ws =>
      if 0 < optlen then do
        let kind ← Reader.byte options
        let len ← Reader.byte (options + 1)
        if kind = 0 then pure (some (mss, ws)) -- End of options list
        else do
          let mss ← optionMss kind len options mss
          let ws ← optionScale kind len options ws
          if kind = 1 then decodeOptions turns (options + 1) (optlen - 1) mss ws
          else decodeOptions turns (options + len.toNat) (optlen - len.toNat) mss ws
      else pure (some (mss, ws))

/-- `handle_tcp`, up to where it takes the data: the options of a SYN are read
where there is no session. -/
def handleTcp (X : IpContext) (turns length version payload : Nat) : Reader (Option Span) := do
  let hdr ← readTcpHdr payload
  let doff ← Reader.byte (payload + 12)
  let tcpoptlen := optLen (doff >>> 4)
  let data := payload + 20 + tcpoptlen
  let datalen := remaining length data % 2 ^ 16
  if hdr.urg then pure none -- Drop URG data
  else do
    let addresses ← readAddresses version
    let cur := findSession X ipprotoTcp version addresses hdr.source.toNat hdr.dest.toNat
    if cur = none ∧ hdr.syn then do
      let _ ← decodeOptions turns (payload + 20) tcpoptlen (getDefaultMss version) 0
      pure (some ⟨data, datalen⟩)
    else pure (some ⟨data, datalen⟩)

/-- The handler that `handle_ip` calls. -/
def callHandler (X : IpContext) (turns length : Nat) : IpResult → Reader (Option Span)
  | .handler version protocol payload =>
      if protocol = ipprotoIcmp ∨ protocol = ipprotoIcmpv6 then handleIcmp length version payload
      else if protocol = ipprotoUdp then handleUdp X length version payload
      else handleTcp X turns length version payload
  | _ => pure none

/-- A packet, from `handle_ip` to the payload that its handler takes. -/
def handlePacket (X : IpContext) (turns length : Nat) : Reader (Option Span) := do
  let result ← handleIp X turns length
  callHandler X turns length result

/-- The bytes of a packet, with zeros behind it. -/
def packetMemory (bytes : List UInt8) : Memory := fun offset => bytes.getD offset 0

/-- A context with nothing in the session list. -/
def idleContext : IpContext := ⟨0, 10, false, []⟩

end Tun2Http
