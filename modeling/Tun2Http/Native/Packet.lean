import Tun2Http.Native.Udp

/-! The bytes of the packets that `write_tcp`, `write_udp` and `write_icmp` hand to the
tun. All put an IP header in front, and the first two sum a pseudo header before their own. -/
namespace Tun2Http

open Machine

/-- `IPDEFTTL`. -/
def ipDefTtl : UInt8 := 64

/-- A 16-bit field as a little-endian host stores it. -/
def hostField16 (value : U16) : List UInt8 :=
  [(value.toNat % 256).toUInt8, (value.toNat / 256).toUInt8]

/-- A 32-bit field in network order. -/
def field32 (value : U32) : List UInt8 :=
  field16 (value.toNat / 65536) ++ field16 (value.toNat % 65536)

/-- `struct iphdr`, as it is filled in for `len` bytes in all. -/
def ip4Header (len : Nat) (protocol : UInt8) (saddr daddr : List UInt8) (check : U16) :
    List UInt8 :=
  [0x45, 0] ++ field16 len ++ [0, 0, 0, 0, ipDefTtl, protocol] ++ hostField16 check ++ saddr ++ daddr

/-- `struct ip6_hdr`, for `plen` bytes behind it. -/
def ip6Header (plen : Nat) (nxt : UInt8) (src dst : List UInt8) : List UInt8 :=
  [0x60, 0, 0, 0] ++ field16 plen ++ [nxt, ipDefTtl] ++ src ++ dst

/-- `struct ippseudo`. -/
def ippseudo (src dst : List UInt8) (protocol : UInt8) (len : Nat) : List UInt8 :=
  src ++ dst ++ [0, protocol] ++ field16 len

/-- The IP header in front of `length` bytes, with its checksum in version 4. -/
def ipHeader (version : Nat) (protocol : UInt8) (saddr daddr : List UInt8) (length : Nat) :
    List UInt8 :=
  if version = 4 then
    let ip4 := ip4Header (20 + length) protocol saddr daddr
    ip4 (~~~ calcChecksum 0 (ip4 0))
  else ip6Header length protocol saddr daddr

/-- The sum over the pseudo header. The one of version 6 has its addresses
exchanged, and the length as `ip6_plen` has it. -/
def pseudoSum (version : Nat) (protocol : UInt8) (saddr daddr : List UInt8) (length : Nat) : U16 :=
  if version = 4 then calcChecksum 0 (ippseudo saddr daddr protocol length)
  else pseudoChecksum daddr saddr (field16 length ++ [0, 0]) protocol

namespace TcpPacket

/-- The byte of `doff`. -/
def dataOffset (packet : TcpPacket) : UInt8 := ((20 + packet.options.length) / 4 * 16).toUInt8

/-- The byte of the flags. -/
def flags (packet : TcpPacket) : UInt8 :=
  (packet.fin.toNat + 2 * packet.syn.toNat + 4 * packet.rst.toNat + 16 * packet.ack.toNat).toUInt8

/-- `struct tcphdr`. -/
def header (packet : TcpPacket) (check : U16) : List UInt8 :=
  field16 packet.source.toNat ++ field16 packet.dest.toNat ++ field32 packet.seq ++
    field32 packet.ackSeq ++ [packet.dataOffset, packet.flags] ++ field16 packet.window.toNat ++
    hostField16 check ++ [0, 0]

/-- What is behind the IP header. -/
def upperLength (packet : TcpPacket) : Nat := 20 + packet.options.length + packet.payload.length

/-- The checksum, over the header and then the options and the data. -/
def csum (packet : TcpPacket) : U16 :=
  let csum := pseudoSum packet.version ipprotoTcp packet.saddr packet.daddr packet.upperLength
  let csum := calcChecksum csum (packet.header 0)
  let csum := calcChecksum csum packet.options
  calcChecksum csum packet.payload

/-- The packet as it is written to the tun. -/
def bytes (packet : TcpPacket) : List UInt8 :=
  ipHeader packet.version ipprotoTcp packet.saddr packet.daddr packet.upperLength ++
    (packet.header (~~~ packet.csum) ++ packet.options ++ packet.payload)

end TcpPacket

/-- The packet that `write_udp` builds. -/
def buildUdp (cur : UdpSession) (data : List UInt8) : UdpPacket where
  version := cur.version
  saddr := addressOf cur.version cur.daddr
  daddr := addressOf cur.version cur.saddr
  source := cur.dest
  dest := cur.source
  data := data

namespace UdpPacket

/-- `struct udphdr`. -/
def header (packet : UdpPacket) (check : U16) : List UInt8 :=
  field16 packet.source.toNat ++ field16 packet.dest.toNat ++ field16 (8 + packet.data.length) ++
    hostField16 check

/-- The checksum, over the header and then the data. -/
def csum (packet : UdpPacket) : U16 :=
  let csum := pseudoSum packet.version ipprotoUdp packet.saddr packet.daddr (8 + packet.data.length)
  let csum := calcChecksum csum (packet.header 0)
  calcChecksum csum packet.data

/-- The packet as it is written to the tun. -/
def bytes (packet : UdpPacket) : List UInt8 :=
  ipHeader packet.version ipprotoUdp packet.saddr packet.daddr (8 + packet.data.length) ++
    (packet.header (~~~ packet.csum) ++ packet.data)

end UdpPacket

namespace IcmpPacket

/-- The protocol in the IP header. -/
def protocol (packet : IcmpPacket) : UInt8 := if packet.version = 4 then ipprotoIcmp else ipprotoIcmpv6

/-- The packet as it is written to the tun. -/
def bytes (packet : IcmpPacket) : List UInt8 :=
  ipHeader packet.version packet.protocol packet.saddr packet.daddr packet.data.length ++ packet.data

end IcmpPacket

/-! Lengths. -/

/-- `tot_len` or `ip6_plen`, as a receiver reads it. -/
def readIpLength (version : Nat) : Reader Nat := if version = 4 then be16 2 else be16 4

/-- The length in the IP header is the real one: of the packet, or of what is
behind the header in version 6. -/
def IpLengthReal (version : Nat) (packet : List UInt8) : Prop :=
  (readIpLength version).value (packetMemory packet) =
    if version = 4 then packet.length else packet.length - 40

/-- How many bytes an address has. -/
def addressLength (version : Nat) : Nat := if version = 4 then 4 else 16

/-- How many bytes the IP header has. -/
def ipHeaderLength (version : Nat) : Nat := if version = 4 then 20 else 40

/-- The addresses have the length of the version. -/
structure Addressed (version : Nat) (saddr daddr : List UInt8) : Prop where
  saddr : saddr.length = addressLength version
  daddr : daddr.length = addressLength version

theorem addressed_readAddresses (version : Nat) (mem : Memory) :
    Addressed version ((readAddresses version).value mem).1 ((readAddresses version).value mem).2 := by
  unfold readAddresses
  rw [Reader.value_ite]
  constructor <;>
    · unfold addressLength
      split_ifs <;> exact length_readBytes _ _ _

@[simp] theorem length_field32 (value : U32) : (field32 value).length = 4 := rfl

@[simp] theorem length_hostField16 (value : U16) : (hostField16 value).length = 2 := rfl

theorem length_ipHeader {version : Nat} {saddr daddr : List UInt8} (h : Addressed version saddr daddr)
    (protocol : UInt8) (length : Nat) :
    (ipHeader version protocol saddr daddr length).length = ipHeaderLength version := by
  obtain ⟨hSaddr, hDaddr⟩ := h
  unfold addressLength at hSaddr hDaddr
  unfold ipHeader ipHeaderLength
  dsimp only
  split_ifs at hSaddr hDaddr ⊢ with hVersion
  · simp [ip4Header, hSaddr, hDaddr]
  · simp [ip6Header, hSaddr, hDaddr]

theorem TcpPacket.length_header (packet : TcpPacket) (check : U16) :
    (packet.header check).length = 20 := rfl

theorem UdpPacket.length_header (packet : UdpPacket) (check : U16) :
    (packet.header check).length = 8 := rfl

theorem TcpPacket.length_bytes {packet : TcpPacket}
    (h : Addressed packet.version packet.saddr packet.daddr) :
    packet.bytes.length = ipHeaderLength packet.version + packet.upperLength := by
  simp only [TcpPacket.bytes, List.length_append, length_ipHeader h, TcpPacket.length_header,
    TcpPacket.upperLength]

theorem UdpPacket.length_bytes {packet : UdpPacket}
    (h : Addressed packet.version packet.saddr packet.daddr) :
    packet.bytes.length = ipHeaderLength packet.version + (8 + packet.data.length) := by
  simp only [UdpPacket.bytes, List.length_append, length_ipHeader h, UdpPacket.length_header]

theorem IcmpPacket.length_bytes {packet : IcmpPacket}
    (h : Addressed packet.version packet.saddr packet.daddr) :
    packet.bytes.length = ipHeaderLength packet.version + packet.data.length := by
  simp only [IcmpPacket.bytes, List.length_append, length_ipHeader h]

/-- The length field of 16 bits has the real length while that fits. -/
theorem value_readIpLength {mem : Memory} {version length : Nat} {protocol : UInt8}
    {saddr daddr : List UInt8} (hFits : ipHeaderLength version + length < 2 ^ 16)
    (h : Holds mem 0 (ipHeader version protocol saddr daddr length)) :
    (readIpLength version).value mem = if version = 4 then 20 + length else length := by
  unfold ipHeader at h
  unfold readIpLength
  unfold ipHeaderLength at hFits
  dsimp only at h
  rw [Reader.value_ite]
  split_ifs at h hFits ⊢
  · simp only [ip4Header, holds_append] at h
    exact value_be16_of_holds h.1.1.1.1.2 hFits
  · simp only [ip6Header, holds_append] at h
    exact value_be16_of_holds h.1.1.1.2 (by omega)

theorem ipLengthReal {version length : Nat} {protocol : UInt8} {saddr daddr upper : List UInt8}
    (h : Addressed version saddr daddr) (hLength : upper.length = length)
    (hFits : ipHeaderLength version + length < 2 ^ 16) :
    IpLengthReal version (ipHeader version protocol saddr daddr length ++ upper) := by
  have hHeader := (holds_append.mp
    (holds_getD (ipHeader version protocol saddr daddr length ++ upper))).1
  rw [IpLengthReal, List.length_append, length_ipHeader h, hLength]
  apply (value_readIpLength hFits hHeader).trans
  unfold ipHeaderLength
  split_ifs
  · rfl
  · omega

theorem TcpPacket.ipLengthReal {packet : TcpPacket}
    (h : Addressed packet.version packet.saddr packet.daddr) (hFits : packet.bytes.length < 2 ^ 16) :
    IpLengthReal packet.version packet.bytes := by
  rw [TcpPacket.length_bytes h] at hFits
  refine Tun2Http.ipLengthReal h ?_ hFits
  simp only [List.length_append, TcpPacket.length_header, TcpPacket.upperLength]

theorem UdpPacket.ipLengthReal {packet : UdpPacket}
    (h : Addressed packet.version packet.saddr packet.daddr) (hFits : packet.bytes.length < 2 ^ 16) :
    IpLengthReal packet.version packet.bytes := by
  rw [UdpPacket.length_bytes h] at hFits
  refine Tun2Http.ipLengthReal h ?_ hFits
  simp only [List.length_append, UdpPacket.length_header]

theorem IcmpPacket.ipLengthReal {packet : IcmpPacket}
    (h : Addressed packet.version packet.saddr packet.daddr) (hFits : packet.bytes.length < 2 ^ 16) :
    IpLengthReal packet.version packet.bytes := by
  rw [IcmpPacket.length_bytes h] at hFits
  exact Tun2Http.ipLengthReal h rfl hFits

theorem addressOf_of_length {version : Nat} {address : List UInt8}
    (h : address.length = addressLength version) : addressOf version address = address := by
  unfold addressLength at h
  unfold addressOf
  split_ifs at h ⊢ <;> exact List.take_of_length_le h.le

/-- A session with both addresses builds packets with both. -/
theorem addressed_addressOf {version : Nat} {saddr daddr : List UInt8}
    (hSaddr : addressLength version ≤ saddr.length) (hDaddr : addressLength version ≤ daddr.length) :
    Addressed version (addressOf version daddr) (addressOf version saddr) := by
  unfold addressLength at hSaddr hDaddr
  refine ⟨?_, ?_⟩ <;>
    · unfold addressOf addressLength
      split_ifs at hSaddr hDaddr ⊢ <;> exact List.length_take_of_le (by assumption)

end Tun2Http
