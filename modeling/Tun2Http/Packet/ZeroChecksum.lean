import Tun2Http.Packet.Checksum

/-! The checksum of a datagram that is zero. `write_udp` stores the complement of
the sum as it is, and a receiver takes a zero for no checksum at all. -/
namespace Tun2Http

open Machine

/-- The checksum field of a datagram, behind the IP header, as a host loads it. -/
def udpCheck (version : Nat) (packet : List UInt8) : U16 :=
  (le16 (ipHeaderLength version + 6)).value (packetMemory packet)

/-- The words that the checksum of a datagram covers, in network order: the
addresses, the protocol, twice the length, the ports and the data. -/
def coveredSum (cur : UdpSession) (data : List UInt8) : Nat :=
  (words (addressOf cur.version cur.daddr)).sum + (words (addressOf cur.version cur.saddr)).sum +
    ipprotoUdp.toNat + 2 * (8 + data.length) + cur.dest.toNat + cur.source.toNat + (words data).sum

variable {cur : UdpSession} {data : List UInt8}

/-- The words on the wire leave the rest of the words of the host, exchanged. -/
theorem words_mod (message : List UInt8) :
    (words message).sum % 65535 = 256 * hostSum message % 65535 :=
  (onesEq_hostWords message).modEq

theorem hostSum_header (packet : UdpPacket) (hSmall : 8 + packet.data.length ≤ 65535) :
    256 * hostSum (packet.header 0) % 65535 =
      (packet.source.toNat + packet.dest.toNat + (8 + packet.data.length)) % 65535 := by
  have hSource := packet.source.isLt
  have hDest := packet.dest.isLt
  rw [UdpPacket.header, hostSum_append (by simp), hostSum_append (by simp), hostSum_append (by simp),
    hostSum_field16 (by omega), hostSum_field16 (by omega), hostSum_field16 hSmall,
    hostSum_hostField16, show (0 : U16).toNat = 0 from rfl]
  omega

/-- The pseudo headers of both versions have the same sum. -/
theorem hostSum_receiverPseudo {version length : Nat} {protocol : UInt8} {saddr daddr upper : List UInt8}
    (h : Addressed version saddr daddr) (hLength : upper.length = length) (hSmall : length ≤ 65535) :
    hostSum (receiverPseudo version (ipHeader version protocol saddr daddr length ++ upper)) =
      hostSum saddr + hostSum daddr + (length / 256 + 256 * (length % 256)) + 256 * protocol.toNat := by
  rw [receiverPseudo_eq h hLength]
  obtain ⟨hSaddr, hDaddr⟩ := h
  unfold addressLength at hSaddr hDaddr
  split_ifs at hSaddr hDaddr ⊢
  · rw [ippseudo, hostSum_append (by simp [hSaddr, hDaddr]), hostSum_append (by simp [hSaddr, hDaddr]),
      hostSum_append (by rw [hSaddr]), hostSum_field16 hSmall]
    simp
    omega
  · rw [hostSum_pseudo6 hSaddr hDaddr rfl, hostSum_field32 hSmall]

theorem value_le16_of_holds {mem : Memory} {offset : Nat} {value : U16}
    (h : Holds mem offset (hostField16 value)) : (le16 offset).value mem = value := by
  have hSmall := value.isLt
  have hLow : mem offset = (value.toNat % 256).toUInt8 := h.1
  have hHigh : mem (offset + 1) = (value.toNat / 256).toUInt8 := h.2.1
  apply BitVec.eq_of_toNat_eq
  rw [value_le16, hLow, hHigh]
  simp only [BitVec.toNat_ofNat, Nat.toUInt8_eq, UInt8.toNat_ofNat']
  omega

/-- What is stored in the field is the complement of the sum. -/
theorem udpCheck_bytes {packet : UdpPacket} (h : Addressed packet.version packet.saddr packet.daddr) :
    udpCheck packet.version packet.bytes = ~~~ packet.csum := by
  have hBytes : Holds (packetMemory packet.bytes) 0 packet.bytes := holds_getD packet.bytes
  unfold udpCheck
  generalize packetMemory packet.bytes = mem at hBytes ⊢
  have hParts : packet.bytes = ipHeader packet.version ipprotoUdp packet.saddr packet.daddr
      (8 + packet.data.length) ++ ((field16 packet.source.toNat ++ field16 packet.dest.toNat ++
        field16 (8 + packet.data.length)) ++ (hostField16 (~~~ packet.csum) ++ packet.data)) := by
    simp only [UdpPacket.bytes, UdpPacket.header, List.append_assoc]
  rw [hParts, holds_append, length_ipHeader h, Nat.zero_add] at hBytes
  exact value_le16_of_holds (holds_append.mp (holds_append.mp hBytes.2).2).1

/-- The sum goes over the pseudo header, the header and the data. -/
theorem UdpPacket.onesEq_csum {packet : UdpPacket}
    (h : Addressed packet.version packet.saddr packet.daddr) (hSmall : 8 + packet.data.length ≤ 65535) :
    OnesEq packet.csum.toNat (hostSum packet.saddr + hostSum packet.daddr +
      ((8 + packet.data.length) / 256 + 256 * ((8 + packet.data.length) % 256)) +
        256 * ipprotoUdp.toNat + hostSum (packet.header 0) + hostSum packet.data) := by
  have hUpper : (packet.header 0 ++ packet.data).length = 8 + packet.data.length := by
    rw [List.length_append, UdpPacket.length_header]
  have hPseudo : OnesEq (pseudoSum packet.version ipprotoUdp packet.saddr packet.daddr
      (8 + packet.data.length)).toNat _ := onesEq_pseudoSum h hUpper (by omega)
  rw [hostSum_receiverPseudo h hUpper hSmall] at hPseudo
  have hHeader := onesEq_next hPseudo (by rw [UdpPacket.length_header]; decide :
    (packet.header 0).length ≤ 65535)
  exact onesEq_next hHeader (by omega : packet.data.length ≤ 65535)

/-- It is all ones just where the words covered are a multiple of 65535. -/
theorem UdpPacket.csum_eq_iff {packet : UdpPacket}
    (h : Addressed packet.version packet.saddr packet.daddr) (hSmall : 8 + packet.data.length ≤ 65535) :
    packet.csum.toNat = 65535 ↔ ((words packet.saddr).sum + (words packet.daddr).sum +
      ipprotoUdp.toNat + 2 * (8 + packet.data.length) + packet.source.toNat + packet.dest.toNat +
        (words packet.data).sum) % 65535 = 0 := by
  have hSaddr := words_mod packet.saddr
  have hDaddr := words_mod packet.daddr
  have hWords := words_mod packet.data
  have hPorts := hostSum_header packet hSmall
  have hProtocol : ipprotoUdp.toNat = 17 := rfl
  rw [(packet.onesEq_csum h hSmall).eq_iff packet.csum.isLt, hProtocol]
  constructor
  · rintro ⟨-, hDvd⟩
    omega
  · exact fun hZero => ⟨by omega, by omega⟩

theorem csum_eq_iff (hSaddr : addressLength cur.version ≤ cur.saddr.length)
    (hDaddr : addressLength cur.version ≤ cur.daddr.length)
    (hData : data.length ≤ (udpMaxmsg cur.version).toNat) :
    (buildUdp cur data).csum.toNat = 65535 ↔ coveredSum cur data % 65535 = 0 := by
  have hMax : (udpMaxmsg cur.version).toNat ≤ 65507 := by
    unfold udpMaxmsg
    split_ifs <;> decide
  have hSmall : 8 + (buildUdp cur data).data.length ≤ 65535 := by
    show 8 + data.length ≤ 65535
    omega
  exact UdpPacket.csum_eq_iff (addressed_addressOf hSaddr hDaddr) hSmall

theorem not_eq_zero_iff (value : U16) : ~~~ value = 0 ↔ value.toNat = 65535 := by
  have hSmall := value.isLt
  rw [← BitVec.toNat_inj, toNat_not, show (0 : U16).toNat = 0 from rfl]
  omega

theorem udpCheck_buildUdp (hSaddr : addressLength cur.version ≤ cur.saddr.length)
    (hDaddr : addressLength cur.version ≤ cur.daddr.length) :
    udpCheck cur.version (buildUdp cur data).bytes = ~~~ (buildUdp cur data).csum := by
  have hAddressed : Addressed (buildUdp cur data).version (buildUdp cur data).saddr
      (buildUdp cur data).daddr := addressed_addressOf hSaddr hDaddr
  have hField := udpCheck_bytes hAddressed
  exact hField

/-- The checksum of a datagram that is built is there exactly if the words that it
covers do not add up to a multiple of 65535. -/
theorem udp_checksum_present_iff (hSaddr : addressLength cur.version ≤ cur.saddr.length)
    (hDaddr : addressLength cur.version ≤ cur.daddr.length)
    (hData : data.length ≤ (udpMaxmsg cur.version).toNat) :
    udpCheck cur.version (buildUdp cur data).bytes ≠ 0 ↔ coveredSum cur data % 65535 ≠ 0 := by
  rw [Ne, udpCheck_buildUdp hSaddr hDaddr, not_eq_zero_iff, csum_eq_iff hSaddr hDaddr hData]

/-- Three bytes of a name server, with a checksum. -/
theorem udp_checksum_present_odd : udpCheck 6 (buildUdp nameSession [104, 105, 33]).bytes ≠ 0 :=
  (@udp_checksum_present_iff nameSession [104, 105, 33] (by decide) (by decide) (by decide)).mpr
    (by decide)

/-- Two bytes of it, without. -/
theorem udp_checksum_absent : udpCheck 6 (buildUdp nameSession [56, 114]).bytes = 0 := by
  have hField : udpCheck 6 (buildUdp nameSession [56, 114]).bytes =
      ~~~ (buildUdp nameSession [56, 114]).csum :=
    @udpCheck_buildUdp nameSession [56, 114] (by decide) (by decide)
  rw [hField, not_eq_zero_iff]
  exact (csum_eq_iff (by decide) (by decide) (by decide)).mpr (by decide)

end Tun2Http
