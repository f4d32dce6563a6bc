import Tun2Http.Machine.OnesComplement
import Tun2Http.Native.Packet
import Tun2Http.Native.TcpRun

/-! Checksums. The code sums the words as the host loads them, in several calls
that hand the sum on; a receiver sums all words in network order. -/
namespace Tun2Http

open Machine

/-- The pseudo header that a receiver puts together from the packet. -/
def receiverPseudo (version : Nat) (packet : List UInt8) : List UInt8 :=
  if version = 4 then
    (packet.drop 12).take 8 ++ [0, packet.getD 9 0] ++ field16 (packet.length - 20)
  else
    (packet.drop 8).take 32 ++ field32 (BitVec.ofNat 32 (packet.length - 40)) ++
      [0, 0, 0, packet.getD 6 0]

/-- Both sums of a receiver are all ones. -/
structure Verifies (version : Nat) (packet : List UInt8) : Prop where
  header : version = 4 → onesSum (packet.take 20) = 0xFFFF
  upper : onesSum (receiverPseudo version packet ++ packet.drop (ipHeaderLength version)) = 0xFFFF

/-! `calc_checksum`. -/

/-- A word, where there is room for the carry. -/
theorem toNat_add_word {sum : U32} {word : Nat} (h : sum.toNat + word < 2 ^ 32) :
    (sum + BitVec.ofNat 32 word).toNat = sum.toNat + word := by
  rw [BitVec.toNat_add, BitVec.toNat_ofNat]
  omega

/-- The half that stays and the carries. -/
theorem toNat_halves (sum : U32) : (sum &&& 0xFFFF#32).toNat = sum.toNat % 2 ^ 16 ∧
    (sum >>> 16).toNat = sum.toNat / 2 ^ 16 := by
  refine ⟨(BitVec.toNat_and ..).trans (Nat.and_two_pow_sub_one_eq_mod sum.toNat 16), ?_⟩
  rw [BitVec.toNat_ushiftRight, Nat.shiftRight_eq_div_pow]

theorem toNat_start (start : U16) : (start.setWidth 32).toNat = start.toNat := by
  have hStart := start.isLt
  rw [BitVec.toNat_setWidth]
  omega

theorem hostSum_singleton (low : UInt8) : hostSum [low] = low.toNat := by
  simp [hostSum, hostWords]

theorem toNat_wordSum {buffer : List UInt8} {sum : U32} (h : sum.toNat + hostSum buffer < 2 ^ 32) :
    (wordSum buffer sum).toNat = sum.toNat + hostSum buffer := by
  induction buffer using words.induct generalizing sum with
  | case1 low high rest ih =>
      rw [hostSum_cons_cons] at h ⊢
      have hAdded : (sum + BitVec.ofNat 32 (low.toNat + 256 * high.toNat)).toNat =
          sum.toNat + (low.toNat + 256 * high.toNat) := toNat_add_word (by omega)
      rw [wordSum, ih (by omega), hAdded, Nat.add_assoc]
  | case2 low =>
      rw [hostSum_singleton] at h ⊢
      rw [wordSum, toNat_add_word h]
  | case3 => rfl

/-- The carries are added until there are none. -/
theorem onesEq_foldCarries (sum : U32) :
    (foldCarries sum).toNat < 2 ^ 16 ∧ OnesEq (foldCarries sum).toNat sum.toNat := by
  induction sum using foldCarries.induct with
  | case1 sum hNone =>
      have hShift := (toNat_halves sum).2
      rw [hNone] at hShift
      rw [foldCarries, if_pos hNone]
      refine ⟨?_, .refl _⟩
      have hZero : sum.toNat / 2 ^ 16 = 0 := hShift.symm
      omega
  | case2 sum hSome ih =>
      obtain ⟨hMask, hShift⟩ := toNat_halves sum
      have hBound := sum.isLt
      have hFolded : ((sum &&& 0xFFFF#32) + (sum >>> 16)).toNat =
          sum.toNat % 2 ^ 16 + sum.toNat / 2 ^ 16 := by
        rw [BitVec.toNat_add, hMask, hShift]
        omega
      rw [foldCarries, if_neg hSome]
      rw [hFolded] at ih
      exact ⟨ih.1, ih.2.trans (.fold _)⟩

/-- One call, where there is room for the carries of all words. -/
theorem onesEq_calcChecksum_of_lt {start : U16} {buffer : List UInt8}
    (hRoom : start.toNat + hostSum buffer < 2 ^ 32) :
    OnesEq (calcChecksum start buffer).toNat (start.toNat + hostSum buffer) := by
  have hWords : (wordSum buffer (start.setWidth 32)).toNat = start.toNat + hostSum buffer := by
    rw [toNat_wordSum (by rwa [toNat_start]), toNat_start]
  obtain ⟨hSmall, hFold⟩ := onesEq_foldCarries (wordSum buffer (start.setWidth 32))
  rw [hWords] at hFold
  rw [calcChecksum, BitVec.toNat_setWidth, Nat.mod_eq_of_lt hSmall]
  exact hFold

/-- One call, on a buffer that a packet can have. -/
theorem onesEq_calcChecksum (start : U16) {buffer : List UInt8} (hLength : buffer.length ≤ 65535) :
    OnesEq (calcChecksum start buffer).toNat (start.toNat + hostSum buffer) := by
  have hSum := hostSum_le buffer
  have hStart := start.isLt
  exact onesEq_calcChecksum_of_lt (by omega)

/-! Where the checksum is stored. -/

theorem hostSum_hostField16 (value : U16) : hostSum (hostField16 value) = value.toNat := by
  have hBound := value.isLt
  rw [hostField16, hostSum_cons_cons, hostSum_nil]
  simp only [Nat.toUInt8_eq, UInt8.toNat_ofNat']
  omega

/-- A field in network order, on a host that loads it the other way round. -/
theorem hostSum_field16 {value : Nat} (hSmall : value ≤ 65535) :
    hostSum (field16 value) = value / 256 + 256 * (value % 256) := by
  simp only [field16, hostSum_cons_cons, hostSum_nil, Nat.toUInt8_eq, UInt8.toNat_ofNat']
  omega

theorem hostSum_field32 {length : Nat} (hShort : length ≤ 65535) :
    hostSum (field32 (BitVec.ofNat 32 length)) = length / 256 + 256 * (length % 256) := by
  have hLong : (BitVec.ofNat 32 length).toNat = length := by
    rw [BitVec.toNat_ofNat]
    omega
  have hHigh : length / 65536 = 0 := by omega
  have hLow : length % 65536 = length := by omega
  rw [field32, hLong, hHigh, hLow, hostSum_append rfl, hostSum_field16 (Nat.zero_le _),
    hostSum_field16 hShort, Nat.zero_div, Nat.zero_mod, Nat.mul_zero, Nat.zero_add]

/-- A pseudo header of version 6. -/
theorem hostSum_pseudo6 {src dst len : List UInt8} (hSrc : src.length = 16) (hDst : dst.length = 16)
    (hLen : len.length = 4) (nxt : UInt8) : hostSum (src ++ dst ++ len ++ [0, 0, 0, nxt]) =
      hostSum src + hostSum dst + hostSum len + 256 * nxt.toNat := by
  rw [hostSum_append (by simp [hSrc, hDst, hLen]), hostSum_append (by simp [hSrc, hDst]),
    hostSum_append (by rw [hSrc])]
  simp

/-- The one that the code puts together, its addresses exchanged and its length
in the upper half of the field, has the words of the one that the receiver takes. -/
theorem hostSum_exchanged {src dst : List UInt8} (hSrc : src.length = 16) (hDst : dst.length = 16)
    {length : Nat} (hShort : length ≤ 65535) (nxt : UInt8) :
    hostSum (dst ++ src ++ (field16 length ++ [0, 0]) ++ [0, 0, 0, nxt]) =
      hostSum (src ++ dst ++ field32 (BitVec.ofNat 32 length) ++ [0, 0, 0, nxt]) := by
  have hZero : hostSum [0, 0] = 0 := rfl
  rw [hostSum_pseudo6 hDst hSrc rfl, hostSum_pseudo6 hSrc hDst rfl, hostSum_append (by simp),
    hostSum_field16 hShort, hostSum_field32 hShort, hZero]
  omega

theorem toNat_not (value : U16) : (~~~ value).toNat = 65535 - value.toNat := by
  rw [BitVec.toNat_not]

/-- With the complement of its sum in the field, a message sums up to all ones. -/
theorem onesSum_complement {front back : List UInt8} {csum : U16} (hFront : front.length % 2 = 0)
    (hSum : OnesEq csum.toNat (hostSum front + hostSum back)) :
    onesSum (front ++ hostField16 (~~~ csum) ++ back) = 65535 := by
  rw [onesSum_eq_iff, hostSum_append (by simp [hFront]), hostSum_append hFront, hostSum_hostField16,
    toNat_not, Nat.add_right_comm]
  exact hSum.complement csum.isLt

section Packet

variable {version length : Nat} {protocol : UInt8} {saddr daddr upper : List UInt8}

/-- What the receiver puts together is what the sender has in the header. -/
theorem receiverPseudo_eq (h : Addressed version saddr daddr) (hLength : upper.length = length) :
    receiverPseudo version (ipHeader version protocol saddr daddr length ++ upper) =
      if version = 4 then ippseudo saddr daddr protocol length
      else saddr ++ daddr ++ field32 (BitVec.ofNat 32 length) ++ [0, 0, 0, protocol] := by
  have hTotal : (ipHeader version protocol saddr daddr length ++ upper).length =
      ipHeaderLength version + length := by
    rw [List.length_append, length_ipHeader h, hLength]
  obtain ⟨hSaddr, hDaddr⟩ := h
  unfold receiverPseudo
  rw [hTotal]
  unfold addressLength at hSaddr hDaddr
  unfold ipHeader ipHeaderLength
  dsimp only
  split_ifs at hSaddr hDaddr ⊢ with hVersion
  · have hTake : (saddr ++ (daddr ++ upper)).take 8 = saddr ++ daddr := by
      rw [← List.append_assoc]
      exact List.take_left' (by simp [hSaddr, hDaddr])
    simp [ip4Header, ippseudo, hostField16, field16, hTake]
  · have hTake : (saddr ++ (daddr ++ upper)).take 32 = saddr ++ daddr := by
      rw [← List.append_assoc]
      exact List.take_left' (by simp [hSaddr, hDaddr])
    simp [ip6Header, field16, hTake]

/-- The sum of the sender over its pseudo header is the one over the receiver's. -/
theorem onesEq_pseudoSum (h : Addressed version saddr daddr) (hLength : upper.length = length)
    (hSmall : length < 2 ^ 16) : OnesEq (pseudoSum version protocol saddr daddr length).toNat
      (hostSum (receiverPseudo version
        (ipHeader version protocol saddr daddr length ++ upper))) := by
  rw [receiverPseudo_eq h hLength]
  obtain ⟨hSaddr, hDaddr⟩ := h
  unfold addressLength at hSaddr hDaddr
  unfold pseudoSum
  split_ifs at hSaddr hDaddr ⊢ with hVersion
  · have hShort : (ippseudo saddr daddr protocol length).length ≤ 65535 := by
      simp [ippseudo, hSaddr, hDaddr]
    simpa using onesEq_calcChecksum 0 hShort
  · have hShort : (daddr ++ saddr ++ (field16 length ++ [0, 0]) ++ [0, 0, 0, protocol]).length ≤
        65535 := by
      simp [hSaddr, hDaddr]
    have hSum := onesEq_calcChecksum 0 hShort
    rw [hostSum_exchanged hSaddr hDaddr (by omega)] at hSum
    simpa [pseudoChecksum] using hSum

/-- The header of version 4 sums up to all ones. -/
theorem onesSum_ipHeader (h : Addressed version saddr daddr) (hVersion : version = 4) :
    onesSum (ipHeader version protocol saddr daddr length) = 65535 := by
  obtain ⟨hSaddr, hDaddr⟩ := h
  unfold addressLength at hSaddr hDaddr
  rw [if_pos hVersion] at hSaddr hDaddr
  set front := [0x45, 0] ++ field16 (20 + length) ++ [0, 0, 0, 0, ipDefTtl, protocol] with hFront
  have hHeader : ∀ check, ip4Header (20 + length) protocol saddr daddr check =
      front ++ hostField16 check ++ (saddr ++ daddr) := fun check => by
    rw [ip4Header, List.append_assoc _ saddr]
  have hEven : front.length % 2 = 0 := by simp [hFront]
  have hZero : hostSum (ip4Header (20 + length) protocol saddr daddr 0) =
      hostSum front + hostSum (saddr ++ daddr) := by
    rw [hHeader, hostSum_append (by simp [hEven]), hostSum_append hEven, hostSum_hostField16]
    rfl
  have hShort : (ip4Header (20 + length) protocol saddr daddr 0).length ≤ 65535 := by
    simp [ip4Header, hSaddr, hDaddr]
  have hSum := onesEq_calcChecksum 0 hShort
  rw [hZero, show BitVec.toNat (0 : U16) = 0 from rfl, Nat.zero_add] at hSum
  unfold ipHeader
  dsimp only
  rw [if_pos hVersion, hHeader]
  exact onesSum_complement hEven hSum

/-- A packet with an upper header that has the complement of the sum verifies. -/
theorem verifies_of_onesEq {front back : List UInt8} {csum : U16}
    (h : Addressed version saddr daddr) (hEven : front.length % 2 = 0)
    (hLength : (front ++ hostField16 (~~~ csum) ++ back).length = length) (hSmall : length < 2 ^ 16)
    (hSum : ∀ start : Nat, OnesEq (pseudoSum version protocol saddr daddr length).toNat start →
      OnesEq csum.toNat (start + hostSum front + hostSum back)) :
    Verifies version (ipHeader version protocol saddr daddr length ++
      (front ++ hostField16 (~~~ csum) ++ back)) := by
  set upper := front ++ hostField16 (~~~ csum) ++ back with hUpper
  have hHeader := length_ipHeader h protocol length
  refine ⟨fun hVersion => ?_, ?_⟩
  · have hTwenty : (ipHeader version protocol saddr daddr length).length = 20 := by
      rw [hHeader, ipHeaderLength, if_pos hVersion]
    rw [List.take_left' hTwenty]
    exact onesSum_ipHeader h hVersion
  · rw [List.drop_left' hHeader]
    have hPseudo := hSum _ (onesEq_pseudoSum h hLength hSmall)
    have hPseudoEven : (receiverPseudo version
        (ipHeader version protocol saddr daddr length ++ upper)).length % 2 = 0 := by
      rw [receiverPseudo_eq h hLength]
      obtain ⟨hSaddr, hDaddr⟩ := h
      unfold addressLength at hSaddr hDaddr
      split_ifs at hSaddr hDaddr ⊢
      · simp [ippseudo, hSaddr, hDaddr]
      · simp [hSaddr, hDaddr]
    rw [hUpper, ← List.append_assoc, ← List.append_assoc]
    apply onesSum_complement
    · rw [List.length_append, Nat.add_mod, hPseudoEven, hEven]
    · rwa [hostSum_append hPseudoEven]

end Packet

/-- A call goes on from the sum so far. -/
theorem onesEq_next {csum : U16} {sum : Nat} (h : OnesEq csum.toNat sum) {buffer : List UInt8}
    (hLength : buffer.length ≤ 65535) :
    OnesEq (calcChecksum csum buffer).toNat (sum + hostSum buffer) :=
  (onesEq_calcChecksum csum hLength).trans (h.add (.refl _))

theorem TcpPacket.verifies {packet : TcpPacket}
    (h : Addressed packet.version packet.saddr packet.daddr) (hEven : packet.options.length % 2 = 0)
    (hLength : packet.bytes.length ≤ 65535) : Verifies packet.version packet.bytes := by
  rw [packet.length_bytes h, TcpPacket.upperLength] at hLength
  set front := field16 packet.source.toNat ++ field16 packet.dest.toNat ++ field32 packet.seq ++
    field32 packet.ackSeq ++ [packet.dataOffset, packet.flags] ++ field16 packet.window.toNat
    with hFront
  set back := [0, 0] ++ (packet.options ++ packet.payload) with hBack
  have hHeader : ∀ check, packet.header check = front ++ hostField16 check ++ [0, 0] := fun _ => rfl
  have hFrontEven : front.length % 2 = 0 := by simp [hFront]
  have hZero : hostSum (packet.header 0) = hostSum front := by
    have hUrgent : hostSum [0, 0] = 0 := rfl
    rw [hHeader, hostSum_append (by simp [hFrontEven]), hostSum_append hFrontEven,
      hostSum_hostField16, hUrgent, Nat.add_zero]
    exact Nat.add_zero _
  have hBackSum : hostSum back = hostSum packet.options + hostSum packet.payload := by
    rw [hBack, hostSum_append rfl, hostSum_append hEven]
    exact Nat.zero_add _
  have hUpper : packet.header (~~~ packet.csum) ++ packet.options ++ packet.payload =
      front ++ hostField16 (~~~ packet.csum) ++ back := by
    rw [hHeader, hBack]
    simp only [List.append_assoc]
  unfold TcpPacket.bytes
  rw [hUpper]
  apply verifies_of_onesEq h hFrontEven
  · rw [← hUpper]
    simp only [List.length_append, TcpPacket.length_header, TcpPacket.upperLength]
  · unfold TcpPacket.upperLength
    omega
  · intro start hStart
    have hHeaderSum := onesEq_next hStart (by rw [TcpPacket.length_header]; decide :
      (packet.header 0).length ≤ 65535)
    have hOptions := onesEq_next hHeaderSum (by omega : packet.options.length ≤ 65535)
    have hAll := onesEq_next hOptions (by omega : packet.payload.length ≤ 65535)
    rwa [hZero, Nat.add_assoc _ (hostSum packet.options), ← hBackSum] at hAll

theorem UdpPacket.verifies {packet : UdpPacket}
    (h : Addressed packet.version packet.saddr packet.daddr)
    (hLength : packet.bytes.length ≤ 65535) : Verifies packet.version packet.bytes := by
  rw [packet.length_bytes h] at hLength
  set front := field16 packet.source.toNat ++ field16 packet.dest.toNat ++
    field16 (8 + packet.data.length) with hFront
  have hHeader : ∀ check, packet.header check = front ++ hostField16 check := fun _ => rfl
  have hFrontEven : front.length % 2 = 0 := by simp [hFront]
  have hZero : hostSum (packet.header 0) = hostSum front := by
    rw [hHeader, hostSum_append hFrontEven, hostSum_hostField16]
    rfl
  unfold UdpPacket.bytes
  rw [hHeader]
  apply verifies_of_onesEq h hFrontEven
  · rw [← hHeader, List.length_append, UdpPacket.length_header]
  · omega
  · intro start hStart
    have hHeaderSum := onesEq_next hStart (by rw [UdpPacket.length_header]; decide :
      (packet.header 0).length ≤ 65535)
    have hAll := onesEq_next hHeaderSum (by omega : packet.data.length ≤ 65535)
    rwa [hZero] at hAll

/-- Every TCP segment and every datagram that is built for the tun verifies. -/
theorem packets_verify :
    (∀ (cur : TcpSession) (payload : List UInt8) (syn ack fin rst : Bool),
      addressLength cur.version ≤ cur.saddr.length → addressLength cur.version ≤ cur.daddr.length →
      (buildTcp cur payload syn ack fin rst).bytes.length ≤ 65535 →
        Verifies cur.version (buildTcp cur payload syn ack fin rst).bytes) ∧
    ∀ (cur : UdpSession) (data : List UInt8),
      addressLength cur.version ≤ cur.saddr.length → addressLength cur.version ≤ cur.daddr.length →
      (buildUdp cur data).bytes.length ≤ 65535 → Verifies cur.version (buildUdp cur data).bytes := by
  constructor
  · intro cur payload syn ack fin rst hSaddr hDaddr hLength
    have hEven : (buildTcp cur payload syn ack fin rst).options.length % 2 = 0 := by
      cases syn <;> simp [buildTcp, synOptions]
    exact TcpPacket.verifies (addressed_addressOf hSaddr hDaddr) hEven hLength
  · intro cur data hSaddr hDaddr hLength
    exact UdpPacket.verifies (addressed_addressOf hSaddr hDaddr) hLength

/-- A name server's session on IPv6. -/
def nameSession : UdpSession where
  time := 0
  uid := 10001
  version := 6
  mss := udpMaxmsg 6
  sent := 0
  received := 0
  saddr := [0xfd, 0, 0, 1, 0, 1, 0, 1, 0, 0, 0, 0, 0, 0, 0, 1]
  source := 40000
  daddr := [0x20, 0x01, 0x0d, 0xb8, 0, 0, 0, 0, 0, 0, 0, 0, 0, 0, 0, 0x35]
  dest := 53
  state := .active

/-- A web session on IPv4. -/
def webSession : TcpSession := synSession .willing clientInfo (clientSyn 80) .empty

/-- Three bytes on IPv4, and three on IPv6. -/
theorem packets_verify_odd :
    Verifies 4 (buildTcp webSession [104, 105, 33] false true false false).bytes ∧
      Verifies 6 (buildUdp nameSession [104, 105, 33]).bytes :=
  ⟨packets_verify.1 webSession [104, 105, 33] false true false false (by decide) (by decide)
    (by decide), packets_verify.2 nameSession [104, 105, 33] (by decide) (by decide) (by decide)⟩

end Tun2Http
