import Tun2Http.Packet.Checksum
import Tun2Http.Session.Echo

/-! Checksums of echo messages. Both ways the checksum is computed anew behind
the exchange of the identifier. In version 6 it covers a pseudo header: the one of
a request has the fields of the packet, and the one of a reply a wrong length. -/
namespace Tun2Http

open Machine

/-- The pseudo header of version 6 that a receiver puts in front of `length` bytes. -/
def icmp6Pseudo (saddr daddr : List UInt8) (length : Nat) : List UInt8 :=
  saddr ++ daddr ++ field32 (BitVec.ofNat 32 length) ++ [0, 0, 0, ipprotoIcmpv6]

/-- The sum of a receiver is all ones. -/
def IcmpVerifies (version : Nat) (saddr daddr message : List UInt8) : Prop :=
  if version = 4 then onesSum message = 0xFFFF
  else onesSum (icmp6Pseudo saddr daddr message.length ++ message) = 0xFFFF

/-- The message that a session has sent last. -/
def sentMessage (c : IcmpCell) : Option (List UInt8) :=
  match c.log.head? with
  | some (.send message _) => some message
  | _ => none

/-! A checksum over another pseudo header than the receiver's. -/

/-- Both pseudo headers leave the same rest where the sum is all ones. -/
theorem onesSum_behind_iff {pseudo front back : List UInt8} {csum : U16} {start : Nat}
    (hPseudo : pseudo.length % 2 = 0) (hFront : front.length % 2 = 0) (hSome : 0 < hostSum pseudo)
    (hSum : OnesEq csum.toNat (start + hostSum front + hostSum back)) :
    onesSum (pseudo ++ (front ++ hostField16 (~~~ csum) ++ back)) = 65535 ↔
      hostSum pseudo % 65535 = start % 65535 := by
  have hRest : csum.toNat % 65535 = (start + hostSum front + hostSum back) % 65535 := hSum.modEq
  have hSmall := csum.isLt
  rw [onesSum_eq_iff, hostSum_append hPseudo, hostSum_append (by simp [hFront]),
    hostSum_append hFront, hostSum_hostField16, toNat_not]
  constructor
  · intro hOnes
    have hAll : (hostSum pseudo + (hostSum front + (65535 - csum.toNat) + hostSum back)) % 65535 =
        65535 % 65535 := hOnes.modEq
    omega
  · intro hSame
    refine ⟨?_, by omega⟩
    show (hostSum pseudo + (hostSum front + (65535 - csum.toNat) + hostSum back)) % 65535 =
      65535 % 65535
    omega

/-- The checksum stands behind the first two bytes. -/
theorem storeChecksum_eq {message : List UInt8} (hLong : 4 ≤ message.length) (csum : U16) :
    ∃ front back, front.length = 2 ∧ message.length = 4 + back.length ∧ storeChecksum csum message =
      front ++ hostField16 (~~~ calcChecksum csum (front ++ hostField16 0 ++ back)) ++ back := by
  match message, hLong with
  | a :: b :: _ :: _ :: rest, _ =>
      exact ⟨[a, b], rest, rfl, by simp only [List.length_cons]; omega, rfl⟩

@[simp] theorem length_storeChecksum (csum : U16) (message : List UInt8) :
    (storeChecksum csum message).length = message.length := by
  rw [storeChecksum, length_storeLe16]

theorem onesEq_stored {front back : List UInt8} (csum : U16) (hFront : front.length = 2)
    (hShort : back.length ≤ 65531) : OnesEq (calcChecksum csum (front ++ hostField16 0 ++ back)).toNat
      (csum.toNat + hostSum front + hostSum back) := by
  have hEven : front.length % 2 = 0 := by rw [hFront]
  have hLength : (front ++ hostField16 0 ++ back).length ≤ 65535 := by
    simp only [List.length_append, hFront, hostField16, List.length_cons, List.length_nil]
    omega
  have hSum := onesEq_calcChecksum csum hLength
  rw [hostSum_append (by simp [hFront, hostField16]), hostSum_append hEven, hostSum_hostField16,
    show (0 : U16).toNat = 0 from rfl, Nat.add_zero, ← Nat.add_assoc] at hSum
  exact hSum

/-- In version 4 the message is all ones by itself. -/
theorem onesSum_storeChecksum {message : List UInt8} (hLong : 4 ≤ message.length)
    (hShort : message.length ≤ 65535) : onesSum (storeChecksum 0 message) = 65535 := by
  obtain ⟨front, back, hFront, hLength, hStored⟩ := storeChecksum_eq hLong 0
  have hSum := onesEq_stored 0 hFront (by omega : back.length ≤ 65531)
  rw [show (0 : U16).toNat = 0 from rfl, Nat.zero_add] at hSum
  rw [hStored]
  exact onesSum_complement (by rw [hFront]) hSum

/-- The sum over a pseudo header of version 6. -/
theorem onesEq_pseudoChecksum {src dst len : List UInt8} (nxt : UInt8) (h : Addressed 6 src dst)
    (hLen : len.length = 4) : OnesEq (pseudoChecksum src dst len nxt).toNat
      (hostSum src + hostSum dst + hostSum len + 256 * nxt.toNat) := by
  have hSrc : src.length = 16 := h.saddr
  have hDst : dst.length = 16 := h.daddr
  have hShort : (src ++ dst ++ len ++ [0, 0, 0, nxt]).length ≤ 65535 := by
    simp [hSrc, hDst, hLen]
  have hSum := onesEq_calcChecksum 0 hShort
  rw [hostSum_pseudo6 hSrc hDst hLen, show (0 : U16).toNat = 0 from rfl, Nat.zero_add] at hSum
  exact hSum

theorem hostSum_icmp6Pseudo {saddr daddr : List UInt8} (h : Addressed 6 saddr daddr) (length : Nat) :
    hostSum (icmp6Pseudo saddr daddr length) = hostSum saddr + hostSum daddr +
      hostSum (field32 (BitVec.ofNat 32 length)) + 256 * ipprotoIcmpv6.toNat :=
  hostSum_pseudo6 h.saddr h.daddr rfl _

/-- In version 6 it is where the pseudo header of the sender, with `len` and
`nxt`, has the rest of the receiver's. -/
theorem onesSum_storeChecksum6_iff {saddr daddr src dst len message : List UInt8} {nxt : UInt8}
    (hReceiver : Addressed 6 saddr daddr) (hSender : Addressed 6 src dst)
    (hEnds : hostSum src + hostSum dst = hostSum saddr + hostSum daddr) (hLen : len.length = 4)
    (hLong : 4 ≤ message.length) (hShort : message.length ≤ 65535) :
    onesSum (icmp6Pseudo saddr daddr message.length ++
        storeChecksum (pseudoChecksum src dst len nxt) message) = 65535 ↔
      (hostSum (field32 (BitVec.ofNat 32 message.length)) + 256 * ipprotoIcmpv6.toNat) % 65535 =
        (hostSum len + 256 * nxt.toNat) % 65535 := by
  obtain ⟨front, back, hFront, hLength, hStored⟩ :=
    storeChecksum_eq hLong (pseudoChecksum src dst len nxt)
  have hSum := (onesEq_stored (pseudoChecksum src dst len nxt) hFront (by omega : back.length ≤ 65531)).trans
    (((onesEq_pseudoChecksum nxt hSender hLen).add (.refl _)).add (.refl _))
  have hEven : (icmp6Pseudo saddr daddr message.length).length % 2 = 0 := by
    simp [icmp6Pseudo, hReceiver.saddr, hReceiver.daddr, addressLength]
  have hSome : 0 < hostSum (icmp6Pseudo saddr daddr message.length) := by
    have hProtocol : 0 < ipprotoIcmpv6.toNat := by decide
    rw [hostSum_icmp6Pseudo hReceiver]
    omega
  rw [hStored, onesSum_behind_iff hEven (by rw [hFront]) hSome hSum, hostSum_icmp6Pseudo hReceiver, hEnds]
  omega

/-! The lengths in the two pseudo headers. -/

theorem hostSum_le32Bytes (value : U32) :
    hostSum (le32Bytes value) = value.toNat % 65536 + value.toNat / 65536 := by
  have hSmall := value.isLt
  simp only [le32Bytes, hostSum_cons_cons, hostSum_nil, Nat.toUInt8_eq, UInt8.toNat_ofNat']
  omega

/-- The length of a reply less 40, in host order, never has the rest of the length:
they differ by a multiple of 255 and 40, or 39 where the subtraction wraps. -/
theorem replyLength_wrong {length : Nat} (hShort : length ≤ 65535) (other : Nat) :
    (hostSum (field32 (BitVec.ofNat 32 length)) + other) % 65535 ≠
      (hostSum (le32Bytes (BitVec.ofNat 32 length - 40)) + other) % 65535 := by
  have hWrapped : (BitVec.ofNat 32 length - 40).toNat = (length + 2 ^ 32 - 40) % 2 ^ 32 := by
    rw [BitVec.toNat_sub, BitVec.toNat_ofNat, show (40 : U32).toNat = 40 from rfl]
    omega
  rw [hostSum_field32 hShort, hostSum_le32Bytes, hWrapped]
  omega

/-! Requests. -/

/-- `ip6_plen` and `ip6_nxt` add up to what they are in front of the message alone. -/
def HeaderFits (mem : Memory) (length : Nat) : Prop :=
  ((be16 4).value mem + (mem 6).toNat) % 65535 = (length + ipprotoIcmpv6.toNat) % 65535

theorem sentMessage_forwardIcmp (K : Kernel) (message : List UInt8) (c : IcmpCell) :
    sentMessage (forwardIcmp K message c) = some message := by
  unfold forwardIcmp
  dsimp only
  split
  · split_ifs <;> rfl
  · rfl

/-- The message of a packet that the handler takes. -/
theorem verifies_icmpRequest_iff (mem : Memory) {version : Nat} {saddr daddr : List UInt8} (id : U16)
    (message : List UInt8) (hVersion : version = 4 ∨ version = 6) (hAddressed : Addressed version saddr daddr)
    (hLong : 4 ≤ message.length) (hShort : message.length ≤ 65535) :
    IcmpVerifies version saddr daddr (icmpRequest version (saddr, daddr) ((readBytes 4 2).value mem)
      (mem 6) id message) ↔ version = 4 ∨ HeaderFits mem message.length := by
  have hLength := length_storeLe16 message 4 (~~~ id)
  unfold IcmpVerifies icmpRequest
  rcases hVersion with rfl | rfl
  · simp only [if_true, if_neg (show ¬ (4 : Nat) = 6 by decide), true_or, iff_true]
    exact onesSum_storeChecksum (by omega) (by omega)
  · simp only [if_true, show ¬ (6 : Nat) = 4 by decide, if_false, false_or]
    have hPlen : (readBytes 4 2).value mem = [mem 4, mem 5] := rfl
    have hField : (be16 4).value mem = 256 * (mem 4).toNat + (mem 5).toNat := rfl
    have hHigh := (mem 4).toNat_lt
    have hLow := (mem 5).toNat_lt
    rw [length_storeChecksum, onesSum_storeChecksum6_iff hAddressed ⟨hAddressed.daddr, hAddressed.saddr⟩
      (Nat.add_comm _ _) (by rw [hPlen]; rfl) (by omega) (by omega), hLength, hostSum_field32 hShort,
      HeaderFits, hField, hPlen]
    simp only [List.cons_append, List.nil_append, hostSum_cons_cons, hostSum_nil]
    -- The words of the host have the bytes exchanged.
    have hZero : (0 : UInt8).toNat = 0 := rfl
    rw [hZero]
    constructor
    · intro hSame
      omega
    · intro hSame
      omega

/-- What a session has to pass on is an echo request with a whole header. -/
theorem length_of_hands {L : EventLoop} {pkt : Packet} {version payload : Nat} {protocol : UInt8}
    {span : Span} (hHands : L.Hands pkt version protocol payload)
    (hIcmp : protocol = ipprotoIcmp ∨ protocol = ipprotoIcmpv6)
    (hTaken : (Tun2Http.handleIcmp pkt.length version payload).value pkt.mem = some span) :
    28 ≤ span.datalen := by
  have hAdmitted := (EventLoop.handleIp_handler_iff L.context hHands).mp hHands
  rw [Admitted, if_pos hIcmp] at hAdmitted
  unfold Tun2Http.handleIcmp at hTaken
  rw [Reader.value_bind, Reader.value_ite] at hTaken
  split_ifs at hTaken
  · cases hTaken
  · simp only [Reader.value_bind, Reader.value_pure, Option.some.injEq] at hTaken
    rw [← hTaken]
    exact hAdmitted.1

/-! Replies. -/

/-- A reply verifies in version 4 only. -/
theorem verifies_replyPacket_iff {cur : IcmpSession} {arrived : List UInt8}
    (hVersion : cur.version = 4 ∨ cur.version = 6) (h : Addressed cur.version cur.saddr cur.daddr)
    (hLong : 8 ≤ (replyPacket cur arrived).data.length) :
    IcmpVerifies (replyPacket cur arrived).version (replyPacket cur arrived).saddr
      (replyPacket cur arrived).daddr (replyPacket cur arrived).data ↔ cur.version = 4 := by
  have hTake : (arrived.take (icmpMaxmsg cur.version)).length ≤ 65535 := by
    have hMax : icmpMaxmsg cur.version ≤ 65535 := by
      unfold icmpMaxmsg
      split_ifs <;> omega
    exact (List.length_take_le _ _).trans hMax
  unfold replyPacket icmpReply at hLong ⊢
  dsimp only at hLong ⊢
  generalize arrived.take (icmpMaxmsg cur.version) = bytes at hTake hLong ⊢
  have hLength := length_storeLe16 bytes 4 cur.id
  rw [length_storeChecksum] at hLong
  unfold IcmpVerifies
  rw [length_storeChecksum]
  rcases hVersion with hFour | hSix
  · rw [if_pos hFour, if_neg (by omega)]
    exact iff_of_true (onesSum_storeChecksum (by omega) (by omega)) hFour
  · have hSaddr := addressOf_of_length h.saddr
    have hDaddr := addressOf_of_length h.daddr
    rw [hSix] at h
    have hBack : Addressed 6 cur.daddr cur.saddr := ⟨h.daddr, h.saddr⟩
    rw [if_neg (by omega), if_pos hSix, hSaddr, hDaddr, onesSum_storeChecksum6_iff hBack hBack rfl rfl
      (by omega) (by omega)]
    refine iff_of_false ?_ (by omega)
    rw [hLength]
    exact replyLength_wrong hTake _

/-- A request verifies in version 4, and in version 6 where the fixed header has
the length and the protocol of the message itself. A reply verifies in version 4,
and never in version 6. -/
theorem icmp_checksums_iff (K : Kernel) (c : IcmpCell) :
    (∀ (L : EventLoop) (pkt : Packet) (version payload : Nat) (protocol : UInt8) (span : Span),
      L.Hands pkt version protocol payload → protocol = ipprotoIcmp ∨ protocol = ipprotoIcmpv6 →
      (Tun2Http.handleIcmp pkt.length version payload).value pkt.mem = some span →
      span.datalen ≤ 65535 →
        ∀ message ∈ sentMessage (forwardIcmp K (pkt.echo version payload span) c),
          (IcmpVerifies version ((readAddresses version).value pkt.mem).1
            ((readAddresses version).value pkt.mem).2 message ↔
              version = 4 ∨ HeaderFits pkt.mem span.datalen)) ∧
    ∀ ev : EpollEvents, c.icmp.version = 4 ∨ c.icmp.version = 6 →
      Addressed c.icmp.version c.icmp.saddr c.icmp.daddr → ∀ packet ∈ replies K ev c,
        8 ≤ packet.data.length → (IcmpVerifies packet.version packet.saddr packet.daddr packet.data ↔
          packet.version = 4) := by
  constructor
  · intro L pkt version payload protocol span hHands hIcmp hTaken hShort message hSent
    rw [sentMessage_forwardIcmp] at hSent
    obtain rfl := Option.some.inj hSent
    have hLong := length_of_hands hHands hIcmp hTaken
    have hLength := length_readBytes span.data span.datalen pkt.mem
    have hIff := verifies_icmpRequest_iff pkt.mem ((le16 (payload + 4)).value pkt.mem)
      ((readBytes span.data span.datalen).value pkt.mem) (EventLoop.handleIp_version hHands)
      (addressed_readAddresses version pkt.mem) (by omega) (by omega)
    rw [hLength] at hIff
    exact hIff
  · intro ev hVersion hAddressed packet hPacket hLong
    obtain ⟨arrived, rfl⟩ := mem_replies hPacket
    exact verifies_replyPacket_iff hVersion hAddressed hLong

/-- A session between two addresses of version 4, and the kernel that has a reply for it. -/
def echoCell (version : Nat) (saddr daddr : List UInt8) : IcmpCell where
  icmp :=
    { time := 0
      uid := 10001
      version := version
      saddr := saddr
      daddr := daddr
      id := 7
      stop := false }
  socket := 3
  log := []

def replyKernel : Kernel := { Kernel.willing with recv := fun _ => .data (echoMessage 0 9 1) }

/-- A session on IPv4. -/
def echoCell4 : IcmpCell := echoCell 4 [10, 1, 10, 1] [93, 184, 216, 34]

/-- It passes an echo request on, and the reply to it. -/
theorem icmp_checksums_ping :
    (∀ message ∈ sentMessage (forwardIcmp .willing ((ping 7 1).echo 4 20 ⟨20, 28⟩) echoCell4),
      IcmpVerifies 4 [10, 1, 10, 1] [93, 184, 216, 34] message) ∧
    ∀ packet ∈ replies replyKernel { epollin := true } echoCell4,
      IcmpVerifies packet.version packet.saddr packet.daddr packet.data := by
  constructor
  · intro message hSent
    have hHands : (stepLoop .init (.start (fun _ => .willing) false 10)).Hands (ping 7 1) 4
        ipprotoIcmp 20 := by
      unfold EventLoop.Hands
      decide
    have hTaken : (Tun2Http.handleIcmp (ping 7 1).length 4 20).value (ping 7 1).mem =
        some ⟨20, 28⟩ := by
      decide
    exact ((icmp_checksums_iff _ _).1 _ _ 4 20 _ _ hHands (Or.inl rfl) hTaken (by decide) message
      hSent).mpr (Or.inl rfl)
  · intro packet hPacket
    have hReplies : replies replyKernel { epollin := true } echoCell4 =
        [replyPacket echoCell4.icmp (echoMessage 0 9 1)] := rfl
    have hIff := (icmp_checksums_iff _ _).2 _ (Or.inl rfl) ⟨rfl, rfl⟩ packet hPacket
    rw [hReplies] at hPacket
    obtain rfl := List.mem_singleton.mp hPacket
    exact (hIff (by decide)).mpr rfl

/-- A session on IPv6. -/
def echoCell6 : IcmpCell :=
  echoCell 6 [0xfd, 0, 0, 1, 0, 1, 0, 1, 0, 0, 0, 0, 0, 0, 0, 1]
    [0x20, 0x01, 0x0d, 0xb8, 0, 0, 0, 0, 0, 0, 0, 0, 0, 0, 0, 0x35]

/-- Its replies do not verify. -/
theorem echoCell6_reply_wrong : ∃ packet ∈ replies replyKernel { epollin := true } echoCell6,
    8 ≤ packet.data.length ∧ ¬ IcmpVerifies packet.version packet.saddr packet.daddr packet.data := by
  have hReplies : replies replyKernel { epollin := true } echoCell6 =
      [replyPacket echoCell6.icmp (echoMessage 0 9 1)] := rfl
  have hLong : 8 ≤ (replyPacket echoCell6.icmp (echoMessage 0 9 1)).data.length := by decide
  rw [hReplies]
  refine ⟨_, List.mem_singleton_self _, hLong, ?_⟩
  rw [verifies_replyPacket_iff (Or.inr rfl) ⟨rfl, rfl⟩ hLong]
  decide

end Tun2Http
