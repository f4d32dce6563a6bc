import Tun2Http.Machine.Buffer
import Tun2Http.Native.TcpRun
import Tun2Http.Native.Udp

/-! The reply of `check_dhcp`, store by store. The options are meant to follow
the magic cookie, and are stored where the buffer has long ended. -/
namespace Tun2Http

open Machine

/-- `request->siaddr == 0`. -/
def siaddrZero (request : List UInt8) : Bool := (request.drop 20).take 4 = [0, 0, 0, 0]

/-- The bytes stored at `options`. The lease time is as the host has it. -/
def dhcpOptionBytes (request : List UInt8) : List UInt8 :=
  [53, 1, if siaddrZero request then 2 else 5] ++ [1, 4, 255, 255, 255, 0] ++
    ([3, 4] ++ dhcpServer) ++ ([51, 4] ++ le32Bytes 3600) ++ ([54, 4] ++ dhcpServer) ++
    [6, 4, 8, 8, 8, 8] ++ [255]

/-- `(uint8_t *) (response + sizeof(struct dhcp_packet))`: as many packets
behind the buffer's start as a packet has bytes. -/
def dhcpOptionsOffset : Nat := 240 * 240

/-- The stores into `response`, in order: the request, then `opcode`, `secs`,
`flags`, `ciaddr`, `yiaddr`, `siaddr`, `giaddr` and the options. -/
def dhcpStores (request : List UInt8) : List (Nat × List UInt8) :=
  [(0, request), (0, [if siaddrZero request then 2 else 4]), (8, [0, 0]), (10, [0, 0]),
    (12, [0, 0, 0, 0]), (16, [10, 1, 10, 2]), (20, dhcpServer), (24, [0, 0, 0, 0]),
    (dhcpOptionsOffset, dhcpOptionBytes request)]

/-- The 500 bytes from `calloc`, with what is stored around them. -/
def dhcpBuffer (request : List UInt8) : Buffer := (Buffer.fresh fun _ => 0).stores (dhcpStores request)

/-- A block of the reply is there in the end, if no later one meets it. -/
theorem holds_dhcpBuffer_block {request values : List UInt8} {offset : Nat}
    (before : List (Nat × List UInt8)) {after : List (Nat × List UInt8)}
    (hBlocks : dhcpStores request = before ++ (offset, values) :: after)
    (hApart : ∀ block ∈ after,
      offset + values.length ≤ block.1 ∨ block.1 + block.2.length ≤ offset) :
    Holds (dhcpBuffer request).bytes offset values := by
  rw [dhcpBuffer, hBlocks]
  exact Buffer.holds_stores hApart

/-- The bytes that only `memcpy` stores, and those that nothing stores. -/
theorem holds_dhcpBuffer_rest {request values : List UInt8} {offset : Nat}
    (hCopied : Holds ((Buffer.fresh fun _ => 0).copy 0 request).bytes offset values)
    (hApart : offset + values.length ≤ dhcpOptionsOffset ∧
      (1 ≤ offset ∧ offset + values.length ≤ 8 ∨ 28 ≤ offset)) :
    Holds (dhcpBuffer request).bytes offset values := by
  have hStart : dhcpBuffer request =
      ((Buffer.fresh fun _ => 0).copy 0 request).stores (dhcpStores request).tail := rfl
  rw [hStart]
  refine Buffer.holds_stores_of_apart hCopied fun block hBlock => ?_
  simp only [dhcpStores, List.tail_cons, List.mem_cons, List.not_mem_nil, or_false] at hBlock
  rcases hBlock with rfl | rfl | rfl | rfl | rfl | rfl | rfl | rfl <;>
    simp only [List.length_cons, List.length_nil, dhcpServer] <;> omega

theorem holds_replicate {mem : Memory} {offset count : Nat}
    (h : ∀ i, offset ≤ i → mem i = 0) : Holds mem offset (List.replicate count 0) := by
  rw [holds_iff_get]
  intro i hi
  rw [h _ (Nat.le_add_right ..), List.getElem_replicate]

/-- The buffer holds what is written to the tun. -/
theorem holds_dhcpBuffer {request : List UInt8} (hLength : request.length = 240) :
    Holds (dhcpBuffer request).bytes 0 (dhcpResponse request) := by
  have hCopied : Holds ((Buffer.fresh fun _ => 0).copy 0 request).bytes 0 request :=
    Buffer.holds_copy
  have hHeadCopied := (hCopied.drop (show 1 ≤ request.length by omega)).take 7
  have hTailCopied := (hCopied.drop (show 28 ≤ request.length by omega)).take 212
  rw [Nat.zero_add] at hHeadCopied hTailCopied
  have hOpcode : Holds (dhcpBuffer request).bytes 0 [if siaddrZero request then 2 else 4] :=
    holds_dhcpBuffer_block [_] rfl (by simp [dhcpServer, dhcpOptionsOffset])
  have hHead : Holds (dhcpBuffer request).bytes 1 ((request.drop 1).take 7) :=
    holds_dhcpBuffer_rest hHeadCopied (by simp [hLength, dhcpOptionsOffset])
  have hSecs : Holds (dhcpBuffer request).bytes 8 [0, 0] :=
    holds_dhcpBuffer_block [_, _] rfl (by simp [dhcpServer, dhcpOptionsOffset])
  have hFlags : Holds (dhcpBuffer request).bytes 10 [0, 0] :=
    holds_dhcpBuffer_block [_, _, _] rfl (by simp [dhcpServer, dhcpOptionsOffset])
  have hCiaddr : Holds (dhcpBuffer request).bytes 12 [0, 0, 0, 0] :=
    holds_dhcpBuffer_block [_, _, _, _] rfl (by simp [dhcpServer, dhcpOptionsOffset])
  have hYiaddr : Holds (dhcpBuffer request).bytes 16 [10, 1, 10, 2] :=
    holds_dhcpBuffer_block [_, _, _, _, _] rfl (by simp [dhcpServer, dhcpOptionsOffset])
  have hSiaddr : Holds (dhcpBuffer request).bytes 20 dhcpServer :=
    holds_dhcpBuffer_block [_, _, _, _, _, _] rfl (by simp [dhcpServer, dhcpOptionsOffset])
  have hGiaddr : Holds (dhcpBuffer request).bytes 24 [0, 0, 0, 0] :=
    holds_dhcpBuffer_block [_, _, _, _, _, _, _] rfl (by simp [dhcpOptionsOffset])
  have hTail : Holds (dhcpBuffer request).bytes 28 ((request.drop 28).take 212) :=
    holds_dhcpBuffer_rest hTailCopied (by simp [hLength, dhcpOptionsOffset])
  have hZeros : Holds (dhcpBuffer request).bytes 240 (List.replicate 260 0) :=
    holds_dhcpBuffer_rest
      (holds_replicate fun i hi => Buffer.bytes_copy_of_le (by rw [hLength]; omega))
      ⟨by rw [List.length_replicate]; decide, Or.inr (by decide)⟩
  have hFields : dhcpResponse request = [if siaddrZero request then 2 else 4] ++
      (request.drop 1).take 7 ++ [0, 0] ++ [0, 0] ++ [0, 0, 0, 0] ++ [10, 1, 10, 2] ++ dhcpServer ++
      [0, 0, 0, 0] ++ (request.drop 28).take 212 ++ List.replicate 260 0 := by
    simp only [dhcpResponse, siaddrZero, decide_eq_true_eq, List.append_assoc, List.cons_append,
      List.nil_append]
  rw [hFields]
  simp only [holds_append, List.length_append, List.length_take, List.length_drop, List.length_cons,
    List.length_nil, hLength, dhcpServer]
  exact ⟨⟨⟨⟨⟨⟨⟨⟨⟨hOpcode, hHead⟩, hSecs⟩, hFlags⟩, hCiaddr⟩, hYiaddr⟩, hSiaddr⟩, hGiaddr⟩, hTail⟩, hZeros⟩

/-! What a client finds in the reply. -/

/-- An option area: padding, options with their lengths, and the end. -/
inductive DhcpOptions : List UInt8 → List (UInt8 × List UInt8) → Prop where
  | ends (rest : List UInt8) : DhcpOptions (255 :: rest) []
  | pad {rest : List UInt8} {options : List (UInt8 × List UInt8)} (hRest : DhcpOptions rest options) :
      DhcpOptions (0 :: rest) options
  | option (code length : UInt8) (value : List UInt8) {rest : List UInt8}
      {options : List (UInt8 × List UInt8)} (hPad : code ≠ 0) (hEnd : code ≠ 255)
      (hLength : length.toNat = value.length) (hRest : DhcpOptions rest options) :
      DhcpOptions (code :: length :: (value ++ rest)) ((code, value) :: options)

/-- An area of zeros has no end. -/
theorem exists_ne_zero_of_dhcpOptions {area : List UInt8} {options : List (UInt8 × List UInt8)}
    (h : DhcpOptions area options) : ∃ b ∈ area, b ≠ 0 := by
  induction h with
  | ends rest => exact ⟨255, List.mem_cons_self .., by decide⟩
  | pad _ ih =>
      obtain ⟨b, hMember, hSome⟩ := ih
      exact ⟨b, List.mem_cons_of_mem _ hMember, hSome⟩
  | option code _ _ hPad => exact ⟨code, List.mem_cons_self .., hPad⟩

/-- The options that the reply is meant to carry. -/
def dhcpOptionsMeant (request : List UInt8) : List (UInt8 × List UInt8) :=
  [(53, [if siaddrZero request then 2 else 5]), (1, [255, 255, 255, 0]), (3, dhcpServer),
    (51, [0, 0, 14, 16]), (54, dhcpServer), (6, [8, 8, 8, 8])]

/-- What is stored as options is an option area; its lease time is reversed. -/
theorem dhcpOptions_dhcpOptionBytes (request : List UInt8) :
    DhcpOptions (dhcpOptionBytes request)
      [(53, [if siaddrZero request then 2 else 5]), (1, [255, 255, 255, 0]), (3, dhcpServer),
        (51, [16, 14, 0, 0]), (54, dhcpServer), (6, [8, 8, 8, 8])] := by
  have hDns : DhcpOptions ([6, 4, 8, 8, 8, 8] ++ [255]) [(6, [8, 8, 8, 8])] :=
    .option 6 4 [8, 8, 8, 8] (by decide) (by decide) rfl (.ends [])
  have hLease : DhcpOptions _ [(51, [16, 14, 0, 0]), (54, dhcpServer), (6, [8, 8, 8, 8])] :=
    .option 51 4 [16, 14, 0, 0] (by decide) (by decide) rfl
      (.option 54 4 dhcpServer (by decide) (by decide) rfl hDns)
  exact .option 53 1 [_] (by decide) (by decide) rfl
    (.option 1 4 [255, 255, 255, 0] (by decide) (by decide) rfl
      (.option 3 4 dhcpServer (by decide) (by decide) rfl hLease))

/-- The reply to the request at `data` is as a client expects it: built in the
500 bytes of the buffer, a BOOTREPLY for this client with all options behind
the magic cookie, from a session that stays as it is. -/
structure DhcpReplyRight (K : Kernel) (mem : Memory) (data datalen : Nat) (c : UdpCell) : Prop where
  inside : (dhcpBuffer ((readBytes data 240).value mem)).Within 500
  reply : ∃ packet whole, (checkDhcp K mem data datalen c).1.log = .tun packet whole :: c.log ∧
    packet.data.take 1 = [2] ∧
    (packet.data.drop 4).take 4 = (readBytes (data + 4) 4).value mem ∧
    (packet.data.drop 28).take 16 = (readBytes (data + 28) 16).value mem ∧
    ∃ options, DhcpOptions (packet.data.drop 240) options ∧
      ∀ option ∈ dhcpOptionsMeant ((readBytes data 240).value mem), option ∈ options
  session : (checkDhcp K mem data datalen c).1.udp = c.udp

/-- The options of every request are stored outside. -/
theorem not_within_dhcpBuffer (request : List UInt8) : ¬ (dhcpBuffer request).Within 500 := by
  rw [dhcpBuffer, Buffer.within_stores_iff]
  rintro ⟨-, hAll⟩
  have hOptions : (dhcpOptionsOffset, dhcpOptionBytes request) ∈ dhcpStores request := by
    simp [dhcpStores]
  rcases hAll _ hOptions with hNone | hFits
  · simp [dhcpOptionBytes] at hNone
  · have hStart : dhcpOptionsOffset ≤ 500 := Nat.le_trans (Nat.le_add_right ..) hFits
    exact absurd hStart (by decide)

/-- The option area that is written to the tun is as `calloc` left it. -/
theorem drop_dhcpResponse {request : List UInt8} (hLength : request.length = 240) :
    (dhcpResponse request).drop 240 = List.replicate 260 0 := by
  unfold dhcpResponse
  refine List.drop_left' ?_
  simp only [List.length_append, List.length_take, List.length_drop, List.length_cons,
    List.length_nil, hLength, dhcpServer]
  rfl

/-- What the session writes to the tun, and what becomes of its source address. -/
theorem checkDhcp_request (K : Kernel) {mem : Memory} {data datalen : Nat} (c : UdpCell)
    (hAccepted : (dhcpPacket data datalen).value mem = true) (hRequest : mem data = 1) :
    checkDhcp K mem data datalen c = (answerDhcp K ((readBytes data 240).value mem) c, true) := by
  rw [checkDhcp, if_pos hAccepted, if_pos hRequest]

/-- No request gets a right reply: the options are stored behind the buffer,
and none of them is written to the tun. -/
theorem checkDhcp_reply_wrong (K : Kernel) (mem : Memory) (data datalen : Nat) (c : UdpCell)
    (hAccepted : (dhcpPacket data datalen).value mem = true) (hRequest : mem data = 1) :
    ¬ DhcpReplyRight K mem data datalen c ∧
      ¬ (dhcpBuffer ((readBytes data 240).value mem)).Within 500 ∧
      (∀ packet whole, (checkDhcp K mem data datalen c).1.log = .tun packet whole :: c.log →
        ∀ options, ¬ DhcpOptions (packet.data.drop 240) options) := by
  refine ⟨fun h => not_within_dhcpBuffer _ h.inside, not_within_dhcpBuffer _, ?_⟩
  intro packet whole hLog options hOptions
  rw [checkDhcp_request K c hAccepted hRequest] at hLog
  obtain ⟨hEntry, -⟩ := List.cons.inj hLog
  cases hEntry
  obtain ⟨b, hMember, hSome⟩ := exists_ne_zero_of_dhcpOptions hOptions
  rw [drop_dhcpResponse (length_readBytes ..)] at hMember
  exact hSome (List.eq_of_mem_replicate hMember)

/-- A Discover of an Ethernet client. -/
def dhcpDiscoverMessage : Memory := fun i =>
  if i < 2 then 1 else if i = 2 then 6
  else if i < 236 then 0 else ([99, 130, 83, 99] : List UInt8).getD (i - 236) 0

/-- The session that such a client begins. -/
def dhcpClient : UdpCell where
  udp :=
    { time := 0, uid := 0, version := 4, mss := udpMaxmsg 4, sent := 0, received := 0,
      saddr := [0, 0, 0, 0], source := 68, daddr := [255, 255, 255, 255], dest := 67,
      state := .active }
  socket := 5
  log := []

theorem dhcpDiscover_not_answered_right :
    (dhcpPacket 0 240).value dhcpDiscoverMessage = true ∧ dhcpDiscoverMessage 0 = 1 ∧
      ¬ DhcpReplyRight Kernel.willing dhcpDiscoverMessage 0 240 dhcpClient :=
  ⟨by decide, by decide, fun h => not_within_dhcpBuffer _ h.inside⟩

theorem dhcpDiscover_reply_wrong :
    ¬ DhcpReplyRight Kernel.willing dhcpDiscoverMessage 0 240 dhcpClient :=
  (checkDhcp_reply_wrong Kernel.willing dhcpDiscoverMessage 0 240 dhcpClient (by decide)
    (by decide)).1

end Tun2Http
