import Tun2Http.Tls.ConnectRequest

/-! The host that the tunnel leads to: the server name of the ClientHello, or
the address of the session. `lookup_hostname` knows addresses of IPv4 only. -/
namespace Tun2Http

open Machine

def hexDigit (n : Nat) : UInt8 := if n < 10 then (48 + n).toUInt8 else (87 + n).toUInt8

/-- A 16-bit number in hexadecimal, without leading zeros. -/
def hexText (n : Nat) : List UInt8 :=
  if n < 16 then [hexDigit n]
  else if n < 256 then [hexDigit (n / 16), hexDigit (n % 16)]
  else if n < 4096 then [hexDigit (n / 256), hexDigit (n / 16 % 16), hexDigit (n % 16)]
  else [hexDigit (n / 4096), hexDigit (n / 256 % 16), hexDigit (n / 16 % 16), hexDigit (n % 16)]

/-- The eight groups of an IPv6 address. -/
def ip6Groups (address : List UInt8) : List Nat :=
  (List.range 8).map fun i =>
    256 * (address.getD (2 * i) 0).toNat + (address.getD (2 * i + 1) 0).toNat

/-- How many groups from `base` on are zero. -/
def zeroRun (groups : List Nat) (base : Nat) : Nat :=
  ((groups.drop base).takeWhile (· = 0)).length

/-- Where the groups begin that `::` stands for: the first longest run of zeros,
if it is one of two or more. -/
def omittedAt (groups : List Nat) : Option Nat :=
  (List.range 8).find? fun base => decide (2 ≤ zeroRun groups base) &&
    (List.range 8).all fun other => decide (zeroRun groups other ≤ zeroRun groups base)

/-- Groups with colons between them. -/
def joinGroups (groups : List Nat) : List UInt8 :=
  ((groups.map hexText).intersperse [58]).flatten

/-- The literal of an IPv6 address. -/
def ip6Literal (address : List UInt8) : List UInt8 :=
  let groups := ip6Groups address
  match omittedAt groups with
  | none => joinGroups groups
  | some base =>
      joinGroups (groups.take base) ++ [58, 58] ++
        joinGroups (groups.drop (base + zeroRun groups base))

example : ip6Literal [0x20, 1, 0xd, 0xb8, 0, 0, 0, 0, 0, 0, 0, 0, 0, 0, 0, 1] =
    ascii ['2', '0', '0', '1', ':', 'd', 'b', '8', ':', ':', '1'] := by decide

/-- The textual form of the session's destination. -/
def destinationText (t : TcpSession) : List UInt8 :=
  if t.version = 4 then inetNtoa t.daddr else ip6Literal t.daddr

/-- The request asks for the server name that the packet carries, or for the
destination of the session. -/
def AsksRightly (data : Payload) (t : TcpSession) (text : List UInt8) : Prop :=
  ∃ host, text = connectRequest host ∧ (CarriesName data host ∨ host = destinationText t)

/-- The server name of the packet, where it has one, is used as it is or cut to
the session's destination; without one the destination is on IPv4. -/
def RightHost (data : Payload) (t : TcpSession) : Prop :=
  (∀ name, CarriesName data name → cutName name ≠ [] →
    cutName name = name ∨ cutName name = destinationText t) ∧
  ((∀ name, CarriesName data name → cutName name = []) → t.version = 4)

theorem colon_mem_ip6Literal (address : List UInt8) : 58 ∈ ip6Literal address := by
  unfold ip6Literal
  dsimp only
  split
  · have hTwo : ∃ first second rest, ip6Groups address = first :: second :: rest := ⟨_, _, _, rfl⟩
    obtain ⟨first, second, rest, hGroups⟩ := hTwo
    rw [hGroups]
    simp [joinGroups]
  · simp

theorem colon_not_mem_decimal {n : Nat} (hn : n < 256) : 58 ∉ decimal n := by
  have hDigit : ∀ n < 10, (58 : UInt8) ≠ (48 + n).toUInt8 := by decide
  unfold decimal
  split_ifs <;> simp only [List.mem_cons, List.not_mem_nil, or_false, not_or]
  · exact hDigit n (by omega)
  · exact ⟨hDigit _ (by omega), hDigit _ (by omega)⟩
  · exact ⟨hDigit _ (by omega), hDigit _ (by omega), hDigit _ (by omega)⟩

/-- The digits of an IPv4 address are no IPv6 literal. -/
theorem inetNtoa_ne_ip6Literal (address address' : List UInt8) :
    inetNtoa address ≠ ip6Literal address' := by
  have hPart : ∀ i, 58 ∉ decimal (address.getD i 0).toNat :=
    fun i => colon_not_mem_decimal (address.getD i 0).toNat_lt
  have hNone : 58 ∉ inetNtoa address := by
    unfold inetNtoa
    simp only [List.mem_append, List.mem_singleton, not_or]
    exact ⟨⟨⟨⟨⟨⟨hPart 0, by decide⟩, hPart 1⟩, by decide⟩, hPart 2⟩, by decide⟩, hPart 3⟩
  exact fun h => hNone (h ▸ colon_mem_ip6Literal address')

theorem CarriesName.unique {data : Payload} {name name' : List UInt8} (h : CarriesName data name)
    (h' : CarriesName data name') : name = name' := by
  obtain ⟨entry, hEntry, rfl⟩ := h
  obtain ⟨entry', hEntry', rfl⟩ := h'
  rw [hEntry.unique hEntry']

/-- Digits are stored as they are. -/
theorem cutName_inetNtoa (address : List UInt8) : cutName (inetNtoa address) = inetNtoa address := by
  have hLength := length_inetNtoa_le address
  have hNoNul : ∀ b ∈ inetNtoa address, b ≠ 0 := fun b hb hZero => by
    have hPrintable := printable_inetNtoa address b hb
    rw [hZero] at hPrintable
    exact absurd hPrintable (by decide)
  unfold cutName fqdnMax
  rw [List.take_of_length_le (by omega), List.takeWhile_eq_self_iff]
  simpa using hNoNul

/-- Without a server name the request asks for the address in digits, which is
right on IPv4 only. -/
theorem asksRightly_digits_iff {data : Payload} {t : TcpSession}
    (hNone : ∀ name, CarriesName data name → cutName name = []) :
    AsksRightly data t (connectRequest (inetNtoa t.daddr)) ↔ t.version = 4 := by
  constructor
  · rintro ⟨host, hEq, hHost⟩
    rw [connectRequest_inj] at hEq
    subst hEq
    rcases hHost with hName | hText
    · have hEmpty := hNone _ hName
      rw [cutName_inetNtoa] at hEmpty
      simp [inetNtoa] at hEmpty
    · unfold destinationText at hText
      split_ifs at hText with hVersion
      · exact hVersion
      · exact absurd hText (inetNtoa_ne_ip6Literal _ _)
  · intro hVersion
    exact ⟨_, rfl, Or.inr (if_pos hVersion).symm⟩

/-- The CONNECT request of a packet asks for its server name or for the address
of the session, exactly if the name is not cut to something else, and a packet
without one belongs to a session on IPv4. -/
theorem destination_right_iff (K : Kernel) (hdr : TcpHdr) (data : Payload) (c : Cell) :
    (∀ text ∈ newRequests c (K, .segment hdr data), AsksRightly data c.tcp text) ↔
      (Triggers hdr c → RightHost data c.tcp) := by
  rw [newRequests_eq]
  by_cases hTriggers : Triggers hdr c
  · rw [if_pos hTriggers, List.forall_mem_singleton]
    rcases connectHost_cases data c with ⟨name, hName, hCut, hHost⟩ | ⟨hNone, hHost⟩
    · rw [hHost]
      constructor
      · rintro ⟨host, hEq, hRight⟩ -
        rw [connectRequest_inj] at hEq
        subst hEq
        refine ⟨fun name' hName' _ => ?_, fun hNone => absurd (hNone name hName) hCut⟩
        rw [← hName.unique hName']
        exact hRight.imp_left fun h => h.unique hName
      · intro hRight
        refine ⟨_, rfl, ((hRight hTriggers).1 name hName hCut).imp_left fun h => ?_⟩
        rwa [h]
    · rw [hHost, lookupHostname_eq, asksRightly_digits_iff hNone]
      constructor
      · exact fun hVersion _ => ⟨fun name hName hCut => absurd (hNone name hName) hCut, fun _ => hVersion⟩
      · exact fun hRight => (hRight hTriggers).2 hNone
  · simp [hTriggers]

/-- A client on IPv6. -/
def client6Info : SynInfo :=
  { clientInfo with
    version := 6
    saddr := [0xfd, 0, 0, 0, 0, 0, 0, 0, 0, 0, 0, 0, 0, 0, 0, 1]
    daddr := [0x20, 1, 0xd, 0xb8, 0, 0, 0, 0, 0, 0, 0, 0, 0, 0, 0, 1] }

/-- Its session for port 443, once the SYN was acknowledged. -/
def acceptedCell6 : Cell :=
  run step ((newSession .willing client6Info (clientSyn 443) .empty).get rfl)
    [(.willing, .event { epollout := true })]

/-- Its acknowledgement asks for `32.1.13.184`. -/
theorem destination_wrong :
    ¬ ∀ text ∈ newRequests acceptedCell6 (.willing, .segment (clientSegment 443 1 1001) .empty),
      AsksRightly .empty acceptedCell6.tcp text := by
  have hNone : ∀ name, CarriesName .empty name → cutName name = [] := by
    rintro name ⟨entry, hEntry, -⟩
    exact absurd hEntry.1.record (by decide)
  rw [newRequests_eq, if_pos (by decide), List.forall_mem_singleton, connectHost_of_none hNone,
    lookupHostname_eq, asksRightly_digits_iff hNone]
  decide

end Tun2Http
