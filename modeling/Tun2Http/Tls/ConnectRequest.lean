import Tun2Http.Tcp.Upstream
import Tun2Http.Tls.ServerName

/-! The CONNECT request. Its host is what the ClientHello has as server name, in
any bytes but NUL; nothing looks at it before it is put into the request. -/
namespace Tun2Http

open Machine

/-- The texts of the CONNECT requests passed to `send()`, oldest first. -/
def requests : List Io → List (List UInt8)
  | [] => []
  | .sendConnect request _ :: before => requests before ++ [request]
  | _ :: before => requests before

/-- The texts that one step adds. -/
def newRequests (c : Cell) (input : Kernel × Input) : List (List UInt8) :=
  (requests (step c input).log).drop (requests c.log).length

/-- The packet leads to the CONNECT request. -/
def Triggers (hdr : TcpHdr) (c : Cell) : Prop :=
  hdr.urg = false ∧ c.tcp.dest = 443 ∧ c.tcp.connectSent = .notSent

instance (hdr : TcpHdr) (c : Cell) : Decidable (Triggers hdr c) :=
  inferInstanceAs (Decidable (_ ∧ _))

/-- The bytes that a host name can have: no control character and no space. -/
def Printable (b : UInt8) : Prop := 0x20 < b ∧ b ≠ 0x7F

instance (b : UInt8) : Decidable (Printable b) := inferInstanceAs (Decidable (_ ∧ _))

/-- The text is one request head and no more, and fits the buffer of 512 bytes. -/
def SingleHead (text : List UInt8) : Prop :=
  ∃ host, text = connectRequest host ∧ host ≠ [] ∧ (∀ b ∈ host, Printable b) ∧ text.length + 1 ≤ 512

/-- A payload, with zeros behind it. -/
def payloadMemory (data : Payload) : Memory := fun offset => data.val.getD offset 0

/-- The payload is a ClientHello that has `name` as server name. -/
def CarriesName (data : Payload) (name : List UInt8) : Prop :=
  ∃ entry, HostNameAt (payloadMemory data) 0 data.val.length entry ∧
    name = entryName (payloadMemory data) entry

variable {K : Kernel} {c d : Cell}

theorem requests_calls {p : Io → Prop} (h : Calls p c d)
    (hp : ∀ request result, ¬ p (.sendConnect request result)) :
    requests d.log = requests c.log :=
  h.log_eq requests fun entry log hEntry => by
    cases entry with
    | sendConnect request result => exact absurd hEntry (hp request result)
    | _ => rfl

theorem requests_writeRst (K : Kernel) (c : Cell) :
    requests (writeRst K c).log = requests c.log := by
  by_cases hState : c.tcp.state = .listen
  · rw [writeRst_of_listen K c hState]
    rfl
  · rw [writeRst_of_ne_listen K c hState]
    split_ifs <;> rfl

/-- Nothing behind the CONNECT phase sends a request. -/
theorem requests_answers {count : Nat} (h : Answers count c d) :
    requests d.log = requests c.log := by
  obtain ⟨m, e, hTaken, hRepeats, queue, rfl⟩ := h
  rw [Cell.setForward_log, requests_calls hRepeats.calls fun _ _ => id,
    requests_calls hTaken.calls fun _ _ => id]

theorem requests_connectPhase (K : Kernel) (data : Payload) (c : Cell) :
    requests (connectPhase K data c).log = requests c.log ++
      if c.tcp.connectSent = .notSent then [connectRequest (connectHost data.val c)] else [] := by
  have hHost := connectHost_length_pos data.val c
  unfold connectPhase storeHostname
  dsimp only
  rw [if_pos hHost]
  by_cases hNotSent : c.tcp.connectSent = .notSent
  · rw [if_pos ⟨hNotSent, hHost⟩, if_pos hNotSent]
    split
    · rw [requests_writeRst]
      rfl
    · rfl
  · rw [if_neg fun h => hNotSent h.1, if_neg hNotSent, List.append_nil]

/-- The request of a packet is the one for its host, where it triggers one. -/
theorem newRequests_eq (K : Kernel) (hdr : TcpHdr) (data : Payload) (c : Cell) :
    newRequests c (K, .segment hdr data) =
      if Triggers hdr c then [connectRequest (connectHost data.val c)] else [] := by
  have hAll : requests (step c (K, .segment hdr data)).log = requests c.log ++
      if Triggers hdr c then [connectRequest (connectHost data.val c)] else [] := by
    show requests (existingSession K c.tcp.dest hdr data c).log = _
    unfold existingSession
    by_cases hUrg : hdr.urg = true
    · rw [if_pos hUrg, if_neg fun h => by simp [h.1] at hUrg, List.append_nil]
    · rw [if_neg hUrg, requests_answers (answers_tunnelSegment _ hdr data _)]
      by_cases hPort : c.tcp.dest = 443
      · rw [if_pos hPort, requests_connectPhase]
        exact congrArg _ (if_congr (by simp [Triggers, hUrg, hPort]) rfl rfl)
      · rw [if_neg hPort, if_neg fun h => hPort h.2.1, List.append_nil]
  rw [newRequests, hAll, List.drop_left]

theorem connectRequest_inj {host host' : List UInt8} :
    connectRequest host = connectRequest host' ↔ host = host' := by
  unfold connectRequest
  rw [List.append_left_inj, List.append_right_inj]

/-! The host, in terms of the server name. -/

theorem connectHost_of_name {data : Payload} {name : List UInt8} (hName : CarriesName data name)
    (hCut : cutName name ≠ []) (c : Cell) : connectHost data.val c = cutName name := by
  obtain ⟨entry, hEntry, rfl⟩ := hName
  have hParse := (parseTlsHeader_eq_some_iff 0 data.val.length _).mpr ⟨entry, hEntry, rfl⟩
  have hTls : tlsHostname data.val = cutName (entryName (payloadMemory data) entry) :=
    congrArg (·.getD []) hParse
  rw [connectHost, hTls, if_pos (List.length_pos_of_ne_nil hCut)]

/-- Without a server name the host is the address in digits. -/
theorem connectHost_of_none {data : Payload}
    (hNone : ∀ name, CarriesName data name → cutName name = []) (c : Cell) :
    connectHost data.val c = lookupHostname c.tcp.daddr := by
  have hTls : tlsHostname data.val = [] := by
    unfold tlsHostname
    cases hParse : (parseTlsHeader 0 data.val.length).value (payloadMemory data) with
    | none => exact congrArg (·.getD []) hParse
    | some name =>
        obtain ⟨entry, hEntry, rfl⟩ := (parseTlsHeader_eq_some_iff 0 _ _).mp hParse
        exact (congrArg (·.getD []) hParse).trans (hNone _ ⟨entry, hEntry, rfl⟩)
  rw [connectHost, hTls, List.length_nil, if_neg (lt_irrefl 0)]

/-- The host is the server name, cut, or the address in digits. -/
theorem connectHost_cases (data : Payload) (c : Cell) :
    (∃ name, CarriesName data name ∧ cutName name ≠ [] ∧ connectHost data.val c = cutName name) ∨
      ((∀ name, CarriesName data name → cutName name = []) ∧
        connectHost data.val c = lookupHostname c.tcp.daddr) := by
  by_cases hSome : ∃ name, CarriesName data name ∧ cutName name ≠ []
  · obtain ⟨name, hName, hCut⟩ := hSome
    exact Or.inl ⟨name, hName, hCut, connectHost_of_name hName hCut c⟩
  · have hNone : ∀ name, CarriesName data name → cutName name = [] := by
      simpa using hSome
    exact Or.inr ⟨hNone, connectHost_of_none hNone c⟩

theorem length_cutName_le (name : List UInt8) : (cutName name).length ≤ 255 := by
  unfold cutName
  exact (List.takeWhile_prefix _).length_le.trans (List.length_take_le _ _)

/-! The address in digits. -/

theorem printable_digit : ∀ n < 10, Printable (48 + n).toUInt8 := by decide

theorem printable_decimal {n : Nat} (hn : n < 256) : ∀ b ∈ decimal n, Printable b := by
  unfold decimal
  split_ifs with hOne hTwo <;>
    simp only [List.forall_mem_cons, List.not_mem_nil, false_imp_iff, implies_true, and_true]
  · exact printable_digit n hOne
  · exact ⟨printable_digit _ (by omega), printable_digit _ (by omega)⟩
  · exact ⟨printable_digit _ (by omega), printable_digit _ (by omega), printable_digit _ (by omega)⟩

theorem length_decimal_le (n : Nat) : (decimal n).length ≤ 3 := by
  unfold decimal
  split_ifs <;> simp

theorem printable_inetNtoa (address : List UInt8) : ∀ b ∈ inetNtoa address, Printable b := by
  have hPart : ∀ i, ∀ b ∈ decimal (address.getD i 0).toNat, Printable b :=
    fun i => printable_decimal (address.getD i 0).toNat_lt
  have hDot : ∀ b ∈ ([46] : List UInt8), Printable b := by simp [Printable]
  unfold inetNtoa
  simp only [List.forall_mem_append]
  exact ⟨⟨⟨⟨⟨⟨hPart 0, hDot⟩, hPart 1⟩, hDot⟩, hPart 2⟩, hDot⟩, hPart 3⟩

theorem length_inetNtoa_le (address : List UInt8) : (inetNtoa address).length ≤ 15 := by
  have hPart : ∀ i, (decimal (address.getD i 0).toNat).length ≤ 3 := fun i => length_decimal_le _
  have h0 := hPart 0
  have h1 := hPart 1
  have h2 := hPart 2
  have h3 := hPart 3
  simp only [inetNtoa, List.length_append, List.length_singleton]
  omega

/-- The digits of an address fit the buffer that they are copied to. -/
theorem lookupHostname_eq (address : List UInt8) : lookupHostname address = inetNtoa address :=
  List.take_of_length_le ((length_inetNtoa_le address).trans (by omega))

theorem length_connectRequest (host : List UInt8) :
    (connectRequest host).length = host.length + 25 := by
  simp only [connectRequest, ascii, List.length_append, List.length_map, List.length_cons,
    List.length_nil]
  omega

theorem length_connectHost_le (data : Payload) (c : Cell) :
    (connectHost data.val c).length ≤ 255 := by
  rcases connectHost_cases data c with ⟨name, -, -, hHost⟩ | ⟨-, hHost⟩
  · rw [hHost]
    exact length_cutName_le name
  · rw [hHost, lookupHostname_eq]
    exact (length_inetNtoa_le _).trans (by omega)

/-- The request for the host is a single head where the host is printable. -/
theorem singleHead_iff (data : Payload) (c : Cell) :
    SingleHead (connectRequest (connectHost data.val c)) ↔
      ∀ b ∈ connectHost data.val c, Printable b := by
  constructor
  · rintro ⟨host, hEq, -, hPrintable, -⟩
    rwa [connectRequest_inj.mp hEq]
  · intro hPrintable
    have hLength := length_connectHost_le data c
    refine ⟨_, rfl, List.ne_nil_of_length_pos (connectHost_length_pos data.val c), hPrintable, ?_⟩
    rw [length_connectRequest]
    omega

/-- Every CONNECT request that a packet leads to is one request head for a host
without spaces and control characters, exactly if the server name that the
packet carries, where it is used, has no such bytes. -/
theorem request_single_iff (K : Kernel) (hdr : TcpHdr) (data : Payload) (c : Cell) :
    (∀ text ∈ newRequests c (K, .segment hdr data), SingleHead text) ↔
      (Triggers hdr c → ∀ name, CarriesName data name → ∀ b ∈ cutName name, Printable b) := by
  rw [newRequests_eq]
  by_cases hTriggers : Triggers hdr c
  · rw [if_pos hTriggers, List.forall_mem_singleton, singleHead_iff]
    constructor
    · intro hHost _ name hName b hb
      rw [connectHost_of_name hName (List.ne_nil_of_mem hb)] at hHost
      exact hHost b hb
    · intro hNames
      rcases connectHost_cases data c with ⟨name, hName, -, hHost⟩ | ⟨-, hHost⟩
      · rw [hHost]
        exact hNames hTriggers name hName
      · rw [hHost, lookupHostname_eq]
        exact printable_inetNtoa _
  · simp [hTriggers]

/-- A ClientHello whose server name ends the request and starts a header. -/
def injectingHello : ClientHello :=
  { sampleHello with
    extensions := some [.serverName
      [⟨0, ⟨ascii ['a', '\r', '\n', 'X', ':'], by decide⟩, by decide⟩] (by decide)]
    fits := by decide }

/-- The session of a client whose SYN was acknowledged. -/
def acceptedCell (port : U16) : Cell :=
  run step (clientCell port .empty) [(.willing, .event { epollout := true })]

theorem request_injected :
    ¬ ∀ text ∈ newRequests (acceptedCell 443)
      (.willing, .segment (clientSegment 443 1 1001) ⟨injectingHello.record, by decide⟩),
        SingleHead text := by
  rw [newRequests_eq, if_pos (by decide), List.forall_mem_singleton, singleHead_iff]
  decide

end Tun2Http
