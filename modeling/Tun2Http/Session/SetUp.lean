import Tun2Http.Native.SetUp
import Tun2Http.Session.Limit
import Tun2Http.Tcp.SegmentSize

/-! Sessions that cannot be set up: what an attempt leaves behind where a call fails. -/
namespace Tun2Http

open Machine

namespace Holdings

variable {K : Kernel} {h : Holdings}

/-- The descriptor is that of the session, or none. -/
theorem openIcmpSocket_snd (K : Kernel) (h : Holdings) :
    (h.openIcmpSocket K).2 = openDatagramSocket K := by
  unfold openIcmpSocket openDatagramSocket
  dsimp only
  split_ifs <;> rfl

theorem openTcpSocket_snd (K : Kernel) (h : Holdings) :
    (h.openTcpSocket K).2 = Tun2Http.openTcpSocket K := by
  unfold openTcpSocket Tun2Http.openTcpSocket
  dsimp only
  split_ifs
  · rfl
  · cases K.connect 0 with
    | none => rfl
    | some errno =>
        dsimp only
        split_ifs <;> rfl
  · rfl
  · rfl

/-- An open function takes nothing but the descriptor that `socket()` gives it,
whatever becomes of it. -/
def TakesDescriptor (K : Kernel) (opens : Holdings → Holdings × Int) : Prop :=
  ∀ h, (opens h).1 = if K.socket 0 < 0 then h else h.socket (K.socket 0)

theorem takesDescriptor_icmp (K : Kernel) : TakesDescriptor K (openIcmpSocket K) := by
  intro h
  unfold openIcmpSocket
  dsimp only
  split_ifs <;> rfl

theorem takesDescriptor_tcp (K : Kernel) : TakesDescriptor K (openTcpSocket K) := by
  intro h
  unfold openTcpSocket
  dsimp only
  by_cases hSocket : K.socket 0 < 0
  · rw [if_pos hSocket, if_pos hSocket]
  · rw [if_neg hSocket, if_neg hSocket]
    split_ifs
    · split
      · split_ifs <;> rfl
      · rfl
    · rfl
    · rfl

theorem foldl_malloc (h : Holdings) (blocks : List HeapBlock) :
    blocks.foldl malloc h = ⟨h.descriptors, blocks.reverse ++ h.heap⟩ := by
  induction blocks generalizing h with
  | nil => rfl
  | cons block rest ih =>
      rw [List.foldl_cons, ih, malloc, List.reverse_cons, List.append_assoc]
      rfl

/-- What is left of a failed set-up: the descriptor, where there was one, and all
that was queued. -/
theorem setUp_failed {queued : List HeapBlock} {opens : Holdings → Holdings × Int}
    (hTakes : TakesDescriptor K opens) (hQueued : .session ∉ queued)
    (hFailed : (h.setUp queued opens).2 < 0) :
    (h.setUp queued opens).1 =
      ⟨if K.socket 0 < 0 then h.descriptors else K.socket 0 :: h.descriptors,
        queued.reverse ++ h.heap⟩ := by
  have hErase : (queued.reverse ++ .session :: h.heap).erase .session = queued.reverse ++ h.heap := by
    rw [List.erase_append_right _ (by simpa using hQueued), List.erase_cons_head]
  have hFd : (opens (queued.foldl malloc (h.malloc .session))).2 < 0 := by
    unfold setUp at hFailed
    dsimp only at hFailed
    split_ifs at hFailed with hMinus
    · exact hMinus
    · exact absurd hFailed hMinus
  unfold setUp
  dsimp only
  rw [if_pos hFd, hTakes, foldl_malloc]
  split_ifs
  · exact congrArg (Holdings.mk h.descriptors) hErase
  · exact congrArg (Holdings.mk (K.socket 0 :: h.descriptors)) hErase

end Holdings

namespace Attempt

variable {K : Kernel} {h : Holdings} {attempt : Attempt}

theorem session_notMem_queued (attempt : Attempt) : .session ∉ attempt.queued := by
  cases attempt with
  | icmp => simp [queued]
  | udp => simp [queued]
  | tcp hdr data =>
      change .session ∉ synBlocks hdr data
      unfold synBlocks
      split_ifs <;> simp

/-- Which descriptor the session gets, or that it gets none. -/
theorem setUp_snd (K : Kernel) (h : Holdings) (attempt : Attempt) :
    (attempt.setUp K h).2 = match attempt with
      | icmp | udp => openDatagramSocket K
      | tcp _ _ => Tun2Http.openTcpSocket K := by
  unfold setUp Holdings.setUp
  dsimp only
  cases attempt with
  | icmp =>
      dsimp only
      split_ifs <;> exact Holdings.openIcmpSocket_snd K _
  | udp =>
      dsimp only
      split_ifs <;> exact Holdings.openIcmpSocket_snd K _
  | tcp hdr data =>
      dsimp only
      split_ifs <;> exact Holdings.openTcpSocket_snd K _

theorem setUp_failed (hFailed : (attempt.setUp K h).2 < 0) :
    (attempt.setUp K h).1 =
      ⟨if K.socket 0 < 0 then h.descriptors else K.socket 0 :: h.descriptors,
        attempt.queued.reverse ++ h.heap⟩ := by
  have hQueued := attempt.session_notMem_queued
  cases attempt with
  | icmp => exact Holdings.setUp_failed (Holdings.takesDescriptor_icmp K) hQueued hFailed
  | udp => exact Holdings.setUp_failed (Holdings.takesDescriptor_icmp K) hQueued hFailed
  | tcp hdr data => exact Holdings.setUp_failed (Holdings.takesDescriptor_tcp K) hQueued hFailed

end Attempt

namespace EventLoop

variable {L : EventLoop} {K : Kernel} {pkt : Packet} {attempt : Attempt} {h : Holdings}

/-- The packet belongs to no session, and asks for a new one. -/
inductive Asks (L : EventLoop) (pkt : Packet) : Attempt → Prop where
  | icmp {version payload : Nat} {protocol : UInt8} (hHands : L.Hands pkt version protocol payload)
      (hIcmp : protocol = ipprotoIcmp ∨ protocol = ipprotoIcmpv6)
      (hEcho : pkt.mem payload = icmpEcho)
      (hNone : L.searchIcmp version ((readAddresses version).value pkt.mem) = none) :
      Asks L pkt .icmp
  | udp {version payload : Nat} {span : Span} (hTakes : L.TakesUdp pkt version payload span)
      (hNone : L.search (pkt.key ipprotoUdp version payload) = none) : Asks L pkt .udp
  | tcp {version payload : Nat} {span : Span} (hHands : L.Hands pkt version ipprotoTcp payload)
      (hTaken : (Tun2Http.handleTcp L.context pkt.turns pkt.length version payload).value pkt.mem =
        some span)
      (hNone : L.search (pkt.key ipprotoTcp version payload) = none)
      (hSyn : ((readTcpHdr payload).value pkt.mem).syn = true)
      (hOptions : (pkt.synInfo version payload).isSome = true) :
      Asks L pkt (.tcp ((readTcpHdr payload).value pkt.mem) (pkt.payload span))

/-- Where its set-up fails, no session is registered. -/
theorem handleIp_failed (hAsks : L.Asks pkt attempt) (hFailed : (attempt.setUp K h).2 < 0) :
    L.handleIp K pkt = L := by
  rw [Attempt.setUp_snd] at hFailed
  cases hAsks with
  | @icmp version payload protocol hHands hIcmp hEcho hNone =>
      have hNew : newIcmp K pkt.uid version ((readAddresses version).value pkt.mem)
          ((le16 (payload + 4)).value pkt.mem) = none := if_pos hFailed
      have hTaken : (Tun2Http.handleIcmp pkt.length version payload).value pkt.mem =
          some ⟨payload, remaining pkt.length payload⟩ := by
        simp [Tun2Http.handleIcmp, hEcho]
      rw [handleIp_eq hHands, if_pos hIcmp]
      unfold EventLoop.handleIcmp
      rw [hTaken]
      dsimp only
      rw [hNone]
      dsimp only
      rw [hNew]
  | @udp version payload span hTakes hNone =>
      have hNew : ∀ key : Key, newUdp K pkt.uid version (key.saddr, key.daddr)
          (BitVec.ofNat 16 key.source) (BitVec.ofNat 16 key.dest) = none := fun key =>
        if_pos hFailed
      rw [handleIp_udp hTakes.hands]
      unfold EventLoop.handleUdp
      rw [hTakes.taken]
      dsimp only
      rw [hNone]
      dsimp only
      rw [hNew]
  | @tcp version payload span hHands hTaken hNone hSyn hOptions =>
      obtain ⟨info, hInfo⟩ := Option.isSome_iff_exists.mp hOptions
      have hNew : newSession K info ((readTcpHdr payload).value pkt.mem) (pkt.payload span) = none :=
        if_pos hFailed
      rw [handleIp_tcp hHands]
      unfold EventLoop.handleTcp
      rw [hTaken]
      dsimp only
      rw [hNone]
      dsimp only
      rw [if_pos hSyn, hInfo]
      dsimp only
      rw [hNew]

/-- The attempt leaves sessions, descriptors and heap as they were. -/
structure LeavesNoTrace (L : EventLoop) (K : Kernel) (pkt : Packet) (attempt : Attempt)
    (h : Holdings) : Prop where
  sessions : L.handleIp K pkt = L
  descriptors : (attempt.setUp K h).1.descriptors = h.descriptors
  heap : (attempt.setUp K h).1.heap = h.heap

/-- A failed set-up leaves no trace just when it is `socket()` that failed, and no
data came with the SYN. -/
theorem leaves_no_trace_iff (hAsks : L.Asks pkt attempt) (hFailed : (attempt.setUp K h).2 < 0) :
    LeavesNoTrace L K pkt attempt h ↔
      K.socket 0 < 0 ∧ ∀ hdr data, attempt = .tcp hdr data → data.val = [] := by
  have hLeft := Attempt.setUp_failed hFailed
  have hQueued : attempt.queued = [] ↔ ∀ hdr data, attempt = .tcp hdr data → data.val = [] := by
    cases attempt with
    | icmp => simp [Attempt.queued]
    | udp => simp [Attempt.queued]
    | tcp hdr data =>
        change synBlocks hdr data = [] ↔ _
        unfold synBlocks
        split_ifs with hData
        · exact iff_of_false (by simp) fun hNone => hData (hNone hdr data rfl)
        · refine iff_of_true rfl fun hdr' data' hSame => ?_
          cases hSame
          exact not_not.mp hData
  rw [← hQueued]
  constructor
  · rintro ⟨-, hDescriptors, hHeap⟩
    rw [hLeft] at hDescriptors hHeap
    constructor
    · by_contra hSocket
      rw [if_neg hSocket] at hDescriptors
      exact absurd hDescriptors (List.cons_ne_self _ _)
    · exact List.reverse_eq_nil_iff.mp (List.append_left_eq_self.mp hHeap)
  · rintro ⟨hSocket, hNothing⟩
    refine ⟨handleIp_failed hAsks hFailed, ?_, ?_⟩
    · rw [hLeft]
      exact if_pos hSocket
    · rw [hLeft, hNothing]
      rfl

/-- Room for one session. -/
def roomy : EventLoop := { init with maxsessions := 1 }

/-- The kernel has no socket left. -/
def noSocket : Kernel := { Kernel.willing with socket := fun _ => -1 }

theorem asks_datagram : roomy.Asks (clientDatagram 1 100) .udp := by
  have hHands : roomy.Hands (clientDatagram 1 100) 4 ipprotoUdp 20 := by
    unfold Hands
    decide
  have hTakes : roomy.TakesUdp (clientDatagram 1 100) 4 20 ⟨28, 0⟩ := ⟨hHands, by decide⟩
  exact .udp hTakes rfl

/-- A datagram, where there is no socket. -/
theorem leaves_no_trace_iff_datagram :
    LeavesNoTrace roomy noSocket (clientDatagram 1 100) .udp ⟨[], []⟩ ↔
      noSocket.socket 0 < 0 ∧ ∀ hdr data, Attempt.udp = .tcp hdr data → data.val = [] :=
  leaves_no_trace_iff asks_datagram (by decide)

/-- A SYN to port 22 with two bytes of data. -/
def dataSyn : Packet where
  mem := packetMemory { mssSyn 4 0 with payload := [104, 105] }.bytes
  length := 46
  turns := 2
  uid := 10001

/-- Where the socket is not protected its descriptor stays open; and where there is
no socket the data of a SYN stays in the heap. -/
theorem failed_set_up_leaves_trace :
    (∃ attempt, roomy.Asks (clientDatagram 1 100) attempt ∧
      (attempt.setUp { Kernel.willing with protect := fun _ => false } ⟨[], []⟩).2 < 0 ∧
      ¬ LeavesNoTrace roomy { Kernel.willing with protect := fun _ => false }
        (clientDatagram 1 100) attempt ⟨[], []⟩) ∧
    ∃ attempt, roomy.Asks dataSyn attempt ∧ (attempt.setUp noSocket ⟨[], []⟩).2 < 0 ∧
      ¬ LeavesNoTrace roomy noSocket dataSyn attempt ⟨[], []⟩ := by
  constructor
  · exact ⟨.udp, asks_datagram, by decide, fun h => absurd h.descriptors (by decide)⟩
  · have hHands : roomy.Hands dataSyn 4 ipprotoTcp 20 := by
      unfold Hands
      decide
    have hTaken : (Tun2Http.handleTcp roomy.context 2 46 4 20).value dataSyn.mem = some ⟨44, 2⟩ := by
      decide
    exact ⟨_, .tcp hHands hTaken rfl (by decide) (by decide), by decide,
      fun h => absurd h.heap (by decide)⟩

end EventLoop

/-- Attempt after attempt, each with its own answers of the kernel. -/
def tryAgain (h : Holdings) (input : Kernel × Attempt) : Holdings := (input.2.setUp input.1 h).1

/-- Every attempt that fails after `socket()` costs a descriptor for good. -/
theorem descriptors_of_failures {h : Holdings} {inputs : List (Kernel × Attempt)}
    (hFailed : Along tryAgain (fun h input => (input.2.setUp input.1 h).2 < 0) h inputs) :
    (run tryAgain h inputs).descriptors.length =
      h.descriptors.length + inputs.countP fun input => 0 ≤ input.1.socket 0 := by
  induction inputs generalizing h with
  | nil => rfl
  | cons input rest ih =>
      have hStep : (tryAgain h input).descriptors.length =
          h.descriptors.length + if 0 ≤ input.1.socket 0 then 1 else 0 := by
        rw [tryAgain, Attempt.setUp_failed hFailed.1]
        by_cases hSocket : input.1.socket 0 < 0
        · rw [if_pos hSocket, if_neg (not_le.mpr hSocket)]
          rfl
        · rw [if_neg hSocket, if_pos (not_lt.mp hSocket)]
          rfl
      rw [run_cons, ih hFailed.2, hStep, List.countP_cons]
      simp only [decide_eq_true_eq]
      omega

end Tun2Http
