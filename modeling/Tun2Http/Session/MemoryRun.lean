import Tun2Http.Session.Alone
import Tun2Http.Session.Memory

/-! The loop of `handle_events` on the heap: its steps do to the blocks what they do to
the queues of the sessions. -/
namespace Tun2Http

open Machine

/-- The queue of a TCP session. -/
def SessionData.queue : SessionData → Option (List Segment)
  | tcp c => some c.tcp.forward
  | _ => none

namespace EventLoop

variable {L : EventLoop} {f : NgSession → SessionData × Bool} {K : Kernel} {pkt : Packet}

/-- The session at a pointer. -/
def found (L : EventLoop) (pointer : Nat) : Option SessionData :=
  (L.ngSession.find? (·.pointer = pointer)).map (·.data)

/-- The queues of the TCP sessions in the list. -/
def queues (L : EventLoop) (pointer : Nat) : Option (List Segment) := (L.found pointer).bind SessionData.queue

theorem Sound.found_eq_some_iff (h : Sound L) {p : Nat} {data : SessionData} :
    L.found p = some data ↔ ⟨p, data⟩ ∈ L.ngSession := by
  constructor
  · intro hFound
    obtain ⟨s, hSearch, rfl⟩ := Option.map_eq_some_iff.mp hFound
    have hPointer : s.pointer = p := by simpa using List.find?_some hSearch
    subst hPointer
    exact List.mem_of_find?_eq_some hSearch
  · intro hIn
    have hSearch := h.pointers.find?_eq hIn rfl
    simp only [Option.some.injEq] at hSearch
    rw [found, hSearch, Option.map_some]

theorem Sound.queues_of_mem (h : Sound L) {s : NgSession} (hIn : s ∈ L.ngSession) :
    L.queues s.pointer = s.data.queue := by
  rw [queues, h.found_eq_some_iff.mpr hIn, Option.bind_some]

theorem Sound.queues_eq_some (h : Sound L) {p : Nat} {queue : List Segment} (hQueue : L.queues p = some queue) :
    ∃ c, ⟨p, .tcp c⟩ ∈ L.ngSession ∧ queue = c.tcp.forward := by
  obtain ⟨data, hFound, hData⟩ := Option.bind_eq_some_iff.mp hQueue
  rw [h.found_eq_some_iff] at hFound
  cases data with
  | icmp c => cases hData
  | udp c => cases hData
  | tcp c => exact ⟨c, hFound, (Option.some.inj hData).symm⟩

theorem found_eq_none {p : Nat} (hNone : ∀ s ∈ L.ngSession, s.pointer ≠ p) : L.found p = none := by
  rw [found, List.find?_eq_none.mpr fun s hs => by simpa using hNone s hs, Option.map_none]

theorem Sound.queues_next (h : Sound L) : L.queues L.next = none := by
  rw [queues, found_eq_none fun s hs => Nat.ne_of_lt (h.fresh s hs), Option.bind_none]

/-- What is left of the session at a pointer. -/
theorem Sound.found_update (h : Sound L) (hAfter : Sound (L.update f)) (p : Nat) : (L.update f).found p =
    (L.found p).bind fun data => if (f ⟨p, data⟩).2 then none else some (f ⟨p, data⟩).1 := by
  ext data
  rw [hAfter.found_eq_some_iff, mem_update, Option.bind_eq_some_iff]
  constructor
  · rintro ⟨s, hs, hKept, hEq⟩
    simp only [NgSession.mk.injEq] at hEq
    obtain ⟨rfl, rfl⟩ := hEq
    exact ⟨s.data, h.found_eq_some_iff.mpr hs, by rw [hKept]; rfl⟩
  · rintro ⟨before, hFound, hEq⟩
    rw [h.found_eq_some_iff] at hFound
    rw [Option.ite_none_left_eq_some, Bool.not_eq_true, Option.some.injEq] at hEq
    obtain ⟨hKept, rfl⟩ := hEq
    exact ⟨_, hFound, hKept, rfl⟩

/-- Every session keeps its queue, and none that has one is freed. -/
theorem Sound.queues_same (h : Sound L) (hAfter : Sound (L.update f))
    (hSame : ∀ s ∈ L.ngSession, (if (f s).2 then none else (f s).1.queue) = s.data.queue) :
    (L.update f).queues = L.queues := by
  funext p
  rw [queues, queues, h.found_update hAfter]
  cases hFound : L.found p with
  | none => rfl
  | some data =>
      have hQueue := hSame _ (h.found_eq_some_iff.mp hFound)
      rw [Option.bind_some, Option.bind_some, ← hQueue]
      split_ifs <;> rfl

theorem Sound.queues_store (h : Sound L) {s : NgSession} {data : SessionData} (hIn : s ∈ L.ngSession)
    (hAfter : Sound (L.store s.pointer data)) :
    (L.store s.pointer data).queues = Function.update L.queues s.pointer data.queue := by
  funext p
  rw [queues, EventLoop.store, h.found_update hAfter]
  by_cases hSame : p = s.pointer
  · subst hSame
    rw [h.found_eq_some_iff.mpr hIn, Function.update_self]
    simp
  · rw [Function.update_of_ne hSame, queues]
    cases L.found p with
    | none => rfl
    | some other => simp [hSame]

theorem queues_register (L : EventLoop) (K : Kernel) (data : SessionData) :
    (L.register K data).queues = Function.update L.queues L.next data.queue := by
  funext p
  by_cases hSame : p = L.next
  · subst hSame
    simp [queues, found, register]
  · rw [Function.update_of_ne hSame, queues, queues, found, found, register]
    rw [List.find?_cons_of_neg (by simpa using Ne.symm hSame)]

/-- A datagram protocol has no queues. -/
theorem Sound.queues_store_none (h : Sound L) {s : NgSession} {data : SessionData} (hIn : s ∈ L.ngSession)
    (hAfter : Sound (L.store s.pointer data)) (hBefore : s.data.queue = none) (hData : data.queue = none) :
    (L.store s.pointer data).queues = L.queues := by
  rw [h.queues_store hIn hAfter, hData, ← hBefore, ← h.queues_of_mem hIn, Function.update_eq_self]

theorem Sound.queues_register_none (h : Sound L) {data : SessionData} (hData : data.queue = none) :
    (L.register K data).queues = L.queues := by
  rw [queues_register, hData, ← h.queues_next, Function.update_eq_self]

/-! What a packet does to the queues. -/

/-- The packet is a segment of a session. -/
def Segmented (L : EventLoop) (K : Kernel) (found : Nat × Cell × TcpHdr × Payload) (M : EventLoop) : Prop :=
  ⟨found.1, .tcp found.2.1⟩ ∈ L.ngSession ∧
    M = L.store found.1 (.tcp (step found.2.1 (K, .segment found.2.2.1 found.2.2.2)))

/-- The packet is a SYN of no session. -/
def Opened (L : EventLoop) (K : Kernel) (syn : SynInfo × TcpHdr × Payload) (M : EventLoop) : Prop :=
  match newSession K syn.1 syn.2.1 syn.2.2 with
  | some c => M = L.register K (.tcp c)
  | none => M = L

theorem Sound.queues_handleIcmp (h : Sound L) {version payload : Nat}
    (hAfter : Sound (L.handleIcmp K pkt version payload)) :
    (L.handleIcmp K pkt version payload).queues = L.queues := by
  unfold EventLoop.handleIcmp at hAfter ⊢
  split
  · rfl
  · rename_i span hSpan
    simp only [hSpan] at hAfter
    dsimp only
    split
    · rename_i pointer c hFound
      simp only [hFound] at hAfter
      have hIn := List.mem_of_find?_eq_some hFound
      exact h.queues_store_none hIn hAfter rfl rfl
    · rfl
    · split
      · rfl
      · exact h.queues_register_none rfl

theorem Sound.queues_handleUdp (h : Sound L) {version payload : Nat}
    (hAfter : Sound (L.handleUdp K pkt version payload)) :
    (L.handleUdp K pkt version payload).queues = L.queues := by
  unfold EventLoop.handleUdp at hAfter ⊢
  split
  · rfl
  · rename_i span hSpan
    simp only [hSpan] at hAfter
    dsimp only
    split
    · rename_i pointer c hFound
      simp only [hFound] at hAfter
      have hIn := List.mem_of_find?_eq_some hFound
      exact h.queues_store_none hIn hAfter rfl rfl
    · rfl
    · split
      · rfl
      · exact h.queues_register_none rfl

/-- Where a packet is neither, no queue is changed. -/
theorem packet_cases (h : Sound L) (K : Kernel) (pkt : Packet) :
    (∃ found, L.segment pkt = some found ∧ L.syn pkt = none ∧ L.Segmented K found (L.handleIp K pkt)) ∨
      (L.segment pkt = none ∧ ∃ syn, L.syn pkt = some syn ∧ L.Opened K syn (L.handleIp K pkt)) ∨
      (L.segment pkt = none ∧ L.syn pkt = none ∧ (L.handleIp K pkt).queues = L.queues) := by
  unfold segment syn EventLoop.handleIp
  cases hHands : (Tun2Http.handleIp L.context pkt.turns pkt.length).value pkt.mem with
  | dropped => exact Or.inr (Or.inr ⟨rfl, rfl, rfl⟩)
  | running => exact Or.inr (Or.inr ⟨rfl, rfl, rfl⟩)
  | handler version protocol payload =>
      dsimp only
      by_cases hIcmp : protocol = ipprotoIcmp ∨ protocol = ipprotoIcmpv6
      · simp only [if_pos hIcmp]
        have hAfter := h.handled (K := K) (handled_handleIcmp hHands hIcmp)
        exact Or.inr (Or.inr ⟨trivial, trivial, h.queues_handleIcmp hAfter⟩)
      · by_cases hUdp : protocol = ipprotoUdp
        · simp only [if_neg hIcmp, if_pos hUdp]
          subst hUdp
          have hAfter := h.handled (K := K) (handled_handleUdp hHands)
          exact Or.inr (Or.inr ⟨trivial, trivial, h.queues_handleUdp hAfter⟩)
        · simp only [if_neg hIcmp, if_neg hUdp]
          unfold segmentTcp synTcp EventLoop.handleTcp
          cases hSpan : (Tun2Http.handleTcp L.context pkt.turns pkt.length version payload).value pkt.mem with
          | none => exact Or.inr (Or.inr ⟨rfl, rfl, rfl⟩)
          | some span =>
              dsimp only
              cases hFound : L.search (pkt.key ipprotoTcp version payload) with
              | some s =>
                  obtain ⟨hIn, hKey⟩ := search_key hFound
                  obtain ⟨c, hData⟩ := data_of_key_tcp rfl hKey
                  obtain ⟨pointer, data⟩ := s
                  subst hData
                  exact Or.inl ⟨_, rfl, rfl, hIn, rfl⟩
              | none =>
                  dsimp only
                  refine Or.inr ?_
                  split_ifs with hSyn
                  · cases hInfo : pkt.synInfo version payload with
                    | none => exact Or.inr ⟨rfl, rfl, rfl⟩
                    | some info =>
                        refine Or.inl ⟨rfl, _, rfl, ?_⟩
                        unfold Opened
                        dsimp only
                        cases newSession K info ((readTcpHdr payload).value pkt.mem) (pkt.payload span) <;> rfl
                  · exact Or.inr ⟨rfl, rfl, rfl⟩

/-! Passes, events and ends. -/

theorem Sound.queues_start (h : Sound L) (kernels : Nat → Kernel) (fwd53 : Bool) (maxsessions : Int) :
    (L.start kernels fwd53 maxsessions).queues = L.queues := by
  have hEnded : Sound (L.update fun s => s.data.allowed (kernels s.pointer)) :=
    h.update (fun s hs => (SessionData.evolves_allowed (h.sessions s hs) _).1.toKeeps)
      fun s hs => SessionData.allowed_freed (h.sessions s hs)
  refine h.queues_same hEnded fun s _ => ?_
  cases s.data with
  | icmp c => rfl
  | udp c =>
      dsimp only [SessionData.allowed]
      split_ifs <;> rfl
  | tcp c =>
      show some (if c.tcp.state ≠ .closing ∧ c.tcp.state ≠ .close then writeRst (kernels s.pointer) c
        else c).tcp.forward = some c.tcp.forward
      split_ifs
      · exact congrArg some (writeRst_tcp c).1
      · rfl

theorem Sound.queues_pass (h : Sound L) (kernels : Nat → Kernel) :
    (L.pass kernels false).queues = L.queues := by
  have hCounted : Sound { L with sessions := L.live } := ⟨h.pointers, h.fresh, h.sessions, h.epoll, h.freed⟩
  have hAfter : Sound (L.pass kernels false) := h.pass kernels false
  refine hCounted.queues_same hAfter fun s _ => ?_
  cases s.data with
  | icmp c => rfl
  | udp c => rfl
  | tcp c => exact congrArg some (step_monitor_forward (kernels s.pointer) c)

/-- The check of a session frees it, or leaves its queue as it is. -/
theorem queue_check (K : Kernel) (sessions maxsessions : Int) (data : SessionData) :
    (data.check K sessions maxsessions).1.queue = data.queue := by
  cases data with
  | icmp c => rfl
  | udp c => rfl
  | tcp c => exact congrArg some (frame_checkTcpSession K 0 sessions maxsessions c).forward

theorem mem_sweptTcp {kernels : Nat → Kernel} {p : Nat} : p ∈ L.sweptTcp kernels ↔
    ∃ c, ⟨p, .tcp c⟩ ∈ (L.pass kernels false).ngSession ∧
      (checkTcpSession (kernels p) L.live L.maxsessions c).2 = true := by
  unfold sweptTcp
  simp only [List.mem_filterMap]
  constructor
  · rintro ⟨⟨q, data⟩, hIn, hEq⟩
    cases data with
    | icmp c => cases hEq
    | udp c => cases hEq
    | tcp c =>
        simp only [Option.ite_none_right_eq_some, Option.some.injEq] at hEq
        obtain ⟨hGone, rfl⟩ := hEq
        exact ⟨c, hIn, hGone⟩
  · rintro ⟨c, hIn, hGone⟩
    exact ⟨_, hIn, if_pos hGone⟩

/-- The sweep takes the queues of the TCP sessions that it frees. -/
theorem Sound.queues_sweep (h : Sound L) (kernels : Nat → Kernel) : (L.pass kernels true).queues =
    fun p => if p ∈ L.sweptTcp kernels then none else L.queues p := by
  have hMonitored : Sound (L.pass kernels false) := h.pass kernels false
  have hAfter : Sound (L.pass kernels true) := h.pass kernels true
  rw [pass_true] at hAfter ⊢
  funext p
  rw [← h.queues_pass kernels, queues, queues, hMonitored.found_update hAfter]
  cases hFound : (L.pass kernels false).found p with
  | none => simp
  | some data =>
      have hIn := hMonitored.found_eq_some_iff.mp hFound
      rw [Option.bind_some, Option.bind_some]
      dsimp only
      by_cases hSwept : p ∈ L.sweptTcp kernels
      · obtain ⟨c, hTcp, hGone⟩ := mem_sweptTcp.mp hSwept
        obtain rfl : data = .tcp c := by
          rw [← hMonitored.found_eq_some_iff, hFound] at hTcp
          exact Option.some.inj hTcp
        rw [if_pos hSwept]
        simp [SessionData.check, hGone]
      · rw [if_neg hSwept]
        cases hGone : (data.check (kernels p) L.live L.maxsessions).2 with
        | false => simp [queue_check]
        | true =>
            cases data with
            | icmp c => simp [SessionData.queue]
            | udp c => simp [SessionData.queue]
            | tcp c => exact absurd (mem_sweptTcp.mpr ⟨c, hIn, hGone⟩) hSwept

/-- No session is named twice. -/
theorem Sound.nodup_pointers (h : Sound L) {names : NgSession → Option Nat}
    (hNames : ∀ s p, names s = some p → p = s.pointer) : (L.ngSession.filterMap names).Nodup := by
  have hSelf : names = fun s => ((names s).map fun _ => s).bind fun s => some s.pointer := by
    funext s
    cases hSome : names s with
    | none => rfl
    | some p => rw [hNames s p hSome]; rfl
  have hKept : Keyed (fun s => some s.pointer) (L.ngSession.filterMap fun s => (names s).map fun _ => s) := by
    refine h.pointers.filterMap fun a _ b hb => ?_
    obtain ⟨-, -, rfl⟩ := Option.map_eq_some_iff.mp hb
    rfl
  unfold Keyed at hKept
  rw [List.filterMap_filterMap] at hKept
  rw [hSelf]
  exact hKept

theorem Sound.nodup_sweptTcp (h : Sound L) (kernels : Nat → Kernel) : (L.sweptTcp kernels).Nodup := by
  refine (h.pass kernels false).nodup_pointers fun s p hp => ?_
  split at hp
  · split_ifs at hp
    exact (Option.some.inj hp).symm
  · cases hp

theorem mem_tcpCells {p : Nat} {c : Cell} : (p, c) ∈ L.tcpCells ↔ ⟨p, .tcp c⟩ ∈ L.ngSession := by
  unfold tcpCells
  rw [List.mem_filterMap]
  constructor
  · rintro ⟨⟨q, data⟩, hIn, hEq⟩
    cases data with
    | icmp c => cases hEq
    | udp c => cases hEq
    | tcp c =>
        cases hEq
        exact hIn
  · exact fun hIn => ⟨_, hIn, rfl⟩

theorem mem_tcpPointers {p : Nat} : p ∈ L.tcpPointers ↔ ∃ c, ⟨p, .tcp c⟩ ∈ L.ngSession := by
  simp only [tcpPointers, List.mem_map, Prod.exists, exists_and_right, exists_eq_right, mem_tcpCells]

theorem Sound.nodup_tcpPointers (h : Sound L) : L.tcpPointers.Nodup := by
  unfold tcpPointers tcpCells
  rw [List.map_filterMap]
  refine h.nodup_pointers fun s p hp => ?_
  obtain ⟨⟨q, c⟩, hCell, rfl⟩ := Option.map_eq_some_iff.mp hp
  split at hCell
  · cases hCell
    rfl
  · cases hCell

theorem Sound.mem_tcpPointers_iff (h : Sound L) {p : Nat} : p ∈ L.tcpPointers ↔ L.queues p ≠ none := by
  rw [mem_tcpPointers, Option.ne_none_iff_exists']
  constructor
  · rintro ⟨c, hIn⟩
    exact ⟨_, h.queues_of_mem hIn⟩
  · rintro ⟨queue, hQueue⟩
    obtain ⟨c, hIn, -⟩ := h.queues_eq_some hQueue
    exact ⟨c, hIn⟩

/-- The event is for a TCP session, or changes no queue. -/
theorem event_cases (h : Sound L) (K : Kernel) (registration : Int × Nat) (ev : EpollEvents) :
    (registration ∈ L.epoll ∧ ∃ p c, L.ngSession.find? (·.pointer = registration.2) = some ⟨p, .tcp c⟩ ∧
        L.event K registration ev = L.store p (.tcp (step c (K, .event ev)))) ∨
      ((∀ p c, registration ∈ L.epoll → L.ngSession.find? (·.pointer = registration.2) ≠ some ⟨p, .tcp c⟩) ∧
        (L.event K registration ev).queues = L.queues) := by
  have hAfter := h.event K registration ev
  unfold EventLoop.event at hAfter ⊢
  by_cases hRegistered : registration ∈ L.epoll
  · simp only [if_pos hRegistered] at hAfter ⊢
    cases hFound : L.ngSession.find? (·.pointer = registration.2) with
    | none => exact Or.inr ⟨by simp, rfl⟩
    | some s =>
        simp only [hFound] at hAfter
        have hIn := List.mem_of_find?_eq_some hFound
        obtain ⟨p, data⟩ := s
        cases data with
        | icmp c => exact Or.inr ⟨by simp, h.queues_store_none hIn hAfter rfl rfl⟩
        | udp c => exact Or.inr ⟨by simp, h.queues_store_none hIn hAfter rfl rfl⟩
        | tcp c => exact Or.inl ⟨hRegistered, p, c, rfl, rfl⟩
  · exact Or.inr ⟨fun _ _ hIn => absurd hIn hRegistered, by rw [if_neg hRegistered]⟩

/-! A step. -/

/-- No queue has more than `k` segments. -/
def Short (L : EventLoop) (k : Nat) : Prop := ∀ p queue, L.queues p = some queue → queue.length ≤ k

/-- What a step loses: the blocks of a SYN with data for which there is no socket. -/
def leaked (L : EventLoop) (input : LoopInput × Nat × Nat) : List Nat :=
  match input.1 with
  | .packet K pkt => match L.syn pkt with
      | some (info, hdr, data) =>
          if newSession K info hdr data = none ∧ data.val ≠ [] then [input.2.1, input.2.2] else []
      | none => []
  | _ => []

theorem Short.mono {k l : Nat} (h : Short L k) (hLe : k ≤ l) : Short L l := fun p queue hQueue =>
  (h p queue hQueue).trans hLe

theorem Short.of_queues {M : EventLoop} {k : Nat} (h : Short L k) (hSame : M.queues = L.queues) : Short M k :=
  fun p queue hQueue => h p queue (hSame ▸ hQueue)

theorem Short.of_update {M : EventLoop} {k p : Nat} {queue : List Segment} (h : Short L k)
    (hQueues : M.queues = Function.update L.queues p (some queue)) (hQueue : queue.length ≤ k + 1) :
    Short M (k + 1) := by
  intro q other hq
  rw [hQueues] at hq
  by_cases hSame : q = p
  · subst hSame
    rw [Function.update_self, Option.some.injEq] at hq
    exact hq ▸ hQueue
  · rw [Function.update_of_ne hSame] at hq
    exact (h q other hq).trans (Nat.le_succ k)

theorem length_newSession {info : SynInfo} {hdr : TcpHdr} {data : Payload} {c : Cell}
    (hNew : newSession K info hdr data = some c) : c.tcp.forward.length ≤ 1 := by
  obtain ⟨-, -, window, hTcp⟩ := newSession_eq hNew
  rw [hTcp]
  unfold synSession
  dsimp only
  split_ifs
  · exact le_rfl
  · exact Nat.zero_le 1

/-- A step makes a queue longer by one segment at most. -/
theorem Sound.short_step (h : Sound L) {k : Nat} (hShort : Short L k) (input : LoopInput) :
    Short (stepLoop L input) (k + 1) := by
  have hSame : ∀ M : EventLoop, M.queues = L.queues → Short M (k + 1) := fun M hQueues =>
    (hShort.of_queues hQueues).mono (Nat.le_succ k)
  have hStep : ∀ p c i, ⟨p, .tcp c⟩ ∈ L.ngSession → Short (L.store p (.tcp (Tun2Http.step c i))) (k + 1) := by
    intro p c i hIn
    have hAfter : Sound (L.store p (.tcp (Tun2Http.step c i))) :=
      h.store (s := ⟨p, .tcp c⟩) hIn (SessionData.keeps_step (h.sessions _ hIn) i)
    refine hShort.of_update (h.queues_store (s := ⟨p, .tcp c⟩) hIn hAfter) ?_
    have hBefore := hShort p c.tcp.forward (h.queues_of_mem hIn)
    exact (length_forward_step c i).trans (Nat.succ_le_succ hBefore)
  cases input with
  | start kernels fwd53 maxsessions => exact hSame _ (h.queues_start kernels fwd53 maxsessions)
  | pass kernels check =>
      cases check with
      | false => exact hSame _ (h.queues_pass kernels)
      | true =>
          intro p queue hQueue
          have hSweep : (L.pass kernels true).queues p = some queue := hQueue
          rw [h.queues_sweep, Option.ite_none_left_eq_some] at hSweep
          exact (hShort p queue hSweep.2).trans (Nat.le_succ k)
  | packet K pkt =>
      rcases packet_cases h K pkt with ⟨found, -, -, hIn, hStore⟩ | ⟨-, syn, -, hOpened⟩ | ⟨-, -, hQueues⟩
      · show Short (L.handleIp K pkt) (k + 1)
        rw [hStore]
        exact hStep _ _ _ hIn
      · show Short (L.handleIp K pkt) (k + 1)
        unfold Opened at hOpened
        split at hOpened
        · rename_i c hNew
          rw [hOpened]
          refine hShort.of_update (queues_register ..) ?_
          exact (length_newSession hNew).trans (Nat.succ_le_succ (Nat.zero_le k))
        · exact hSame _ (congrArg queues hOpened)
      · exact hSame _ hQueues
  | event K registration ev =>
      rcases event_cases h K registration ev with ⟨-, p, c, hFound, hStore⟩ | ⟨-, hQueues⟩
      · show Short (L.event K registration ev) (k + 1)
        rw [hStore]
        exact hStep _ _ _ (List.mem_of_find?_eq_some hFound)
      · exact hSame _ hQueues
  | clear => exact fun p queue hQueue => by cases hQueue

/-- A step of a session, on the heap. -/
theorem Sound.laid_treat {W : Blocks} {places : Nat → List Located} {lost : List Nat} {k turns p : Nat} {c : Cell}
    (h : Sound L) (hLaid : Laid W L.queues places lost) (hShort : Short L k) (hTurns : k < turns)
    (hIn : ⟨p, .tcp c⟩ ∈ L.ngSession) (i : Kernel × Input) (n d : Nat) :
    (∃ fault, W.treat turns n d p c i = .error fault ∧
      (OutOfBlocks W.heap n d fault ∨ fault = .access ∧ Tun2Http.Overreads c i)) ∨
      ∃ V later, W.treat turns n d p c i = .ok V ∧
        Laid V (L.store p (.tcp (Tun2Http.step c i))).queues later (lost ++ []) := by
  have hQueue : L.queues p = some c.tcp.forward := h.queues_of_mem hIn
  have hAfter : Sound (L.store p (.tcp (Tun2Http.step c i))) :=
    h.store (s := ⟨p, .tcp c⟩) hIn (SessionData.keeps_step (h.sessions _ hIn) i)
  rw [h.queues_store (s := ⟨p, .tcp c⟩) hIn hAfter, List.append_nil]
  exact hLaid.treat hQueue ((hShort p _ hQueue).trans_lt hTurns) n d i

/-- A pass looks at the queues, and leaves them as they are. -/
theorem Sound.monitorBlocks_eq {W : Blocks} {places : Nat → List Located} {lost : List Nat} (h : Sound L)
    (hLaid : Laid W L.queues places lost) (turns n d : Nat) (kernels : Nat → Kernel) :
    L.monitorBlocks turns n d kernels W = .ok W := by
  have hOne : ∀ s ∈ L.tcpCells, W.treat turns n d s.1 s.2 (kernels s.1, .monitor) = .ok W := by
    intro s hs
    obtain ⟨hPlaced, hSeg⟩ := hLaid.placed s.1 _ (h.queues_of_mem (mem_tcpCells.mp hs))
    unfold Blocks.treat
    rw [stepHeap_monitor hPlaced hSeg, ok_bind]
    dsimp only
    rw [Function.update_eq_self]
  unfold monitorBlocks
  generalize L.tcpCells = cells at hOne
  induction cells with
  | nil => rfl
  | cons s rest ih =>
      rw [List.foldlM_cons, hOne s (List.mem_cons_self ..), ok_bind]
      exact ih fun t ht => hOne t (List.mem_cons_of_mem _ ht)

/-- The queues of the sessions that the sweep frees. -/
theorem Sound.laid_sweep {W : Blocks} {places : Nat → List Located} {lost : List Nat} {k turns : Nat}
    (h : Sound L) (hLaid : Laid W L.queues places lost) (hShort : Short L k) (hTurns : k < turns)
    (kernels : Nat → Kernel) : ∃ V later, (L.sweptTcp kernels).foldlM (Blocks.clear turns) W = .ok V ∧
      Laid V (stepLoop L (.pass kernels true)).queues later (lost ++ []) := by
  obtain ⟨V, later, hOk, hCleared⟩ := hLaid.clearAll (h.nodup_sweptTcp kernels) fun p hp => by
    obtain ⟨c, hIn, -⟩ := mem_sweptTcp.mp hp
    have hQueue : L.queues p = some c.tcp.forward := by
      rw [← h.queues_pass kernels]
      exact (h.pass kernels false).queues_of_mem hIn
    exact ⟨_, hQueue, (hShort p _ hQueue).trans_lt hTurns⟩
  rw [← h.queues_sweep kernels, ← List.append_nil lost] at hCleared
  exact ⟨V, later, hOk, hCleared⟩

/-- A SYN of no session: its queue is that of the new session, or is lost. -/
theorem Sound.laid_opened {W : Blocks} {places : Nat → List Located} {lost : List Nat} {K : Kernel}
    {info : SynInfo} {hdr : TcpHdr} {data : Payload} {M : EventLoop} (h : Sound L)
    (hLaid : Laid W L.queues places lost) (hOpened : L.Opened K (info, hdr, data) M) {turns : Nat}
    (hTurns : 1 < turns) (n d : Nat) :
    (∃ fault, W.openTcp turns n d L.next K info hdr data = .error fault ∧ OutOfBlocks W.heap n d fault) ∨
      ∃ V later, W.openTcp turns n d L.next K info hdr data = .ok V ∧ Laid V M.queues later
        (lost ++ if newSession K info hdr data = none ∧ data.val ≠ [] then [n, d] else []) := by
  rcases hLaid.openTcp h.queues_next hTurns n d K info hdr data with hFault | ⟨V, later, hOk, hResult⟩
  · exact Or.inl hFault
  · refine Or.inr ⟨V, later, hOk, ?_⟩
    unfold Opened at hOpened
    dsimp only at hOpened
    cases hNew : newSession K info hdr data with
    | some c =>
        rw [hNew] at hOpened hResult
        dsimp only at hOpened hResult
        rw [hOpened, queues_register, if_neg (fun hBoth => nomatch hBoth.1), List.append_nil]
        exact hResult
    | none =>
        rw [hNew] at hOpened hResult
        dsimp only at hOpened hResult
        rw [hOpened]
        simpa using hResult

/-- `clear` frees every queue. -/
theorem Sound.laid_clear {W : Blocks} {places : Nat → List Located} {lost : List Nat} {k turns : Nat}
    (h : Sound L) (hLaid : Laid W L.queues places lost) (hShort : Short L k) (hTurns : k < turns) :
    ∃ V later, L.tcpPointers.foldlM (Blocks.clear turns) W = .ok V ∧
      Laid V (stepLoop L .clear).queues later (lost ++ []) := by
  obtain ⟨V, later, hOk, hCleared⟩ := hLaid.clearAll h.nodup_tcpPointers fun p hp => by
    obtain ⟨queue, hQueue⟩ := Option.ne_none_iff_exists'.mp (h.mem_tcpPointers_iff.mp hp)
    exact ⟨queue, hQueue, (hShort p queue hQueue).trans_lt hTurns⟩
  have hNone : (fun p => if p ∈ L.tcpPointers then none else L.queues p) = (stepLoop L .clear).queues := by
    funext p
    show _ = none
    split_ifs with hIn
    · rfl
    · exact not_not.mp (mt h.mem_tcpPointers_iff.mpr hIn)
  rw [hNone, ← List.append_nil lost] at hCleared
  exact ⟨V, later, hOk, hCleared⟩

/-- A socket is written to, and `patch_http_url` looks behind the block of a request. -/
def Overreads (L : EventLoop) : LoopInput → Prop
  | .event K registration ev => registration ∈ L.epoll ∧ ∃ p c,
      L.ngSession.find? (·.pointer = registration.2) = some ⟨p, .tcp c⟩ ∧ Tun2Http.Overreads c (K, .event ev)
  | _ => False

/-- A step does to the blocks what it does to the queues, and touches no others. -/
theorem Sound.laid_step {W : Blocks} {places : Nat → List Located} {lost : List Nat} {k turns : Nat}
    (h : Sound L) (hLaid : Laid W L.queues places lost) (hShort : Short L k) (hTurns : k + 1 < turns)
    (input : LoopInput) (n d : Nat) :
    (∃ fault, L.stepBlocks turns n d W input = .error fault ∧
      (OutOfBlocks W.heap n d fault ∨ fault = .access ∧ L.Overreads input)) ∨
      ∃ V later, L.stepBlocks turns n d W input = .ok V ∧
        Laid V (stepLoop L input).queues later (lost ++ L.leaked (input, n, d)) := by
  have hSame : ∀ M : EventLoop, M.queues = L.queues → Laid W M.queues places (lost ++ []) := by
    intro M hQueues
    rw [hQueues, List.append_nil]
    exact hLaid
  have hMore : k < turns := (Nat.lt_succ_self k).trans hTurns
  cases input with
  | start kernels fwd53 maxsessions =>
      exact Or.inr ⟨W, places, rfl, hSame _ (h.queues_start kernels fwd53 maxsessions)⟩
  | pass kernels check =>
      refine Or.inr ?_
      unfold stepBlocks
      dsimp only
      rw [h.monitorBlocks_eq hLaid, ok_bind]
      cases check with
      | false => exact ⟨W, places, rfl, hSame _ (h.queues_pass kernels)⟩
      | true => exact h.laid_sweep hLaid hShort hMore kernels
  | packet K pkt =>
      unfold stepBlocks leaked
      dsimp only
      rcases packet_cases h K pkt with ⟨found, hSegment, hSyn, hIn, hStore⟩ | ⟨hSegment, syn, hSyn, hOpened⟩ |
        ⟨hSegment, hSyn, hQueues⟩
      · rw [hSegment, hSyn, show stepLoop L (.packet K pkt) = _ from hStore]
        rcases h.laid_treat hLaid hShort hMore hIn _ n d with ⟨fault, hFault, hRefused | ⟨-, hScan⟩⟩ | hDone
        · exact Or.inl ⟨fault, hFault, Or.inl hRefused⟩
        · exact absurd hScan (not_overreads_segment _ _ _ _)
        · exact Or.inr hDone
      · rw [hSegment, hSyn]
        rcases h.laid_opened hLaid hOpened (by omega : 1 < turns) n d with ⟨fault, hFault, hRefused⟩ | hDone
        · exact Or.inl ⟨fault, hFault, Or.inl hRefused⟩
        · exact Or.inr hDone
      · rw [hSegment, hSyn]
        exact Or.inr ⟨W, places, rfl, hSame _ hQueues⟩
  | event K registration ev =>
      unfold stepBlocks
      dsimp only
      rcases event_cases h K registration ev with ⟨hRegistered, p, c, hFound, hStore⟩ | ⟨hNone, hQueues⟩
      · rw [if_pos hRegistered, hFound, show stepLoop L (.event K registration ev) = _ from hStore]
        rcases h.laid_treat hLaid hShort hMore (List.mem_of_find?_eq_some hFound) _ n d with
          ⟨fault, hFault, hRefused | ⟨hAccess, hScan⟩⟩ | hDone
        · exact Or.inl ⟨fault, hFault, Or.inl hRefused⟩
        · exact Or.inl ⟨fault, hFault, Or.inr ⟨hAccess, hRegistered, p, c, hFound, hScan⟩⟩
        · exact Or.inr hDone
      · refine Or.inr ⟨W, places, ?_, hSame _ hQueues⟩
        split_ifs with hRegistered
        · split
          · rename_i p c hFound
            exact absurd hFound (hNone p c hRegistered)
          · rfl
        · rfl
  | clear => exact Or.inr (h.laid_clear hLaid hShort hMore)

end EventLoop

/-- The blocks of failed set-ups that a run has lost. -/
def leaks (inputs : List (LoopInput × Nat × Nat)) : List Nat :=
  history (fun L input => stepLoop L input.1) (fun L input _ => L.leaked input) () .init inputs

/-- Up to some step the run goes well, and `stops` holds of that one. -/
def Stops (turns : Nat) (S : EventLoop × Blocks) (inputs : List (LoopInput × Nat × Nat))
    (stops : EventLoop × Blocks → LoopInput × Nat × Nat → Prop) : Prop :=
  ∃ before input after T, inputs = before ++ input :: after ∧
    before.foldlM (stepMemory turns) S = .ok T ∧ stops T input

/-- The run has come to a step in which `malloc` has not returned blocks that are free. -/
def RanOut (turns : Nat) (S : EventLoop × Blocks) (inputs : List (LoopInput × Nat × Nat)) : Prop :=
  Stops turns S inputs fun T input => Occupied T.2.heap input.2.1 input.2.2

/-- The run has come to a step in which `patch_http_url` looks behind a block. -/
def Overran (turns : Nat) (S : EventLoop × Blocks) (inputs : List (LoopInput × Nat × Nat)) : Prop :=
  Stops turns S inputs fun T input => T.1.Overreads input.1

theorem Stops.cons {turns : Nat} {S T : EventLoop × Blocks} {input : LoopInput × Nat × Nat}
    {rest : List (LoopInput × Nat × Nat)} {stops : EventLoop × Blocks → LoopInput × Nat × Nat → Prop}
    (hFirst : stepMemory turns S input = .ok T) (h : Stops turns T rest stops) :
    Stops turns S (input :: rest) stops := by
  obtain ⟨before, last, after, U, rfl, hBefore, hStops⟩ := h
  refine ⟨input :: before, last, after, U, rfl, ?_, hStops⟩
  rw [List.foldlM_cons, hFirst]
  exact hBefore

theorem EventLoop.Sound.laid_run {inputs : List (LoopInput × Nat × Nat)} {k turns : Nat} {L : EventLoop}
    {W : Blocks} {places : Nat → List Located} {lost : List Nat} (h : L.Sound) (hShort : L.Short k)
    (hTurns : k + inputs.length < turns) (hLaid : Laid W L.queues places lost) :
    let ending := inputs.foldlM (stepMemory turns) (L, W)
    (ending = .error .malloc ∧ RanOut turns (L, W) inputs) ∨
    (ending = .error .access ∧ Overran turns (L, W) inputs) ∨
      ∃ V later, ending = .ok (run stepLoop L (inputs.map Prod.fst), V) ∧
        Laid V (run stepLoop L (inputs.map Prod.fst)).queues later
          (lost ++ history (fun L input => stepLoop L input.1) (fun L input _ => L.leaked input) () L inputs) := by
  induction inputs generalizing k L W places lost with
  | nil => exact Or.inr (Or.inr ⟨W, places, rfl, by rwa [history_nil, List.append_nil]⟩)
  | cons input rest ih =>
      rw [List.length_cons] at hTurns
      obtain ⟨i, n, d⟩ := input
      have hStep : stepMemory turns (L, W) (i, n, d) =
          (L.stepBlocks turns n d W i).bind fun V => .ok (stepLoop L i, V) := rfl
      dsimp only
      rw [List.foldlM_cons]
      rcases h.laid_step hLaid hShort (by omega : k + 1 < turns) i n d with
        ⟨fault, hFault, ⟨rfl, hRefused⟩ | ⟨rfl, hScan⟩⟩ | ⟨V, later, hOk, hNext⟩
      · rw [hStep, hFault]
        exact Or.inl ⟨rfl, [], _, rest, _, rfl, rfl, hRefused⟩
      · rw [hStep, hFault]
        exact Or.inr (Or.inl ⟨rfl, [], _, rest, _, rfl, rfl, hScan⟩)
      · rw [hOk] at hStep
        have hFirst : stepMemory turns (L, W) (i, n, d) = .ok (stepLoop L i, V) := hStep
        rw [hFirst]
        rcases ih (h.step i) (h.short_step hShort i) (by omega) hNext with
          ⟨hFault, hStops⟩ | ⟨hFault, hStops⟩ | ⟨U, last, hEnd, hLast⟩
        · exact Or.inl ⟨hFault, hStops.cons hFirst⟩
        · exact Or.inr (Or.inl ⟨hFault, hStops.cons hFirst⟩)
        · refine Or.inr (Or.inr ⟨U, last, hEnd, ?_⟩)
          rw [history_cons, ← List.append_assoc]
          exact hLast

/-- A run of the loop on the heap finds there what the loop with its lists has found. As long
as `malloc` returns blocks that are free, and no scan of `patch_http_url` leaves its block,
it touches no block that is not allocated, and frees none twice. What is allocated at the
end is what the queues of the sessions have, which lie apart from each other, and what failed
set-ups have lost; where no queue is left, it is only that. -/
theorem heap_follows_queues (inputs : List (LoopInput × Nat × Nat)) (extra : Nat) :
    let turns := inputs.length + 1 + extra
    let ending := inputs.foldlM (stepMemory turns) (.init, .init)
    let L := run stepLoop .init (inputs.map Prod.fst)
    (ending = .error .malloc ∧ RanOut turns (.init, .init) inputs) ∨
    (ending = .error .access ∧ Overran turns (.init, .init) inputs) ∨
      ∃ W places, ending = .ok (L, W) ∧ Laid W L.queues places (leaks inputs) ∧
        ((∀ p, L.queues p = none) → ∀ a, W.heap a ≠ none ↔ a ∈ leaks inputs) := by
  intro turns ending L
  have hEmpty : EventLoop.Short .init 0 := fun p queue hQueue => by cases hQueue
  have hTurns : 0 + inputs.length < turns := by omega
  rcases EventLoop.sound_init.laid_run hEmpty hTurns laid_init with hFault | hFault | ⟨W, places, hOk, hLaid⟩
  · exact Or.inl hFault
  · exact Or.inr (Or.inl hFault)
  · refine Or.inr (Or.inr ⟨W, places, hOk, hLaid, fun hNone a => ?_⟩)
    rw [hLaid.owned.held]
    constructor
    · rintro ⟨k, hIn⟩
      cases k with
      | none => exact hIn
      | some p =>
          rw [holders, hLaid.others p (hNone p)] at hIn
          exact absurd hIn List.not_mem_nil
    · exact fun hIn => ⟨none, hIn⟩

end Tun2Http
