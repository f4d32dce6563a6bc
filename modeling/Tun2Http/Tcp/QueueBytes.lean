import Mathlib.Data.Set.Basic
import Tun2Http.Machine.SerialNumber
import Tun2Http.Native.TcpRun

/-! The bytes that the forward queue holds, each with its sequence number, and
what `queue_tcp` adds to them. -/
namespace Tun2Http

open Machine.SerialNumber

/-- The bytes of a block that starts at `seq`, each with its number. -/
def numbered (seq : U32) (bytes : List UInt8) : Set (U32 × UInt8) :=
  {p | ∃ i, bytes[i]? = some p.2 ∧ p.1 = seq + BitVec.ofNat 32 i}

/-- The bytes of the segments, as far as their lengths say. -/
def held (queue : List Segment) : Set (U32 × UInt8) :=
  {p | ∃ seg ∈ queue, p ∈ numbered seg.seq (seg.data.take seg.len)}

/-- The segment has data, and its length is that of its block. -/
structure Segment.Whole (seg : Segment) : Prop where
  nonempty : 0 < seg.len
  stored : seg.len = seg.data.length

/-- From `c` to `d` the queue got the bytes of the packet, and stays whole. -/
structure KeepsBytes (hdr : TcpHdr) (data : Payload) (c d : Cell) : Prop where
  whole : ∀ seg ∈ d.tcp.forward, seg.Whole
  held : held d.tcp.forward = held c.tcp.forward ∪ numbered hdr.seq data.val
  empty : data.val = [] → d.tcp.forward = c.tcp.forward

/-- Where packet and queue overlap they have the same bytes. -/
def Agrees (hdr : TcpHdr) (data : Payload) (queue : List Segment) : Prop :=
  ∀ p ∈ held queue, ∀ q ∈ numbered hdr.seq data.val, p.1 = q.1 → p.2 = q.2

/-- The segment before which the walk through the queue ends. -/
def walkEnd (seq : U32) (queue : List Segment) : Option Segment :=
  queue.find? fun s => ¬ compareU32 s.seq seq < 0

/-- There is a place for the packet: a segment of its start that is not shorter, or
a gap that gets data. -/
def Place (hdr : TcpHdr) (data : Payload) (queue : List Segment) : Prop :=
  match walkEnd hdr.seq queue with
  | some s => if s.seq = hdr.seq then data.val.length ≤ s.len else data.val ≠ []
  | none => data.val ≠ []

/-- What `queue_tcp` drops is known, and what it does not drop has a place. -/
def Queueable (hdr : TcpHdr) (data : Payload) (t : TcpSession) : Prop :=
  if compareU32 hdr.seq t.remoteSeq < 0 then numbered hdr.seq data.val ⊆ held t.forward
  else Place hdr data t.forward

variable {hdr : TcpHdr} {data : Payload} {queue : List Segment} {seg : Segment} {c : Cell}

@[simp] theorem held_nil : held [] = ∅ := by
  ext p
  simp [held]

theorem held_cons (seg : Segment) (rest : List Segment) :
    held (seg :: rest) = numbered seg.seq (seg.data.take seg.len) ∪ held rest := by
  ext p
  simp [held]

theorem held_append (front rest : List Segment) : held (front ++ rest) = held front ∪ held rest := by
  ext p
  simp only [held, List.mem_append, Set.mem_union, Set.mem_ofPred_eq, or_and_right, exists_or]

/-- A whole segment holds its block. -/
theorem Segment.Whole.numbered_eq (h : seg.Whole) :
    numbered seg.seq (seg.data.take seg.len) = numbered seg.seq seg.data := by
  rw [h.stored, List.take_length]

/-- The segment of a packet holds the packet. -/
theorem numbered_ofPayload (seq : U32) (psh : Bool) (data : Payload) :
    numbered (Segment.ofPayload seq psh data).seq
      ((Segment.ofPayload seq psh data).data.take (Segment.ofPayload seq psh data).len) =
      numbered seq data.val := by
  simp [Segment.ofPayload]

theorem whole_ofPayload_iff (seq : U32) (psh : Bool) (data : Payload) :
    (Segment.ofPayload seq psh data).Whole ↔ data.val ≠ [] := by
  constructor
  · intro h hNil
    have := h.nonempty
    simp [Segment.ofPayload, hNil] at this
  · intro hSome
    exact ⟨List.length_pos_iff.mpr hSome, rfl⟩

/-- A packet that is not longer than a segment of its start brings nothing new. -/
theorem numbered_subset (hAgrees : Agrees hdr data queue) (hMem : seg ∈ queue) (hWhole : seg.Whole)
    (hSeq : seg.seq = hdr.seq) (hShort : data.val.length ≤ seg.len) :
    numbered hdr.seq data.val ⊆ held queue := by
  rintro ⟨number, byte⟩ ⟨i, hByte, hNumber⟩
  have hIndex : i < data.val.length := (List.getElem?_eq_some_iff.mp hByte).1
  have hStored : i < seg.data.length := by
    rw [← hWhole.stored]
    omega
  have hOld : (number, seg.data[i]) ∈ held queue := by
    refine ⟨seg, hMem, ?_⟩
    rw [hWhole.numbered_eq]
    exact ⟨i, List.getElem?_eq_getElem hStored, hSeq ▸ hNumber⟩
  have hSame : seg.data[i] = byte := hAgrees _ hOld (number, byte) ⟨i, hByte, hNumber⟩ rfl
  rwa [hSame] at hOld

/-! The walk. -/

/-- The packet goes behind the segments before its start. -/
theorem insertSegment_append (hdr : TcpHdr) (data : Payload) {front : List Segment}
    (hFront : ∀ s ∈ front, compareU32 s.seq hdr.seq < 0) (rest : List Segment) :
    insertSegment hdr data (front ++ rest) = front ++ insertSegment hdr data rest := by
  induction front with
  | nil => rfl
  | cons s front ih =>
      rw [List.cons_append, insertSegment, if_pos (hFront s (List.mem_cons_self ..)),
        ih fun t ht => hFront t (List.mem_cons_of_mem _ ht)]
      rfl

/-- The queue, cut where the walk ends. -/
theorem exists_walk (seq : U32) (queue : List Segment) : ∃ front rest, queue = front ++ rest ∧
    (∀ s ∈ front, compareU32 s.seq seq < 0) ∧ walkEnd seq queue = rest.head? ∧
      ∀ s ∈ rest.head?, ¬ compareU32 s.seq seq < 0 := by
  induction queue with
  | nil => exact ⟨[], [], rfl, by simp, rfl, by simp⟩
  | cons s queue ih =>
      by_cases hBefore : compareU32 s.seq seq < 0
      · obtain ⟨front, rest, rfl, hFront, hEnd, hHead⟩ := ih
        refine ⟨s :: front, rest, rfl, ?_, ?_, hHead⟩
        · exact List.forall_mem_cons.mpr ⟨hBefore, hFront⟩
        · rw [← hEnd]
          simp [walkEnd, hBefore]
      · exact ⟨[], s :: queue, rfl, by simp, by simp [walkEnd, not_lt.mp hBefore], by simpa using hBefore⟩

/-- Where the walk ends at a later start, or at the end, the packet is inserted. -/
theorem insertSegment_gap {rest : List Segment}
    (hRest : ∀ s ∈ rest.head?, ¬ compareU32 s.seq hdr.seq < 0 ∧ s.seq ≠ hdr.seq) :
    insertSegment hdr data rest = Segment.ofPayload hdr.seq hdr.psh data :: rest := by
  cases rest with
  | nil => rfl
  | cons s rest =>
      obtain ⟨hNot, hNe⟩ := hRest s rfl
      have hAfter : compareU32 s.seq hdr.seq > 0 :=
        lt_of_le_of_ne (not_lt.mp hNot) fun hEq => hNe (compareU32_eq_zero_iff.mp hEq.symm)
      rw [insertSegment, if_neg hNot, if_pos hAfter]

/-- A segment of the same start keeps its length. A longer packet takes its block. -/
theorem insertSegment_same {s : Segment} {rest : List Segment} (hSeq : s.seq = hdr.seq) :
    insertSegment hdr data (s :: rest) =
      if h : s.len < data.val.length then s.replaceData data h :: rest else s :: rest := by
  have hZero : compareU32 s.seq hdr.seq = 0 := compareU32_eq_zero_iff.mpr hSeq
  rw [insertSegment, if_neg (by omega), if_neg (by omega), if_pos hSeq]
  by_cases hSame : s.len = data.val.length
  · rw [if_pos hSame, dif_neg (by omega)]
  · rw [if_neg hSame]

/-- Data in a gap is kept; an empty packet leaves an empty segment. -/
theorem keeps_gap_iff {front rest : List Segment} (hWhole : ∀ seg ∈ front ++ rest, seg.Whole)
    (hQueue : c.tcp.forward = front ++ rest) :
    KeepsBytes hdr data c
      (c.setForward (front ++ Segment.ofPayload hdr.seq hdr.psh data :: rest)) ↔ data.val ≠ [] := by
  constructor
  · intro h
    have hNew := h.whole (Segment.ofPayload hdr.seq hdr.psh data) (by simp)
    exact (whole_ofPayload_iff _ _ _).mp hNew
  · intro hSome
    refine ⟨?_, ?_, fun hNil => absurd hNil hSome⟩
    · intro seg hSeg
      simp only [Cell.setForward_tcp, List.mem_append, List.mem_cons] at hSeg hWhole
      rcases hSeg with hFront | rfl | hRest
      · exact hWhole seg (Or.inl hFront)
      · exact (whole_ofPayload_iff _ _ _).mpr hSome
      · exact hWhole seg (Or.inr hRest)
    · rw [hQueue, Cell.setForward_tcp]
      dsimp only
      rw [held_append, held_append, held_cons, numbered_ofPayload, Set.union_assoc,
        Set.union_comm (held rest)]

/-- An unchanged queue keeps the packet where it has its bytes. -/
theorem keeps_same_iff {d : Cell} (hWhole : ∀ seg ∈ c.tcp.forward, seg.Whole)
    (hSame : d.tcp.forward = c.tcp.forward) :
    KeepsBytes hdr data c d ↔ numbered hdr.seq data.val ⊆ held c.tcp.forward := by
  constructor
  · intro h
    have hHeld := h.held
    rw [hSame] at hHeld
    exact Set.union_eq_left.mp hHeld.symm
  · intro hSubset
    refine ⟨?_, ?_, fun _ => hSame⟩
    · rwa [hSame]
    · rw [hSame, Set.union_eq_left.mpr hSubset]

/-- A block that is exchanged is longer than its segment. -/
theorem not_whole_replaceData {s : Segment} (h : s.len < data.val.length) :
    ¬ (s.replaceData data h).Whole := by
  intro hWhole
  exact absurd hWhole.stored (ne_of_lt h)

theorem keeps_insertSegment_iff (hWhole : ∀ seg ∈ c.tcp.forward, seg.Whole)
    (hAgrees : Agrees hdr data c.tcp.forward) :
    KeepsBytes hdr data c (c.setForward (insertSegment hdr data c.tcp.forward)) ↔
      Place hdr data c.tcp.forward := by
  obtain ⟨front, rest, hQueue, hFront, hEnd, hHead⟩ := exists_walk hdr.seq c.tcp.forward
  have hCut : insertSegment hdr data c.tcp.forward = front ++ insertSegment hdr data rest := by
    rw [hQueue]
    exact insertSegment_append hdr data hFront rest
  unfold Place
  rw [hEnd, hCut]
  cases rest with
  | nil =>
      rw [insertSegment_gap (by simp)]
      exact keeps_gap_iff (hQueue ▸ hWhole) hQueue
  | cons s rest =>
      have hNot := hHead s rfl
      simp only [List.head?_cons]
      by_cases hSeq : s.seq = hdr.seq
      · rw [if_pos hSeq, insertSegment_same hSeq]
        have hMem : s ∈ c.tcp.forward := by
          rw [hQueue]
          simp
        by_cases hSmaller : s.len < data.val.length
        · rw [dif_pos hSmaller]
          refine iff_of_false (fun h => ?_) (by omega)
          exact not_whole_replaceData hSmaller (h.whole _ (by simp))
        · rw [dif_neg hSmaller, keeps_same_iff hWhole hQueue.symm]
          have hShort := not_lt.mp hSmaller
          exact iff_of_true (numbered_subset hAgrees hMem (hWhole s hMem) hSeq hShort) hShort
      · rw [if_neg hSeq, insertSegment_gap (by simpa using ⟨not_lt.mp hNot, hSeq⟩)]
        exact keeps_gap_iff (hQueue ▸ hWhole) hQueue

/-- Two packets of the same start agree, where one is the beginning of the other. -/
theorem agrees_of_prefix {old : Payload} {psh : Bool} (hPrefix : old.val <+: data.val ∨ data.val <+: old.val) :
    Agrees hdr data [Segment.ofPayload hdr.seq psh old] := by
  rintro ⟨number, byte⟩ hOld ⟨number', byte'⟩ ⟨j, hByte', hNumber'⟩ hSame
  rw [held_cons, numbered_ofPayload, held_nil, Set.union_empty] at hOld
  obtain ⟨i, hByte, hNumber⟩ := hOld
  have hi : i < old.val.length := (List.getElem?_eq_some_iff.mp hByte).1
  have hj : j < data.val.length := (List.getElem?_eq_some_iff.mp hByte').1
  have hOldBound := old.property
  have hBound := data.property
  have hIndex : i = j := by
    simp only at hNumber hNumber' hSame
    rw [hNumber, hNumber'] at hSame
    bv_omega
  subst hIndex
  rcases hPrefix with ⟨tail, hTail⟩ | ⟨tail, hTail⟩
  · rw [← hTail, List.getElem?_append_left hi, hByte] at hByte'
    exact Option.some.inj hByte'
  · rw [← hTail, List.getElem?_append_left hj, hByte'] at hByte
    exact (Option.some.inj hByte).symm

/-- `queue_tcp` keeps every byte of a packet exactly where it has a place for
it, or drops it and had its bytes. -/
theorem queue_keeps_bytes_iff (hdr : TcpHdr) (data : Payload) (c : Cell)
    (hWhole : ∀ seg ∈ c.tcp.forward, seg.Whole) (hAgrees : Agrees hdr data c.tcp.forward) :
    KeepsBytes hdr data c (queueTcp hdr data c) ↔ Queueable hdr data c.tcp := by
  unfold queueTcp Queueable
  split_ifs with hStale
  · exact keeps_same_iff hWhole rfl
  · exact keeps_insertSegment_iff hWhole hAgrees

/-- The first byte comes again where two are queued. -/
theorem queue_keeps_bytes_iff_again :
    let hdr := clientSegment 443 3 1001
    let old : Payload := ⟨[104, 105], by decide⟩
    let data : Payload := ⟨[104], by decide⟩
    let c := queueTcp hdr old (clientCell 443 .empty)
    c.tcp.forward = [Segment.ofPayload hdr.seq hdr.psh old] ∧ KeepsBytes hdr data c (queueTcp hdr data c) := by
  intro hdr old data c
  have hQueue : c.tcp.forward = [Segment.ofPayload hdr.seq hdr.psh old] := by
    simp only [c, queueTcp, if_neg (show ¬ compareU32 hdr.seq (clientCell 443 .empty).tcp.remoteSeq < 0 by decide)]
    rfl
  have hFresh : ¬ compareU32 hdr.seq c.tcp.remoteSeq < 0 := by decide
  clear_value c
  have hWhole : ∀ seg ∈ c.tcp.forward, seg.Whole := by
    rw [hQueue]
    exact List.forall_mem_singleton.mpr ((whole_ofPayload_iff _ _ _).mpr (List.cons_ne_nil _ _))
  have hAgrees : Agrees hdr data c.tcp.forward := by
    rw [hQueue]
    exact agrees_of_prefix (Or.inr ⟨[105], rfl⟩)
  have hEnd : walkEnd hdr.seq c.tcp.forward = some (Segment.ofPayload hdr.seq hdr.psh old) := by
    rw [hQueue]
    rfl
  have hPlace : Queueable hdr data c.tcp := by
    rw [Queueable, if_neg hFresh, Place, hEnd]
    exact (if_pos rfl).mpr (by decide : 1 ≤ 2)
  exact ⟨hQueue, (queue_keeps_bytes_iff hdr data c hWhole hAgrees).mpr hPlace⟩

/-- Three bytes arrive where the first two are queued: the third one is lost. And a
packet without data, which the CONNECT phase queues, leaves an empty segment. -/
theorem queue_loses_bytes :
    let hdr := clientSegment 443 3 1001
    let old : Payload := ⟨[104, 105], by decide⟩
    let data : Payload := ⟨[104, 105, 106], by decide⟩
    let c := queueTcp hdr old (clientCell 443 .empty)
    (∀ seg ∈ c.tcp.forward, seg.Whole) ∧ Agrees hdr data c.tcp.forward ∧
      ¬ Before hdr.seq c.tcp.remoteSeq ∧ ¬ KeepsBytes hdr data c (queueTcp hdr data c) ∧
      ¬ KeepsBytes hdr .empty (clientCell 443 .empty)
        (queueTcp hdr .empty (clientCell 443 .empty)) := by
  intro hdr old data c
  have hFresh : ¬ compareU32 hdr.seq (clientCell 443 .empty).tcp.remoteSeq < 0 := by decide
  have hQueue : c.tcp.forward = [Segment.ofPayload hdr.seq hdr.psh old] := by
    simp only [c, queueTcp, if_neg hFresh]
    rfl
  rw [hQueue]
  refine ⟨?_, agrees_of_prefix (Or.inl ⟨[106], rfl⟩), by decide, fun h => ?_, fun h => ?_⟩
  · exact List.forall_mem_singleton.mpr ((whole_ofPayload_iff _ _ _).mpr (List.cons_ne_nil _ _))
  · have hShort : (Segment.ofPayload hdr.seq hdr.psh old).len < data.val.length := by decide
    have hReplaced : (queueTcp hdr data c).tcp.forward =
        [(Segment.ofPayload hdr.seq hdr.psh old).replaceData data hShort] := by
      rw [queueTcp, if_neg (by decide), Cell.setForward_tcp]
      dsimp only
      rw [hQueue, insertSegment_same rfl, dif_pos hShort]
    refine not_whole_replaceData hShort (h.whole _ ?_)
    rw [hReplaced]
    exact List.mem_singleton_self _
  · have hEmpty := congrArg List.length (h.empty rfl)
    revert hEmpty
    decide

end Tun2Http
