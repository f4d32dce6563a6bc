import Tun2Http.Native.TcpHeap
import Tun2Http.Tcp.QueueBytes

/-! The forward queue on the heap. `queue_tcp`, the forward loop and `clear_tcp_data`
do to the blocks of a session what they do to its list of segments: they touch no other
block, none that is not allocated, and give back what leaves the queue. -/
namespace Tun2Http

open Machine

/-- A segment of the queue, and where its two blocks are. -/
structure Located where
  node : Nat
  block : Nat
  seg : Segment

namespace Located

/-- The block of its `struct segment`. -/
def entry (p : Located) : Nat × Chunk :=
  (p.node, .segment ⟨p.seg.seq, p.seg.len, p.seg.sent, p.seg.psh, p.block⟩)

/-- The addresses of a queue. -/
def footprint (places : List Located) : List Nat := places.map node ++ places.map block

end Located

/-- The queue that begins at `forward` has its segments at `places`. -/
structure Placed (forward : Option Nat) (heap : Heap Chunk) (places : List Located) : Prop where
  linked : heap.Linked none forward (places.map Located.entry)
  blocks : ∀ p ∈ places, heap p.block = some ⟨.bytes p.seg.data, none⟩
  apart : (Located.footprint places).Nodup

/-- `malloc` has not returned two blocks that are free. -/
def Occupied (heap : Heap Chunk) (n d : Nat) : Prop := heap n ≠ none ∨ heap d ≠ none ∨ n = d

/-- So the step goes no further. -/
def OutOfBlocks (heap : Heap Chunk) (n d : Nat) (fault : Fault) : Prop := fault = .malloc ∧ Occupied heap n d

/-- The result is a queue with the segments `queue`, made within the footprint of the
one before; or a fault that can be. -/
def Yields (heap : Heap Chunk) (places : List Located) (queue : List Segment) (canBe : Fault → Prop)
    (result : Except Fault QueueHeap) : Prop :=
  (∃ fault, result = .error fault ∧ canBe fault) ∨ ∃ forward after later, result = .ok (forward, after) ∧
    Placed forward after later ∧ Changes heap after (Located.footprint places) (Located.footprint later) ∧
    later.map Located.seg = queue

section

variable {heap : Heap Chunk} {forward : Option Nat} {places front back : List Located} {p : Located}
  {hdr : TcpHdr} {data : Payload} {n d : Nat}

theorem map_fst_entry (places : List Located) :
    (places.map Located.entry).map Prod.fst = places.map Located.node := by
  rw [List.map_map]
  rfl

theorem footprint_perm (front back : List Located) (p : Located) :
    (Located.footprint (front ++ p :: back)).Perm
      (p.node :: p.block :: Located.footprint (front ++ back)) := by
  simp only [Located.footprint, List.map_append, List.map_cons]
  exact (List.perm_middle.append List.perm_middle).trans (List.perm_middle.cons _)

theorem Placed.node_eq (h : Placed forward heap places) (hIn : p ∈ places) :
    ∃ next, heap p.node = some ⟨p.entry.2, next⟩ :=
  h.linked.allocated (List.mem_map_of_mem hIn)

/-- What is in the footprint is allocated. -/
theorem Placed.allocated (h : Placed forward heap places) :
    ∀ a ∈ Located.footprint places, heap a ≠ none := by
  intro a hIn hNone
  rcases List.mem_append.mp hIn with hNode | hBlock
  · obtain ⟨p, hp, rfl⟩ := List.mem_map.mp hNode
    obtain ⟨next, hEq⟩ := h.node_eq hp
    rw [hEq] at hNone
    cases hNone
  · obtain ⟨p, hp, rfl⟩ := List.mem_map.mp hBlock
    rw [h.blocks p hp] at hNone
    cases hNone

/-- A queue depends on its footprint only. -/
theorem Placed.frame {other : Heap Chunk} (h : Placed forward heap places)
    (hSame : ∀ a ∈ Located.footprint places, other a = heap a) : Placed forward other places := by
  refine ⟨h.linked.frame fun entry hEntry => ?_, fun p hp => ?_, h.apart⟩
  · obtain ⟨p, hp, rfl⟩ := List.mem_map.mp hEntry
    exact hSame _ (List.mem_append_left _ (List.mem_map_of_mem hp))
  · rw [hSame _ (List.mem_append_right _ (List.mem_map_of_mem hp))]
    exact h.blocks p hp

/-- Who only looks at a queue leaves it as it is. -/
theorem Placed.yields (h : Placed forward heap places) (canBe : Fault → Prop) :
    Yields heap places (places.map Located.seg) canBe (.ok (forward, heap)) :=
  Or.inr ⟨forward, heap, places, rfl, h, .refl heap _, rfl⟩

/-! Reading. -/

theorem loadSegment_eq {fields : SegmentFields} {next : Option Nat}
    (h : heap n = some ⟨.segment fields, next⟩) : loadSegment heap n = .ok (fields, next) := by
  rw [loadSegment, Heap.load_eq h]
  rfl

theorem loadBlock_eq {bytes : List UInt8} {next : Option Nat} (h : heap n = some ⟨.bytes bytes, next⟩) :
    loadBlock heap n = .ok bytes := by
  rw [loadBlock, Heap.load_eq h]
  rfl

/-- A new segment takes two blocks that were free. -/
theorem newSegment_cases (hdr : TcpHdr) (data : Payload) (n d : Nat) (next : Option Nat)
    (heap : Heap Chunk) : (newSegment hdr data n d next heap = .error .malloc ∧ Occupied heap n d) ∨
      ∃ after, newSegment hdr data n d next heap = .ok after ∧ heap n = none ∧ heap d = none ∧ n ≠ d ∧
        after n = some ⟨.segment ⟨hdr.seq, data.val.length, 0, hdr.psh, d⟩, next⟩ ∧
        after d = some ⟨.bytes data.val, none⟩ ∧ ∀ q, q ≠ n → q ≠ d → after q = heap q := by
  unfold newSegment
  rcases heap.allocate_cases n ⟨.segment ⟨hdr.seq, data.val.length, 0, hdr.psh, d⟩, next⟩ with
    ⟨hFault, hTaken⟩ | ⟨hFree, hTaken⟩
  · rw [hFault]
    exact Or.inl ⟨rfl, Or.inl hTaken⟩
  · rw [hTaken, ok_bind]
    rcases (heap.store n ⟨.segment ⟨hdr.seq, data.val.length, 0, hdr.psh, d⟩, next⟩).allocate_cases d
      ⟨.bytes data.val, none⟩ with ⟨hFault, hTakenToo⟩ | ⟨hFreeToo, hTakenToo⟩
    · refine Or.inl ⟨hFault, Or.inr ?_⟩
      by_cases hSame : n = d
      · exact Or.inr hSame
      · rw [Heap.store_of_ne _ (Ne.symm hSame)] at hTakenToo
        exact Or.inl hTakenToo
    · have hOther : d ≠ n := by
        rintro rfl
        rw [Heap.store_self] at hFreeToo
        cases hFreeToo
      rw [Heap.store_of_ne _ hOther] at hFreeToo
      refine Or.inr ⟨_, hTakenToo, hFree, hFreeToo, hOther.symm, ?_, Heap.store_self .., fun q hN hD => ?_⟩
      · rw [Heap.store_of_ne _ hOther.symm, Heap.store_self]
      · rw [Heap.store_of_ne _ hD, Heap.store_of_ne _ hN]

/-! `queue_tcp`. -/

/-- A queue with one segment more, in blocks that were free. -/
theorem Placed.insert {after : Heap Chunk} {head : Option Nat} (h : Placed forward heap (front ++ back))
    (hLinked : after.Linked none head (front.map Located.entry ++ p.entry :: back.map Located.entry))
    (hBlock : after p.block = some ⟨.bytes p.seg.data, none⟩)
    (hSame : ∀ q ∈ front ++ back, after q.block = heap q.block) (hOther : p.node ≠ p.block)
    (hNode : p.node ∉ Located.footprint (front ++ back)) (hFresh : p.block ∉ Located.footprint (front ++ back)) :
    Placed head after (front ++ p :: back) := by
  refine ⟨?_, fun q hq => ?_, ?_⟩
  · rw [List.map_append, List.map_cons]
    exact hLinked
  · have hCases : q = p ∨ q ∈ front ++ back := by
      simp only [List.mem_append, List.mem_cons] at hq ⊢
      tauto
    rcases hCases with rfl | hOld
    · exact hBlock
    · rw [hSame q hOld]
      exact h.blocks q hOld
  · rw [(footprint_perm front back p).nodup_iff, List.nodup_cons, List.nodup_cons]
    exact ⟨List.not_mem_cons_of_ne_of_not_mem hOther hNode, hFresh, h.apart⟩

/-- A new segment is linked in behind the front. -/
theorem yields_insert (h : Placed forward heap (front ++ back)) (hdr : TcpHdr) (data : Payload)
    (n d : Nat) :
    Yields heap (front ++ back)
      (front.map Located.seg ++ Segment.ofPayload hdr.seq hdr.psh data :: back.map Located.seg)
      (OutOfBlocks heap n d) (do
        let heap ← newSegment hdr data n d (back.head?.map Located.node) heap
        heap.relink forward (front.getLast?.map Located.node) (some n)) := by
  rcases newSegment_cases hdr data n d (back.head?.map Located.node) heap with
    ⟨hFault, hRefused⟩ | ⟨taken, hTaken, hN, hD, hOther, hNode, hBlock, hFrame⟩
  · rw [hFault]
    exact Or.inl ⟨_, rfl, rfl, hRefused⟩
  · have hFresh : ∀ a, heap a = none → a ∉ Located.footprint (front ++ back) := fun a hNone hIn =>
      h.allocated a hIn hNone
    have hFreshN := hFresh n hN
    have hFreshD := hFresh d hD
    have hKept : Placed forward taken (front ++ back) :=
      h.frame fun a ha => hFrame a (fun hSame => hFreshN (hSame ▸ ha)) fun hSame => hFreshD (hSame ▸ ha)
    have hLinked := hKept.linked
    have hNodes := (List.nodup_append.mp h.apart).1
    have hApart : ∀ q ∈ front ++ back, q.block ∉ front.map Located.node := by
      intro q hq hIn
      refine (List.nodup_append.mp h.apart).2.2 q.block ?_ q.block (List.mem_map_of_mem hq) rfl
      rw [List.map_append]
      exact List.mem_append_left _ hIn
    have hFront : ∀ a ∈ front.map Located.node, a ∈ Located.footprint (front ++ back) := by
      intro a ha
      rw [Located.footprint, List.map_append]
      exact List.mem_append_left _ (List.mem_append_left _ ha)
    rw [List.map_append] at hLinked
    have hEntry : taken n = some ⟨.segment ⟨hdr.seq, data.val.length, 0, hdr.psh, d⟩,
        (back.map Located.entry).head?.map Prod.fst⟩ := by
      rw [hNode, List.head?_map, Option.map_map]
      rfl
    obtain ⟨head, after, hRelink, hAfter, hRest⟩ := Heap.relink_insert hLinked
      (by rwa [← List.map_append, map_fst_entry]) hEntry (by
        rw [map_fst_entry]
        exact fun hIn => hFreshN (hFront n hIn))
    rw [map_fst_entry] at hRest
    set new : Located := ⟨n, d, Segment.ofPayload hdr.seq hdr.psh data⟩ with hNew
    have hPerm := footprint_perm front back new
    have hSame : ∀ a, a ≠ n → a ≠ d → a ∉ front.map Located.node → after a = heap a := fun a haN haD haF =>
      (hRest a haF).trans (hFrame a haN haD)
    have hChanges : Changes heap after (Located.footprint (front ++ back))
        ([n, d] ++ Located.footprint (front ++ back)) := by
      refine .of_fresh (fun a hNew => ?_) fun a hNew hBefore => ?_
      · rcases List.mem_pair.mp hNew with rfl | rfl
        · exact hN
        · exact hD
      · rw [List.mem_pair, not_or] at hNew
        exact hSame a hNew.1 hNew.2 fun hIn => hBefore (hFront a hIn)
    have hPlaced : Placed head after (front ++ new :: back) := by
      refine h.insert hAfter ((hRest d fun hIn => hFreshD (hFront d hIn)).trans hBlock) (fun q hq => ?_) hOther
        hFreshN hFreshD
      have hIn : q.block ∈ Located.footprint (front ++ back) :=
        List.mem_append_right _ (List.mem_map_of_mem hq)
      exact hSame q.block (fun hEq => hFreshN (hEq ▸ hIn)) (fun hEq => hFreshD (hEq ▸ hIn)) (hApart q hq)
    refine Or.inr ⟨head, after, front ++ new :: back, ?_, hPlaced,
      hChanges.of_mem_iff (fun _ => Iff.rfl) fun _ => hPerm.mem_iff, by simp [hNew]⟩
    rw [hTaken, ok_bind, ← hRelink, List.getLast?_map, Option.map_map]
    rfl

theorem mem_footprint_of_mem {q : Located} (hIn : q ∈ places) :
    q.node ∈ Located.footprint places ∧ q.block ∈ Located.footprint places :=
  ⟨List.mem_append_left _ (List.mem_map_of_mem hIn), List.mem_append_right _ (List.mem_map_of_mem hIn)⟩

/-- A node leads to the next one. -/
theorem Placed.next_eq (h : Placed forward heap (front ++ p :: back)) :
    heap p.node = some ⟨p.entry.2, back.head?.map Located.node⟩ := by
  have hLinked := h.linked
  rw [List.map_append, List.map_cons] at hLinked
  obtain ⟨middle, -, -, next, hNode, hBack⟩ := Heap.linked_append_iff.mp hLinked
  rw [hBack.start_eq, List.head?_map, Option.map_map] at hNode
  exact hNode

/-- One segment is written, and maybe its data is moved. -/
theorem Placed.update {after : Heap Chunk} {seg : Segment} (h : Placed forward heap (front ++ p :: back))
    (hNode : after p.node = some ⟨(Located.mk p.node d seg).entry.2, back.head?.map Located.node⟩)
    (hBlock : after d = some ⟨.bytes seg.data, none⟩) (hOther : p.node ≠ d)
    (hFresh : d ∉ Located.footprint (front ++ back))
    (hSame : ∀ a ∈ Located.footprint (front ++ back), after a = heap a) :
    Placed forward after (front ++ ⟨p.node, d, seg⟩ :: back) := by
  have hNodes : ∀ q ∈ front ++ back, after q.node = heap q.node := fun q hq =>
    hSame _ (mem_footprint_of_mem hq).1
  refine ⟨?_, fun q hq => ?_, ?_⟩
  · have hLinked := h.linked
    rw [List.map_append, List.map_cons] at hLinked ⊢
    obtain ⟨middle, hFront, rfl, next, hOld, hBack⟩ := Heap.linked_append_iff.mp hLinked
    have hNext : next = back.head?.map Located.node := by
      rw [hBack.start_eq, List.head?_map, Option.map_map]
      rfl
    refine Heap.linked_append_iff.mpr ⟨_, hFront.frame fun entry hEntry => ?_, rfl, next, hNext ▸ hNode,
      hBack.frame fun entry hEntry => ?_⟩
    · obtain ⟨q, hq, rfl⟩ := List.mem_map.mp hEntry
      exact hNodes q (List.mem_append_left _ hq)
    · obtain ⟨q, hq, rfl⟩ := List.mem_map.mp hEntry
      exact hNodes q (List.mem_append_right _ hq)
  · have hCases : q = ⟨p.node, d, seg⟩ ∨ q ∈ front ++ back := by
      simp only [List.mem_append, List.mem_cons] at hq ⊢
      tauto
    rcases hCases with rfl | hOld
    · exact hBlock
    · rw [hSame _ (mem_footprint_of_mem hOld).2]
      refine h.blocks q ?_
      simp only [List.mem_append, List.mem_cons] at hOld ⊢
      tauto
  · have hApart := h.apart
    rw [(footprint_perm front back p).nodup_iff, List.nodup_cons, List.nodup_cons] at hApart
    rw [(footprint_perm front back ⟨p.node, d, seg⟩).nodup_iff, List.nodup_cons, List.nodup_cons]
    refine ⟨List.not_mem_cons_of_ne_of_not_mem hOther fun hIn => ?_, hFresh, hApart.2.2⟩
    exact hApart.1 (List.mem_cons_of_mem _ hIn)

/-- A longer packet takes the place of the data of a segment. -/
theorem yields_replace (h : Placed forward heap (front ++ p :: back)) {data : Payload}
    (hSmaller : p.seg.len < data.val.length) (n d : Nat) :
    Yields heap (front ++ p :: back)
      (front.map Located.seg ++ p.seg.replaceData data hSmaller :: back.map Located.seg)
      (OutOfBlocks heap n d) (do
        let heap ← heap.release p.block
        let heap ← heap.allocate d ⟨.bytes data.val, none⟩
        let heap ← heap.write p.node ⟨.segment ⟨p.seg.seq, p.seg.len, p.seg.sent, p.seg.psh, d⟩,
          back.head?.map Located.node⟩
        .ok (forward, heap)) := by
  have hIn : p ∈ front ++ p :: back := by simp
  have hNode := h.next_eq
  have hApart := h.apart
  rw [(footprint_perm front back p).nodup_iff, List.nodup_cons, List.nodup_cons, List.mem_cons,
    not_or] at hApart
  obtain ⟨⟨hBlockNode, hNodeRest⟩, hBlockRest, -⟩ := hApart
  rw [Heap.release_eq (h.blocks p hIn), ok_bind]
  rcases (heap.free p.block).allocate_cases d ⟨.bytes data.val, none⟩ with ⟨hFault, hTaken⟩ | ⟨hFree, hTaken⟩
  · rw [hFault]
    refine Or.inl ⟨_, rfl, rfl, Or.inr (Or.inl fun hNone => hTaken ?_)⟩
    by_cases hSame : d = p.block
    · rw [hSame]
      exact Heap.free_self ..
    · rwa [Heap.free_of_ne hSame]
  · have hOther : p.node ≠ d := by
      rintro rfl
      rw [Heap.free_of_ne hBlockNode, hNode] at hFree
      cases hFree
    have hRest : d ∉ Located.footprint (front ++ back) := by
      intro hD
      by_cases hSame : d = p.block
      · exact hBlockRest (hSame ▸ hD)
      · rw [Heap.free_of_ne hSame] at hFree
        refine h.allocated d ?_ hFree
        rw [(footprint_perm front back p).mem_iff]
        exact List.mem_cons_of_mem _ (List.mem_cons_of_mem _ hD)
    have hStored : ((heap.free p.block).store d ⟨.bytes data.val, none⟩) p.node = some
        ⟨p.entry.2, back.head?.map Located.node⟩ := by
      rw [Heap.store_of_ne _ hOther, Heap.free_of_ne hBlockNode, hNode]
    rw [hTaken, ok_bind, Heap.write_eq hStored, ok_bind]
    have hSame : ∀ a, a ≠ p.node → a ≠ d → a ≠ p.block → (((heap.free p.block).store d
        ⟨.bytes data.val, none⟩).store p.node ⟨.segment ⟨p.seg.seq, p.seg.len, p.seg.sent, p.seg.psh, d⟩,
          back.head?.map Located.node⟩) a = heap a := fun a hN hD hB => by
      rw [Heap.store_of_ne _ hN, Heap.store_of_ne _ hD, Heap.free_of_ne hB]
    set after := ((heap.free p.block).store d ⟨.bytes data.val, none⟩).store p.node
      ⟨.segment ⟨p.seg.seq, p.seg.len, p.seg.sent, p.seg.psh, d⟩, back.head?.map Located.node⟩ with hAfter
    have hData : after d = some ⟨.bytes (p.seg.replaceData data hSmaller).data, none⟩ := by
      rw [hAfter, Heap.store_of_ne _ hOther.symm, Heap.store_self]
      rfl
    have hWritten : after p.node = some
        ⟨(Located.mk p.node d (p.seg.replaceData data hSmaller)).entry.2, back.head?.map Located.node⟩ :=
      Heap.store_self ..
    have hPlaced := h.update hWritten hData hOther hRest fun a ha => hSame a
      (fun hEq => hNodeRest (hEq ▸ ha)) (fun hEq => hRest (hEq ▸ ha)) fun hEq => hBlockRest (hEq ▸ ha)
    have hChanges : Changes heap after (p.node :: p.block :: Located.footprint (front ++ back))
        (p.node :: d :: Located.footprint (front ++ back)) := by
      refine ⟨fun a hBefore hAfter => ?_, fun a hAfter hBefore => ?_, fun a hBefore hAfter => ?_⟩
      · simp only [List.mem_cons, not_or] at hBefore hAfter
        exact hSame a hAfter.1 hAfter.2.1 hBefore.2.1
      · simp only [List.mem_cons, not_or] at hBefore hAfter
        have hD : a = d := by tauto
        rw [hD] at hBefore ⊢
        rwa [Heap.free_of_ne hBefore.2.1] at hFree
      · simp only [List.mem_cons, not_or] at hBefore hAfter
        have hB : a = p.block := by tauto
        rw [hB] at hAfter ⊢
        exact (Heap.store_of_ne _ hAfter.1).trans ((Heap.store_of_ne _ hAfter.2.1).trans (Heap.free_self ..))
    exact Or.inr ⟨forward, after, _, rfl, hPlaced, hChanges.of_mem_iff
      (fun _ => (footprint_perm front back p).mem_iff) fun _ => (footprint_perm front back _).mem_iff, by simp⟩

/-- The packet is queued as the walk through the list does it. -/
theorem yields_queueTcp {turns : Nat} (h : Placed forward heap places) (hTurns : places.length < turns)
    (hdr : TcpHdr) (data : Payload) (remoteSeq : U32) (n d : Nat) :
    Yields heap places
      (if compareU32 hdr.seq remoteSeq < 0 then places.map Located.seg
        else insertSegment hdr data (places.map Located.seg))
      (OutOfBlocks heap n d) (queueTcpHeap turns hdr data remoteSeq n d (forward, heap)) := by
  unfold queueTcpHeap
  have hSame : Yields heap places (places.map Located.seg) (OutOfBlocks heap n d) (.ok (forward, heap)) :=
    h.yields _
  split_ifs with hOld
  · exact hSame
  · set before : Located → Bool := fun p => decide (compareU32 p.seg.seq hdr.seq < 0) with hBefore
    have hCut : places.takeWhile before ++ places.dropWhile before = places := List.takeWhile_append_dropWhile
    have hWalk : heap.walk (Chunk.before hdr.seq) turns none forward =
        .ok ((places.takeWhile before).getLast?.map Located.node,
          (places.dropWhile before).head?.map Located.node) := by
      rw [Heap.walk_eq h.linked (by rwa [List.length_map]), List.takeWhile_map, List.dropWhile_map,
        List.getLast?_map, List.head?_map, Option.map_map, Option.map_map, Option.or_none]
      rfl
    dsimp only
    rw [hWalk, ok_bind]
    have hFront : ∀ s ∈ (places.takeWhile before).map Located.seg, compareU32 s.seq hdr.seq < 0 := by
      intro s hs
      obtain ⟨p, hp, rfl⟩ := List.mem_map.mp hs
      have hPasses : before p = true := List.mem_takeWhile_imp hp
      exact of_decide_eq_true hPasses
    generalize places.takeWhile before = front at hCut hFront
    have hHead := List.head?_dropWhile_not before places
    generalize places.dropWhile before = back at hCut hHead
    subst hCut
    rw [List.map_append, insertSegment_append hdr data hFront]
    cases back with
    | nil => exact yields_insert h hdr data n d
    | cons p rest =>
        have hNot : ¬ compareU32 p.seg.seq hdr.seq < 0 := by simpa [hBefore] using hHead
        rw [List.map_cons, insertSegment.eq_def]
        dsimp only [List.head?_cons, Option.map_some]
        rw [loadSegment_eq h.next_eq, ok_bind, if_neg hNot]
        dsimp only
        split_ifs with hAfter hSeq hLen hSmaller
        · exact yields_insert h hdr data n d
        · simpa using hSame
        · exact yields_replace h hSmaller n d
        · simpa using hSame
        · simpa using hSame

/-! The other loops. -/

theorem footprint_cons_perm (p : Located) (rest : List Located) :
    (Located.footprint (p :: rest)).Perm (p.node :: p.block :: Located.footprint rest) :=
  footprint_perm [] rest p

/-- The head of a queue gives its blocks back. -/
theorem Placed.pop {rest : List Located} (h : Placed forward heap (p :: rest)) :
    let after := (heap.free p.block).free p.node
    heap.release p.block = .ok (heap.free p.block) ∧ (heap.free p.block).release p.node = .ok after ∧
      Placed (rest.head?.map Located.node) after rest ∧
      Changes heap after (Located.footprint (p :: rest)) (Located.footprint rest) := by
  intro after
  have hPerm := footprint_cons_perm p rest
  have hApart := h.apart
  rw [hPerm.nodup_iff, List.nodup_cons, List.nodup_cons, List.mem_cons, not_or] at hApart
  obtain ⟨⟨hNodeBlock, hNodeRest⟩, hBlockRest, hRest⟩ := hApart
  have hNode : heap p.node = some ⟨p.entry.2, rest.head?.map Located.node⟩ :=
    Placed.next_eq (show Placed forward heap ([] ++ p :: rest) from h)
  have hSame : ∀ a, a ≠ p.node → a ≠ p.block → after a = heap a := fun a hN hB =>
    (Heap.free_of_ne hN).trans (Heap.free_of_ne hB)
  have hKept : ∀ a ∈ Located.footprint rest, after a = heap a := fun a ha =>
    hSame a (fun hEq => hNodeRest (hEq ▸ ha)) fun hEq => hBlockRest (hEq ▸ ha)
  have hLater : Placed (rest.head?.map Located.node) heap rest := by
    obtain ⟨-, next, -, hLinked⟩ := h.linked
    refine ⟨?_, fun q hq => h.blocks q (List.mem_cons_of_mem _ hq), hRest⟩
    have hStart := hLinked.start_eq
    rw [List.head?_map, Option.map_map] at hStart
    rw [hStart] at hLinked
    exact hLinked
  have hStill : heap.free p.block p.node = some ⟨p.entry.2, rest.head?.map Located.node⟩ :=
    (Heap.free_of_ne hNodeBlock).trans hNode
  refine ⟨Heap.release_eq (h.blocks p (List.mem_cons_self ..)), Heap.release_eq hStill,
    hLater.frame hKept, ?_⟩
  · have hChanges : Changes heap after (p.node :: p.block :: Located.footprint rest)
        (Located.footprint rest) := by
      refine ⟨fun a hBefore _ => ?_, fun a hAfter hBefore => ?_, fun a hBefore hAfter => ?_⟩
      · simp only [List.mem_cons, not_or] at hBefore
        exact hSame a hBefore.1 hBefore.2.1
      · exact absurd (List.mem_cons_of_mem _ (List.mem_cons_of_mem _ hAfter)) hBefore
      · by_cases hN : a = p.node
        · rw [hN]
          exact Heap.free_self ..
        · have hB : a = p.block := by
            simp only [List.mem_cons] at hBefore
            tauto
          rw [hB]
          exact (Heap.free_of_ne (hB ▸ hN)).trans (Heap.free_self ..)
    exact hChanges.of_mem_iff (fun _ => hPerm.mem_iff) fun _ => Iff.rfl

/-- What the head has for `send()`, where the scan stays in its block. -/
theorem requestHeap_cases (port : U16) (behind : Nat → UInt8) (seg : Segment) :
    (requestHeap port behind seg.data seg.len seg.sent = .error .access ∧ port = 80 ∧
      ¬ (patchHttpUrl seg.unsent).Within (seg.data.length - seg.sent) (blockMemory seg.data seg.sent behind)) ∨
    requestHeap port behind seg.data seg.len seg.sent = .ok (segmentRequest port behind seg) := by
  unfold requestHeap segmentRequest
  dsimp only
  rw [if_neg (Nat.not_lt.mpr seg.len_le)]
  by_cases hPort : port = 80
  · rw [if_pos hPort, if_pos hPort]
    have hReads : ((patchHttpUrl (seg.len - seg.sent)).reads (blockMemory seg.data seg.sent behind)).all
        (· < seg.data.length - seg.sent) = true ↔ (patchHttpUrl seg.unsent).Within
          (seg.data.length - seg.sent) (blockMemory seg.data seg.sent behind) := by
      simp only [List.all_eq_true, decide_eq_true_iff]
      exact Iff.rfl
    by_cases hInside : ((patchHttpUrl (seg.len - seg.sent)).reads (blockMemory seg.data seg.sent behind)).all
        (· < seg.data.length - seg.sent) = true
    · rw [if_pos hInside]
      exact Or.inr rfl
    · rw [if_neg hInside]
      exact Or.inl ⟨rfl, hPort, hReads.not.mp hInside⟩
  · rw [if_neg hPort, if_neg hPort]
    exact Or.inr rfl

/-- What `send()` takes of the head is counted, and the head that is sent is popped. -/
theorem yields_sendHeap {rest : List Located} (h : Placed forward heap (p :: rest)) (port : U16)
    (behind : Nat → UInt8) {count : Nat} (hCount : count ≤ p.seg.unsent) :
    Yields heap (p :: rest)
      (if count = p.seg.unsent then rest.map Located.seg
        else p.seg.advance count hCount :: rest.map Located.seg)
      (fun fault => fault = .access ∧ port = 80 ∧ ¬ (patchHttpUrl p.seg.unsent).Within
        (p.seg.data.length - p.seg.sent) (blockMemory p.seg.data p.seg.sent behind))
      (sendHeap port behind (segmentRequest port behind p.seg) count (forward, heap)) := by
  have hSent := p.seg.sent_le
  have hLast : p.seg.len = p.seg.sent + count ↔ count = p.seg.unsent := by
    unfold Segment.unsent
    omega
  have hHead : forward = some p.node := h.linked.1
  have hNode : heap p.node = some ⟨p.entry.2, rest.head?.map Located.node⟩ :=
    Placed.next_eq (show Placed forward heap ([] ++ p :: rest) from h)
  unfold sendHeap
  dsimp only
  rw [hHead]
  dsimp only
  rw [loadSegment_eq hNode, ok_bind, loadBlock_eq (h.blocks p (List.mem_cons_self ..)), ok_bind]
  dsimp only
  rcases requestHeap_cases port behind p.seg with ⟨hFault, hPort, hOutside⟩ | hFound
  · rw [hFault]
    exact Or.inl ⟨_, rfl, rfl, hPort, hOutside⟩
  rw [hFound, ok_bind, expect_self, ok_bind]
  by_cases hAll : count = p.seg.unsent
  · obtain ⟨hBlock, hFree, hPlaced, hChanges⟩ := h.pop
    rw [if_pos (hLast.mpr hAll), if_pos hAll, hBlock, ok_bind, hFree, ok_bind]
    exact Or.inr ⟨_, _, rest, rfl, hPlaced, hChanges, rfl⟩
  · rw [if_neg fun hEq => hAll (hLast.mp hEq), if_neg hAll, Heap.write_eq hNode, ok_bind]
    have hApart := h.apart
    rw [(footprint_cons_perm p rest).nodup_iff, List.nodup_cons, List.nodup_cons, List.mem_cons,
      not_or] at hApart
    obtain ⟨⟨hNodeBlock, hNodeRest⟩, hBlockRest, -⟩ := hApart
    set after := heap.store p.node ⟨.segment ⟨p.seg.seq, p.seg.len, p.seg.sent + count, p.seg.psh, p.block⟩,
      rest.head?.map Located.node⟩ with hAfter
    have hWritten : after p.node = some
        ⟨(Located.mk p.node p.block (p.seg.advance count hCount)).entry.2, rest.head?.map Located.node⟩ :=
      Heap.store_self ..
    have hBlock : after p.block = some ⟨.bytes (p.seg.advance count hCount).data, none⟩ :=
      (Heap.store_of_ne _ (Ne.symm hNodeBlock)).trans (h.blocks p (List.mem_cons_self ..))
    have hPlaced := Placed.update (show Placed forward heap ([] ++ p :: rest) from h) hWritten hBlock
      hNodeBlock hBlockRest fun a ha => Heap.store_of_ne _ fun hEq => hNodeRest (hEq ▸ ha)
    have hChanges : Changes heap after (Located.footprint (p :: rest)) (Located.footprint (p :: rest)) :=
      .of_frame fun a hNot => Heap.store_of_ne _ fun hEq =>
        hNot (hEq ▸ (mem_footprint_of_mem (List.mem_cons_self ..)).1)
    rw [hHead] at hPlaced
    exact Or.inr ⟨some p.node, after, _, rfl, hPlaced, hChanges, rfl⟩

/-- The comparison of the head finds what it finds on the list. -/
theorem testHeap_eq (h : Placed forward heap places) (remoteSeq bufferSize : U32) :
    testHeap remoteSeq bufferSize (forward, heap) =
      .ok (headPasses remoteSeq bufferSize (places.map Located.seg)) := by
  cases places with
  | nil =>
      have hHead : forward = none := h.linked
      rw [hHead]
      rfl
  | cons p rest =>
      have hHead : forward = some p.node := h.linked.1
      have hNode : heap p.node = some ⟨p.entry.2, rest.head?.map Located.node⟩ :=
        Placed.next_eq (show Placed forward heap ([] ++ p :: rest) from h)
      rw [hHead, testHeap]
      dsimp only
      rw [loadSegment_eq hNode]
      rfl

/-- `clear_tcp_data` gives back what the queue has, and nothing else. -/
theorem clearTcpData_eq {turns : Nat} (h : Placed forward heap places) (hTurns : places.length < turns) :
    ∃ after, clearTcpData turns (forward, heap) = .ok after ∧
      Changes heap after (Located.footprint places) [] := by
  induction places generalizing forward heap turns with
  | nil =>
      obtain ⟨turns, rfl⟩ := Nat.exists_eq_succ_of_ne_zero (Nat.ne_of_gt hTurns)
      have hHead : forward = none := h.linked
      rw [hHead]
      exact ⟨heap, rfl, .refl heap []⟩
  | cons p rest ih =>
      obtain ⟨turns, rfl⟩ := Nat.exists_eq_succ_of_ne_zero (Nat.ne_of_gt (Nat.zero_lt_of_lt hTurns))
      rw [List.length_cons, Nat.succ_lt_succ_iff] at hTurns
      have hHead : forward = some p.node := h.linked.1
      have hNode : heap p.node = some ⟨p.entry.2, rest.head?.map Located.node⟩ :=
        Placed.next_eq (show Placed forward heap ([] ++ p :: rest) from h)
      obtain ⟨hBlock, hFree, hPlaced, hChanges⟩ := h.pop
      obtain ⟨after, hEnd, hLater⟩ := ih hPlaced hTurns
      refine ⟨after, ?_, hChanges.trans hLater⟩
      rw [hHead, clearTcpData, loadSegment_eq hNode, ok_bind]
      dsimp only
      rw [hBlock, ok_bind, hFree, ok_bind]
      exact hEnd

/-- The loop of `get_receive_window` adds up what is unsent. -/
theorem toForwardHeap_eq {turns : Nat} (h : Placed forward heap places) (hTurns : places.length < turns) :
    toForwardHeap heap turns forward = .ok (toForward (places.map Located.seg)) := by
  induction places generalizing forward turns with
  | nil =>
      obtain ⟨turns, rfl⟩ := Nat.exists_eq_succ_of_ne_zero (Nat.ne_of_gt hTurns)
      have hHead : forward = none := h.linked
      rw [hHead]
      rfl
  | cons p rest ih =>
      obtain ⟨turns, rfl⟩ := Nat.exists_eq_succ_of_ne_zero (Nat.ne_of_gt (Nat.zero_lt_of_lt hTurns))
      rw [List.length_cons, Nat.succ_lt_succ_iff] at hTurns
      obtain ⟨hHead, next, hNode, hLinked⟩ := h.linked
      have hRest : Placed next heap rest := by
        have hApart := h.apart
        rw [(footprint_cons_perm p rest).nodup_iff] at hApart
        exact ⟨hLinked, fun q hq => h.blocks q (List.mem_cons_of_mem _ hq), hApart.of_cons.of_cons⟩
      rw [hHead, toForwardHeap, loadSegment_eq hNode, ok_bind]
      dsimp only
      rw [ih hRest hTurns, ok_bind, toForward, toForward, List.map_cons, List.map_cons, List.sum_cons]
      rfl

/-- A SYN with data takes two blocks. -/
theorem yields_synHeap (hdr : TcpHdr) (data : Payload) (n d : Nat) (heap : Heap Chunk) :
    Yields heap [] (if data.val ≠ [] then [Segment.ofPayload hdr.seq hdr.psh data] else []) (OutOfBlocks heap n d)
      (synHeap hdr data n d heap) := by
  have hEmpty : Placed none heap [] := ⟨rfl, nofun, List.nodup_nil⟩
  unfold synHeap
  split_ifs with hData
  · exact yields_insert (show Placed none heap ([] ++ []) from hEmpty) hdr data n d
  · exact hEmpty.yields _

end

end Tun2Http
