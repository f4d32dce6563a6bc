import Tun2Http.Tcp.Upstream

/-! The receive window: what `get_receive_window` promises the client against what
the socket can take, and what is left of it in the packets that `write_tcp` builds. -/
namespace Tun2Http

/-- The bytes of the queue that are still to be sent. -/
def unsentBytes (queue : List Segment) : Nat := (queue.map Segment.unsent).sum

/-- The sum of the source is this number, up to the width of its type. -/
theorem toNat_toForward (queue : List Segment) :
    (toForward queue).toNat = unsentBytes queue % 2 ^ 32 := by
  induction queue with
  | nil => rfl
  | cons seg rest ih =>
      have hHead : (toForward (seg :: rest)).toNat =
          (BitVec.ofNat 32 seg.unsent + toForward rest).toNat := rfl
      have hTail : unsentBytes (seg :: rest) = seg.unsent + unsentBytes rest := rfl
      rw [hHead, hTail, BitVec.toNat_add, BitVec.toNat_ofNat, ih, ← Nat.add_mod]

/-- The free buffer is never negative. -/
theorem nonneg_getReceiveBuffer (K : Kernel) (c : Cell) : 0 ≤ (getReceiveBuffer K c).2 := by
  unfold getReceiveBuffer
  dsimp only
  by_cases hSocket : c.socket < 0
  · rw [if_pos hSocket]
  · rw [if_neg hSocket]
    dsimp only
    generalize (if K.sndbuf c.calls = 0 then 16384 else K.sndbuf c.calls).tdiv 2 = half
    split_ifs with hFree
    · exact Int.sub_nonneg_of_le hFree.le
    · exact Int.le_refl 0

/-- As an `uint32_t` it is not larger. -/
theorem toNat_ofInt_le {n : Int} (hNonneg : 0 ≤ n) : ((BitVec.ofInt 32 n).toNat : Int) ≤ n := by
  rw [BitVec.toNat_ofInt]
  omega

/-- The largest window that the field can say. -/
theorem toNat_maxWindow {scale : Nat} (hScale : scale ≤ 14) :
    (0xFFFF#32 <<< scale).toNat = 65535 * 2 ^ scale := by
  have hPower : 2 ^ scale ≤ 2 ^ 14 := Nat.pow_le_pow_right (by decide) hScale
  rw [BitVec.toNat_shiftLeft, Nat.shiftLeft_eq, Nat.mod_eq_of_lt]
  · rfl
  · calc 65535 * 2 ^ scale
        ≤ 65535 * 2 ^ 14 := Nat.mul_le_mul_left _ hPower
      _ < 2 ^ 32 := by decide

variable {K : Kernel} {c : Cell}

/-- Either there is no window, or with the queue it fits the buffer and the
field, and the field says some of it. -/
theorem getReceiveWindow_bounds (hScale : c.tcp.recvScale.toNat ≤ 14)
    (hQueue : unsentBytes c.tcp.forward < 2 ^ 32) :
    (getReceiveWindow K c).2 = 0 ∨
      (getReceiveWindow K c).2 >>> c.tcp.recvScale.toNat ≠ 0 ∧
        ((getReceiveWindow K c).2.toNat : Int) + unsentBytes c.tcp.forward ≤
          (getReceiveBuffer K c).2 ∧
        (getReceiveWindow K c).2.toNat ≤ 65535 * 2 ^ c.tcp.recvScale.toNat := by
  have hForward : (toForward c.tcp.forward).toNat = unsentBytes c.tcp.forward := by
    rw [toNat_toForward, Nat.mod_eq_of_lt hQueue]
  have hFree := toNat_ofInt_le (nonneg_getReceiveBuffer K c)
  have hMax := toNat_maxWindow hScale
  unfold getReceiveWindow
  dsimp only
  generalize BitVec.ofInt 32 (getReceiveBuffer K c).2 = free at hFree ⊢
  generalize 0xFFFF#32 <<< c.tcp.recvScale.toNat = max at hMax ⊢
  -- the cap
  have hCapped : (if max < free then max else free).toNat ≤ free.toNat ∧
      (if max < free then max else free).toNat ≤ max.toNat := by
    split_ifs with hLess
    · exact ⟨Nat.le_of_lt (BitVec.lt_def.mp hLess), Nat.le_refl _⟩
    · exact ⟨Nat.le_refl _, BitVec.le_def.mp (BitVec.not_lt.mp hLess)⟩
  generalize (if max < free then max else free) = capped at hCapped ⊢
  -- the queue, and what is too small for the field
  split_ifs with hRoom hSmall hSmall
  · exact Or.inl rfl
  · have hLess := BitVec.lt_def.mp hRoom
    have hRest : (capped - toForward c.tcp.forward).toNat =
        capped.toNat - unsentBytes c.tcp.forward := by
      rw [BitVec.toNat_sub_of_le (BitVec.le_of_lt hRoom), hForward]
    rw [hForward] at hLess
    refine Or.inr ⟨hSmall, ?_, ?_⟩
    · rw [hRest]
      omega
    · rw [hRest]
      omega
  · exact Or.inl rfl
  · exact Or.inl rfl

/-- What the client may rely on: a window that is not zero has room in the buffer
behind the queue; it fits the field; and what the client makes of the field of any
packet is not more, and nothing only where there is no window. -/
structure WindowKeepsPromise (K : Kernel) (c : Cell) : Prop where
  room : 0 < (getReceiveWindow K c).2 →
    ((getReceiveWindow K c).2.toNat : Int) + unsentBytes c.tcp.forward ≤ (getReceiveBuffer K c).2
  fits : ((getReceiveWindow K c).2 >>> c.tcp.recvScale.toNat).toNat < 2 ^ 16
  client : ∀ payload syn ack fin rst,
    let field := (buildTcp (storeWindow K c).tcp payload syn ack fin rst).window
    field.toNat <<< c.tcp.recvScale.toNat ≤ (getReceiveWindow K c).2.toNat ∧
      (field.toNat <<< c.tcp.recvScale.toNat = 0 → (getReceiveWindow K c).2 = 0)

/-- The field of a packet, once the event has stored its window. -/
theorem window_storeWindow (K : Kernel) (c : Cell) (payload : List UInt8) (syn ack fin rst : Bool) :
    (buildTcp (storeWindow K c).tcp payload syn ack fin rst).window =
      ((getReceiveWindow K c).2 >>> c.tcp.recvScale.toNat).setWidth 16 := by
  simp only [buildTcp, storeWindow, getReceiveWindow_fst, getReceiveBuffer_tcp]

/-- The window never promises more than there is. -/
theorem window_keeps_promise (K : Kernel) (c : Cell) (hScale : c.tcp.recvScale.toNat ≤ 14)
    (hQueue : unsentBytes c.tcp.forward < 2 ^ 32) : WindowKeepsPromise K c := by
  have hBounds := getReceiveWindow_bounds (K := K) hScale hQueue
  have hField : ((getReceiveWindow K c).2 >>> c.tcp.recvScale.toNat).toNat =
      (getReceiveWindow K c).2.toNat / 2 ^ c.tcp.recvScale.toNat := by
    rw [BitVec.toNat_ushiftRight, Nat.shiftRight_eq_div_pow]
  have hFits : ((getReceiveWindow K c).2 >>> c.tcp.recvScale.toNat).toNat < 2 ^ 16 := by
    rcases hBounds with hZero | ⟨-, -, hMax⟩
    · simp [hZero]
    · rw [hField, Nat.div_lt_iff_lt_mul (Nat.two_pow_pos _)]
      calc (getReceiveWindow K c).2.toNat
          ≤ 65535 * 2 ^ c.tcp.recvScale.toNat := hMax
        _ < 2 ^ 16 * 2 ^ c.tcp.recvScale.toNat :=
            Nat.mul_lt_mul_of_pos_right (by decide) (Nat.two_pow_pos _)
  refine ⟨fun hSome => ?_, hFits, fun payload syn ack fin rst => ?_⟩
  · rcases hBounds with hZero | ⟨-, hRoom, -⟩
    · rw [hZero] at hSome
      exact absurd hSome (by decide)
    · exact hRoom
  · dsimp only
    rw [window_storeWindow, BitVec.toNat_setWidth, Nat.mod_eq_of_lt hFits, hField, Nat.shiftLeft_eq]
    refine ⟨Nat.div_mul_le_self _ _, fun hNone => ?_⟩
    rcases hBounds with hZero | ⟨hSome, -, -⟩
    · exact hZero
    · have hQuotient : (getReceiveWindow K c).2.toNat / 2 ^ c.tcp.recvScale.toNat = 0 :=
        (Nat.mul_eq_zero.mp hNone).resolve_right (Nat.two_pow_pos _).ne'
      exact absurd (BitVec.eq_of_toNat_eq (y := 0#32) (hField.trans hQuotient)) hSome

/-- With two bytes queued. -/
theorem window_keeps_promise_queued :
    WindowKeepsPromise .willing (clientCell 22 ⟨[104, 105], by decide⟩) :=
  window_keeps_promise _ _ (by decide) (by decide)

end Tun2Http
