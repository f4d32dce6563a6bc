import Tun2Http.Native.Ip

/-! IPv4 fragments. The test of `handle_ip` masks the field as the host loads
it, and so looks at a bit of the fragment offset. -/
namespace Tun2Http

open Machine

/-- The more-fragments flag, in the first byte of the field. -/
def moreFragments (mem : Memory) : Prop := mem 6 &&& 0x20 ≠ 0

/-- The fragment offset: the rest of the field. -/
def fragmentOffset (mem : Memory) : Nat := 256 * (mem 6 &&& 0x1F).toNat + (mem 7).toNat

instance (mem : Memory) : Decidable (moreFragments mem) := inferInstanceAs (Decidable (_ ≠ _))

/-- The fragment test of `handle_ip`. -/
def fragmentTest (mem : Memory) : Prop := (le16 6).value mem &&& ipMf ≠ 0

instance (mem : Memory) : Decidable (fragmentTest mem) := inferInstanceAs (Decidable (_ ≠ _))

/-- A fragment reaches no handler, and what is none passes the test. -/
def FragmentSafe (X : IpContext) (length : Nat) (mem : Memory) : Prop :=
  (moreFragments mem ∨ fragmentOffset mem ≠ 0 →
      ∀ turns, (handleIp X turns length).value mem = .dropped) ∧
    (¬ (moreFragments mem ∨ fragmentOffset mem ≠ 0) → ¬ fragmentTest mem)

variable {X : IpContext} {length : Nat} {mem : Memory}

theorem and_twoPow_ne_zero_iff {w i : Nat} (x : BitVec w) (hi : i < w) :
    x &&& BitVec.twoPow w i ≠ 0#w ↔ x.getLsbD i = true := by
  rw [BitVec.and_twoPow]
  split_ifs with h
  · have hBit : (BitVec.twoPow w i).getLsbD i = true := by simp [hi]
    refine iff_of_true (fun hZero => ?_) h
    rw [hZero] at hBit
    simp at hBit
  · simp [h]

/-- The mask tests a bit of the second byte, which belongs to the offset. -/
theorem fragmentTest_iff : fragmentTest mem ↔ mem 7 &&& 0x20 ≠ 0 := by
  have hHigh : mem 7 &&& 0x20 ≠ 0 ↔ (mem 7).toNat.testBit 5 = true := by
    rw [ne_eq, ← UInt8.toBitVec_inj, ← ne_eq]
    exact and_twoPow_ne_zero_iff (mem 7).toBitVec (i := 5) (by decide)
  have hBits : ((mem 6).toNat + 256 * (mem 7).toNat).testBit 13 = (mem 7).toNat.testBit 5 := by
    rw [Nat.add_comm]
    exact Nat.testBit_two_pow_mul_add (mem 7).toNat (i := 8) (mem 6).toNat_lt 13
  rw [hHigh, ← hBits]
  apply (and_twoPow_ne_zero_iff _ (i := 13) (by decide)).trans
  rw [value_le16, BitVec.getLsbD_ofNat]
  simp

/-- The IPv4 branch of `handle_ip`. -/
theorem value_handleIp_of_ip4 (turns : Nat) (hVersion : mem 0 >>> 4 = 4) (hLength : 20 ≤ length)
    (hTotal : (be16 2).value mem = length) :
    (handleIp X turns length).value mem =
      if fragmentTest mem then .dropped
      else if Admitted X length 4 mem (mem 9) (20 + optLen (mem 0 &&& 0x0F)) then
        .handler 4 (mem 9) (20 + optLen (mem 0 &&& 0x0F))
      else .dropped := by
  rw [handleIp, Reader.value_bind, Reader.value_byte, if_pos hVersion, if_neg (by omega),
    Reader.value_bind, Reader.value_bind, Reader.value_ite]
  apply if_congr Iff.rfl rfl
  rw [Reader.value_bind, Reader.value_ite, if_neg (not_not.mpr hTotal), value_handlePayload]
  rfl

/-- A whole datagram has nothing in the second byte of the field. -/
theorem not_fragmentTest_of_whole (hWhole : ¬ (moreFragments mem ∨ fragmentOffset mem ≠ 0)) :
    ¬ fragmentTest mem := by
  have hOffset : fragmentOffset mem = 0 := not_not.mp (not_or.mp hWhole).2
  have hZero : mem 7 = 0 := UInt8.toNat_inj.mp (Nat.eq_zero_of_add_eq_zero_left hOffset)
  rw [fragmentTest_iff, hZero]
  decide

/-- The test is right about a packet exactly where it is whole, the tested bit of
the offset is set, or another check drops it anyway. -/
theorem fragment_safe_iff (hVersion : mem 0 >>> 4 = 4) (hLength : 20 ≤ length)
    (hTotal : (be16 2).value mem = length) :
    FragmentSafe X length mem ↔
      ¬ (moreFragments mem ∨ fragmentOffset mem ≠ 0) ∨ mem 7 &&& 0x20 ≠ 0 ∨
        ¬ Admitted X length 4 mem (mem 9) (20 + optLen (mem 0 &&& 0x0F)) := by
  have hValue := fun turns => value_handleIp_of_ip4 (X := X) turns hVersion hLength hTotal
  rw [FragmentSafe, and_iff_left not_fragmentTest_of_whole, imp_iff_not_or]
  apply or_congr Iff.rfl
  simp only [hValue, forall_const, ← fragmentTest_iff]
  split_ifs with hTest hAdmitted
  · exact iff_of_true rfl (Or.inl hTest)
  · exact iff_of_false (by simp) (by simp [hTest, hAdmitted])
  · exact iff_of_true rfl (Or.inr hAdmitted)

/-- An IPv4 packet with a UDP header and the given second halfword of flags and
offset. -/
def ip4Bytes (high low : UInt8) : List UInt8 :=
  [0x45, 0, 0, 28, 0, 0, high, low, 64, 17, 0, 0, 10, 1, 10, 1, 93, 184, 216, 34, 0, 53, 1, 0, 0, 8, 0, 0]

/-- A whole datagram, with the don't-fragment flag. -/
theorem fragment_safe_iff_whole :
    let mem := packetMemory (ip4Bytes 0x40 0)
    FragmentSafe idleContext 28 mem ↔
      ¬ (moreFragments mem ∨ fragmentOffset mem ≠ 0) ∨ mem 7 &&& 0x20 ≠ 0 ∨
        ¬ Admitted idleContext 28 4 mem (mem 9) (20 + optLen (mem 0 &&& 0x0F)) :=
  fragment_safe_iff (by decide) (by decide) (by decide)

/-- A first fragment: the flag is set, and the handler for UDP is called. -/
theorem fragment_handled : ∃ (length : Nat) (mem : Memory), mem 0 >>> 4 = 4 ∧ 20 ≤ length ∧
    (be16 2).value mem = length ∧ ¬ FragmentSafe idleContext length mem := by
  refine ⟨28, packetMemory (ip4Bytes 0x20 0), by decide, by decide, by decide, fun hSafe => ?_⟩
  exact absurd (hSafe.1 (Or.inl (by decide)) 0) (by decide)

end Tun2Http
