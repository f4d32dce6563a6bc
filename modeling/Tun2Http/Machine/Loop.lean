import Mathlib.Data.Finset.Card
import Mathlib.Order.Preorder.Finite
import Mathlib.Logic.Relation
import Tun2Http.Machine.Memory

/-! Loops that need not end. A turn either goes on in a new state or leaves
the loop; over finitely many states the loop runs on exactly where it comes
back to a state. -/
namespace Machine

open Relation

section Halting

variable {τ : Type*} {hop : τ → τ → Prop}

/-- From `t` one comes to a state that nothing follows. -/
def Halts (hop : τ → τ → Prop) (t : τ) : Prop :=
  ∃ u, ReflTransGen hop t u ∧ ∀ w, ¬ hop u w

/-- From `t` one comes to a state that one comes back to. -/
def Returns (hop : τ → τ → Prop) (t : τ) : Prop :=
  ∃ u, ReflTransGen hop t u ∧ TransGen hop u u

/-- In a deterministic system a state on a cycle leads to states on it only. -/
theorem transGen_self_of_reach (hHop : Relator.RightUnique hop) {t u : τ}
    (hCycle : TransGen hop t t) (hReach : ReflTransGen hop t u) : TransGen hop u u := by
  induction hReach with
  | refl => exact hCycle
  | @tail u w _ hStep ih =>
      obtain ⟨w', hFirst, hBack⟩ := TransGen.head'_iff.mp ih
      cases hHop hStep hFirst
      exact TransGen.tail' hBack hStep

theorem not_halts_of_returns (hHop : Relator.RightUnique hop) {t : τ} (hReturns : Returns hop t) :
    ¬ Halts hop t := by
  rintro ⟨stop, hStop, hLast⟩
  obtain ⟨u, hReach, hCycle⟩ := hReturns
  -- The paths to the cycle and to the stop are one path.
  rcases ReflTransGen.total_of_right_unique hHop hReach hStop with hOn | hOff
  · obtain ⟨w, hStep, -⟩ := TransGen.head'_iff.mp (transGen_self_of_reach hHop hCycle hOn)
    exact hLast w hStep
  · rcases ReflTransGen.cases_head hOff with rfl | ⟨w, hStep, -⟩
    · obtain ⟨w, hStep, -⟩ := TransGen.head'_iff.mp hCycle
      exact hLast w hStep
    · exact hLast w hStep

/-- Over finitely many states a system that never stops comes back somewhere. -/
theorem halts_or_returns {t : τ} (hFinite : {u | ReflTransGen hop t u}.Finite) :
    Halts hop t ∨ Returns hop t := by
  by_contra hNeither
  obtain ⟨hHalts, hReturns⟩ := not_or.mp hNeither
  have hGoesOn : ∀ u : {u | ReflTransGen hop t u}, ∃ w : {u | ReflTransGen hop t u}, hop u w := by
    rintro ⟨u, hReach⟩
    by_contra hLast
    exact hHalts ⟨u, hReach, fun w hStep => hLast ⟨⟨w, hReach.tail hStep⟩, hStep⟩⟩
  choose next hNext using hGoesOn
  let path : Nat → {u | ReflTransGen hop t u} := fun n => next^[n] ⟨t, .refl⟩
  have hStep : ∀ n, hop (path n) (path (n + 1)) := fun n => by
    simp only [path, Function.iterate_succ_apply']
    exact hNext _
  have hLater : ∀ m n, TransGen hop (path m) (path (m + n + 1)) := fun m n => by
    induction n with
    | zero => exact .single (hStep m)
    | succ n ih => exact ih.tail (hStep _)
  obtain ⟨m, n, hLt, hSame⟩ :=
    hFinite.exists_lt_map_eq_of_forall_mem (f := fun n => (path n : τ)) fun n => (path n).property
  refine hReturns ⟨path m, (path m).property, ?_⟩
  have hBack := hLater m (n - m - 1)
  rw [show m + (n - m - 1) + 1 = n by omega, ← hSame] at hBack
  exact hBack

/-- Where a deterministic system stops is one place. -/
theorem halt_unique (hHop : Relator.RightUnique hop) {t u w : τ} (hFirst : ReflTransGen hop t u)
    (hSecond : ReflTransGen hop t w) (hLastFirst : ∀ v, ¬ hop u v) (hLastSecond : ∀ v, ¬ hop w v) :
    u = w := by
  rcases ReflTransGen.total_of_right_unique hHop hFirst hSecond with hOn | hOn
  · rcases ReflTransGen.cases_head hOn with hSame | ⟨v, hStep, -⟩
    · exact hSame
    · exact absurd hStep (hLastFirst v)
  · rcases ReflTransGen.cases_head hOn with hSame | ⟨v, hStep, -⟩
    · exact hSame.symm
    · exact absurd hStep (hLastSecond v)

theorem halts_of_hop (hHop : Relator.RightUnique hop) {t u : τ} (hStep : hop t u) (hHalts : Halts hop t) :
    Halts hop u := by
  obtain ⟨stop, hStop, hLast⟩ := hHalts
  rcases ReflTransGen.cases_head hStop with rfl | ⟨w, hFirst, hRest⟩
  · exact absurd hStep (hLast u)
  · cases hHop hStep hFirst
    exact ⟨stop, hRest, hLast⟩

theorem halts_iff_not_returns (hHop : Relator.RightUnique hop) {t : τ}
    (hFinite : {u | ReflTransGen hop t u}.Finite) : Halts hop t ↔ ¬ Returns hop t :=
  ⟨fun hHalts hReturns => not_halts_of_returns hHop hReturns hHalts,
    fun hNot => (halts_or_returns hFinite).resolve_right hNot⟩

end Halting

/-- What a turn of a loop comes to: another turn, or the end of the loop. -/
inductive LoopTurn (σ ρ : Type) where
  | next (s : σ)
  | leave (result : ρ)

variable {σ ρ : Type}

/-- At most `turns` turns: the result, or `none` where the loop still runs. -/
def loop (turn : σ → Reader (LoopTurn σ ρ)) : Nat → σ → Reader (Option ρ)
  | 0, _ => pure none
  | turns + 1, s => do
      let came ← turn s
      match came with
      | .next s => loop turn turns s
      | .leave result => pure (some result)

/-- One turn leads from the first state to the second. -/
def GoesOn (turn : σ → Reader (LoopTurn σ ρ)) (mem : Memory) (s t : σ) : Prop :=
  (turn s).value mem = .next t

/-- Enough turns bring the loop to its end. -/
def Ends (turn : σ → Reader (LoopTurn σ ρ)) (mem : Memory) (s : σ) : Prop :=
  ∃ turns result, (loop turn turns s).value mem = some result

variable {turn : σ → Reader (LoopTurn σ ρ)} {mem : Memory} {s : σ} {turns : Nat}

theorem loop_next {t : σ} (h : (turn s).value mem = .next t) :
    (loop turn (turns + 1) s).value mem = (loop turn turns t).value mem ∧
      (loop turn (turns + 1) s).reads mem =
        (turn s).reads mem ++ (loop turn turns t).reads mem := by
  rw [loop, Reader.value_bind, Reader.reads_bind, h]
  exact ⟨rfl, rfl⟩

theorem loop_leave {result : ρ} (h : (turn s).value mem = .leave result) :
    (loop turn (turns + 1) s).value mem = some result ∧
      (loop turn (turns + 1) s).reads mem = (turn s).reads mem := by
  rw [loop, Reader.value_bind, Reader.reads_bind, h]
  exact ⟨rfl, List.append_nil _⟩

/-- A loop that has ended has done so in a state that it came to. -/
theorem exists_leave_of_loop {result : ρ} (h : (loop turn turns s).value mem = some result) :
    ∃ t, ReflTransGen (GoesOn turn mem) s t ∧ (turn t).value mem = .leave result := by
  induction turns generalizing s with
  | zero => cases h
  | succ turns ih =>
      cases hTurn : (turn s).value mem with
      | next t =>
          obtain ⟨u, hReach, hLeave⟩ := ih ((loop_next hTurn).1 ▸ h)
          exact ⟨u, hReach.head hTurn, hLeave⟩
      | leave r =>
          cases (loop_leave hTurn).1.symm.trans h
          exact ⟨s, .refl, hTurn⟩

theorem exists_loop_of_leave {t : σ} {result : ρ} (hReach : ReflTransGen (GoesOn turn mem) s t)
    (hLeave : (turn t).value mem = .leave result) :
    ∃ turns, (loop turn turns s).value mem = some result := by
  induction hReach using ReflTransGen.head_induction_on with
  | refl => exact ⟨1, (loop_leave hLeave).1⟩
  | head hStep _ ih =>
      obtain ⟨turns, hEnd⟩ := ih
      exact ⟨turns + 1, (loop_next hStep).1.trans hEnd⟩

theorem ends_iff_exists_leave : Ends turn mem s ↔
    ∃ t result, ReflTransGen (GoesOn turn mem) s t ∧ (turn t).value mem = .leave result :=
  ⟨fun ⟨_, result, h⟩ => let ⟨t, hReach, hLeave⟩ := exists_leave_of_loop h
    ⟨t, result, hReach, hLeave⟩,
  fun ⟨_, result, hReach, hLeave⟩ => let ⟨turns, h⟩ := exists_loop_of_leave hReach hLeave
    ⟨turns, result, h⟩⟩

/-- A loop that has ended has read in bounds if every state it came to reads so. -/
theorem within_loop_iff {result : ρ} {length : Nat}
    (h : (loop turn turns s).value mem = some result) :
    (loop turn turns s).Within length mem ↔
      ∀ t, ReflTransGen (GoesOn turn mem) s t → (turn t).Within length mem := by
  induction turns generalizing s with
  | zero => cases h
  | succ turns ih =>
      cases hTurn : (turn s).value mem with
      | next t =>
          have hSplit : (loop turn (turns + 1) s).Within length mem ↔
              (turn s).Within length mem ∧ (loop turn turns t).Within length mem := by
            simp only [Reader.Within, (loop_next hTurn).2, List.mem_append, or_imp, forall_and]
          rw [hSplit, ih ((loop_next hTurn).1 ▸ h)]
          constructor
          · rintro ⟨hFirst, hRest⟩ u hReach
            rcases ReflTransGen.cases_head hReach with rfl | ⟨t', hStep, hRestReach⟩
            · exact hFirst
            · cases hTurn.symm.trans hStep
              exact hRest u hRestReach
          · exact fun hAll => ⟨hAll s .refl, fun u hReach => hAll u (hReach.head hTurn)⟩
      | leave r =>
          have hSame : (loop turn (turns + 1) s).Within length mem ↔ (turn s).Within length mem := by
            simp only [Reader.Within, (loop_leave hTurn).2]
          rw [hSame]
          constructor
          · intro hFirst u hReach
            rcases ReflTransGen.cases_head hReach with rfl | ⟨t', hStep, -⟩
            · exact hFirst
            · cases hTurn.symm.trans hStep
          · exact fun hAll => hAll s .refl

/-- More turns than the loop needs change nothing. -/
theorem loop_add {result : ρ} (h : (loop turn turns s).value mem = some result) (more : Nat) :
    (loop turn (turns + more) s).value mem = some result ∧
      (loop turn (turns + more) s).reads mem = (loop turn turns s).reads mem := by
  induction turns generalizing s with
  | zero => cases h
  | succ turns ih =>
      rw [Nat.succ_add]
      cases hTurn : (turn s).value mem with
      | next t =>
          have hRest := ih ((loop_next hTurn).1 ▸ h)
          rw [(loop_next hTurn).1, (loop_next hTurn).2, (loop_next hTurn).2, hRest.2]
          exact ⟨hRest.1, rfl⟩
      | leave r =>
          cases (loop_leave hTurn).1.symm.trans h
          rw [(loop_leave hTurn).1, (loop_leave hTurn).2, (loop_leave hTurn).2]
          exact ⟨rfl, rfl⟩

/-- Where every turn reads in bounds, keeps an invariant and lowers a measure,
enough turns end the loop with a result as wanted. -/
theorem meets_loop {I : σ → Prop} {P : ρ → Prop} {length : Nat} (measure : σ → Nat)
    (hTurn : ∀ s, I s → (turn s).Meets length (fun came => match came with
      | .next t => I t ∧ measure t < measure s
      | .leave result => P result) mem)
    (hStart : I s) (hTurns : measure s < turns) :
    (loop turn turns s).Meets length (fun ended => ∃ result, ended = some result ∧ P result) mem := by
  induction turns generalizing s with
  | zero => exact absurd hTurns (Nat.not_lt_zero _)
  | succ turns ih =>
      obtain ⟨hReads, hCame⟩ := hTurn s hStart
      refine Reader.meets_bind hReads ?_
      generalize (turn s).value mem = came at hCame ⊢
      cases came with
      | next t => exact ih hCame.1 (Nat.lt_of_lt_of_le hCame.2 (Nat.le_of_lt_succ hTurns))
      | leave result => exact Reader.meets_pure ⟨result, rfl, hCame⟩

section View

variable {τ : Type*} {hop : τ → τ → Prop} {I : σ → Prop} (view : σ → τ)

/-- What the turns keep, every state of the loop has. -/
theorem reach_invariant (hKeep : ∀ s t, I s → GoesOn turn mem s t → I t) {t : σ} (hStart : I s)
    (hReach : ReflTransGen (GoesOn turn mem) s t) : I t := by
  induction hReach with
  | refl => exact hStart
  | tail _ hStep ih => exact hKeep _ _ ih hStep

/-- Turns that are the steps of a smaller system lead along its paths. -/
theorem reach_view (hKeep : ∀ s t, I s → GoesOn turn mem s t → I t)
    (hNext : ∀ s t, I s → GoesOn turn mem s t → hop (view s) (view t)) {t : σ} (hStart : I s)
    (hReach : ReflTransGen (GoesOn turn mem) s t) : ReflTransGen hop (view s) (view t) := by
  induction hReach with
  | refl => exact .refl
  | tail hFront hStep ih => exact ih.tail (hNext _ _ (reach_invariant hKeep hStart hFront) hStep)

/-- The paths of the smaller system are walked, where the loop leaves at their ends only. -/
theorem exists_reach_of_view (hHop : Relator.RightUnique hop)
    (hKeep : ∀ s t, I s → GoesOn turn mem s t → I t)
    (hNext : ∀ s t, I s → GoesOn turn mem s t → hop (view s) (view t))
    (hLeave : ∀ s result, I s → (turn s).value mem = .leave result → ∀ w, ¬ hop (view s) w)
    (hStart : I s) {u : τ} (hReach : ReflTransGen hop (view s) u) :
    ∃ t, ReflTransGen (GoesOn turn mem) s t ∧ view t = u := by
  generalize hView : view s = start at hReach
  induction hReach using ReflTransGen.head_induction_on generalizing s with
  | refl => exact ⟨s, .refl, hView⟩
  | head hStep _ ih =>
      cases hTurn : (turn s).value mem with
      | next t =>
          obtain ⟨v, hRest, hEnd⟩ :=
            ih (hKeep s t hStart hTurn) (hHop (hNext s t hStart hTurn) (hView ▸ hStep))
          exact ⟨v, hRest.head hTurn, hEnd⟩
      | leave r => exact absurd (hView ▸ hStep) (hLeave s r hStart hTurn _)

/-- A loop whose turns are the steps of a smaller system ends where that halts. -/
theorem ends_iff_halts (hHop : Relator.RightUnique hop)
    (hKeep : ∀ s t, I s → GoesOn turn mem s t → I t)
    (hNext : ∀ s t, I s → GoesOn turn mem s t → hop (view s) (view t))
    (hLeave : ∀ s result, I s → (turn s).value mem = .leave result → ∀ w, ¬ hop (view s) w)
    (hStart : I s) : Ends turn mem s ↔ Halts hop (view s) := by
  rw [ends_iff_exists_leave]
  constructor
  · rintro ⟨t, result, hReach, hEnd⟩
    exact ⟨view t, reach_view view hKeep hNext hStart hReach,
      hLeave t result (reach_invariant hKeep hStart hReach) hEnd⟩
  · rintro ⟨u, hReach, hLast⟩
    obtain ⟨t, hWalked, rfl⟩ :=
      exists_reach_of_view view hHop hKeep hNext hLeave hStart hReach
    cases hTurn : (turn t).value mem with
    | next w => exact absurd (hNext t w (reach_invariant hKeep hStart hWalked) hTurn) (hLast _)
    | leave r => exact ⟨t, r, hWalked, hTurn⟩

/-- Where a loop ends, no state of the smaller system comes a second time. So it takes
at most one turn for each. -/
theorem loop_card [DecidableEq τ] (hHop : Relator.RightUnique hop)
    (hKeep : ∀ s t, I s → GoesOn turn mem s t → I t)
    (hNext : ∀ s t, I s → GoesOn turn mem s t → hop (view s) (view t)) (hStart : I s) (marks : Finset τ)
    (hMarks : ∀ u, ReflTransGen hop (view s) u → u ∈ marks) (hHalts : Halts hop (view s)) :
    ∃ result, (loop turn marks.card s).value mem = some result := by
  induction hCard : marks.card generalizing s marks with
  | zero =>
      rw [Finset.card_eq_zero.mp hCard] at hMarks
      exact absurd (hMarks _ .refl) (Finset.notMem_empty _)
  | succ n ih =>
      cases hTurn : (turn s).value mem with
      | leave result => exact ⟨result, (loop_leave hTurn).1⟩
      | next t =>
          have hStep : hop (view s) (view t) := hNext s t hStart hTurn
          have hRest : ∀ u, ReflTransGen hop (view t) u → u ∈ marks.erase (view s) := by
            intro u hReach
            refine Finset.mem_erase.mpr ⟨?_, hMarks u (hReach.head hStep)⟩
            rintro rfl
            exact not_halts_of_returns hHop ⟨_, .refl, TransGen.head' hStep hReach⟩ hHalts
          have hFewer : (marks.erase (view s)).card = n := by
            rw [Finset.card_erase_of_mem (hMarks _ .refl), hCard, Nat.add_sub_cancel]
          obtain ⟨result, hEnd⟩ := ih (hKeep s t hStart hTurn) _ hRest (halts_of_hop hHop hStep hHalts) hFewer
          exact ⟨result, (loop_next hTurn).1.trans hEnd⟩

end View

end Machine
