import Mathlib.Logic.Relation
import Mathlib.Order.Basic

/-! Deterministic machines driven by a list of inputs. A run consumes the
inputs one at a time; an invariant or a side condition is proved for one
step here and holds along every run. -/
namespace Machine

variable {σ ι : Type*} (step : σ → ι → σ)

/-- The state after all `inputs`. -/
def run (start : σ) (inputs : List ι) : σ := inputs.foldl step start

@[simp] theorem run_nil (s : σ) : run step s [] = s := rfl

@[simp] theorem run_cons (s : σ) (i : ι) (rest : List ι) :
    run step s (i :: rest) = run step (step s i) rest := rfl

theorem run_append (s : σ) (first second : List ι) :
    run step s (first ++ second) = run step (run step s first) second :=
  List.foldl_append ..

/-- Every step of the run meets `ok` in the state in which it is taken. -/
def Along (ok : σ → ι → Prop) : σ → List ι → Prop
  | _, [] => True
  | s, i :: rest => ok s i ∧ Along ok (step s i) rest

@[simp] theorem along_nil (ok : σ → ι → Prop) (s : σ) : Along step ok s [] := trivial

@[simp] theorem along_cons (ok : σ → ι → Prop) (s : σ) (i : ι) (rest : List ι) :
    Along step ok s (i :: rest) ↔ ok s i ∧ Along step ok (step s i) rest := Iff.rfl

instance decidableAlong (ok : σ → ι → Prop) [∀ s i, Decidable (ok s i)] :
    ∀ (s : σ) (inputs : List ι), Decidable (Along step ok s inputs)
  | _, [] => isTrue trivial
  | s, i :: rest =>
      have := decidableAlong ok (step s i) rest
      inferInstanceAs (Decidable (ok s i ∧ Along step ok (step s i) rest))

variable {step}

theorem along_append {ok : σ → ι → Prop} {s : σ} {first second : List ι} :
    Along step ok s (first ++ second) ↔
      Along step ok s first ∧ Along step ok (run step s first) second := by
  induction first generalizing s with
  | nil => simp
  | cons i rest ih => simp [ih, and_assoc]

theorem Along.and {first second : σ → ι → Prop} {s : σ} {inputs : List ι}
    (hFirst : Along step first s inputs) (hSecond : Along step second s inputs) :
    Along step (fun c i => first c i ∧ second c i) s inputs := by
  induction inputs generalizing s with
  | nil => trivial
  | cons i rest ih => exact ⟨⟨hFirst.1, hSecond.1⟩, ih hFirst.2 hSecond.2⟩

theorem Along.imp {first second : σ → ι → Prop} {s : σ} {inputs : List ι}
    (h : Along step first s inputs) (hImp : ∀ c i, first c i → second c i) :
    Along step second s inputs := by
  induction inputs generalizing s with
  | nil => trivial
  | cons i rest ih => exact ⟨hImp s i h.1, ih h.2⟩

/-- A condition on the inputs alone. -/
theorem along_of_forall {ok : ι → Prop} (s : σ) {inputs : List ι} (h : ∀ i ∈ inputs, ok i) :
    Along step (fun _ i => ok i) s inputs := by
  induction inputs generalizing s with
  | nil => trivial
  | cons i rest ih =>
      exact ⟨h i (List.mem_cons_self ..), ih _ fun j hj => h j (List.mem_cons_of_mem _ hj)⟩

/-- What one admissible step preserves, every run of admissible steps preserves. -/
theorem run_invariant {ok : σ → ι → Prop} {I : σ → Prop} {s : σ} {inputs : List ι}
    (hStart : I s) (hRun : Along step ok s inputs)
    (hStep : ∀ c i, I c → ok c i → I (step c i)) : I (run step s inputs) := by
  induction inputs generalizing s with
  | nil => exact hStart
  | cons i rest ih => exact ih (hStep s i hStart hRun.1) hRun.2

/-- An invariant that every step keeps, whatever its input. -/
theorem run_invariant_always {I : σ → Prop} {s : σ} (inputs : List ι)
    (hStart : I s) (hStep : ∀ c i, I c → I (step c i)) : I (run step s inputs) := by
  induction inputs generalizing s with
  | nil => exact hStart
  | cons i rest ih => exact ih (hStep s i hStart)

/-- A law of single steps, proved from an invariant, holds at every step of a run. -/
theorem along_of_invariant {ok law : σ → ι → Prop} {I : σ → Prop} {s : σ} {inputs : List ι}
    (hStart : I s) (hRun : Along step ok s inputs)
    (hStep : ∀ c i, I c → ok c i → I (step c i))
    (hLaw : ∀ c i, I c → ok c i → law c i) : Along step law s inputs := by
  induction inputs generalizing s with
  | nil => trivial
  | cons i rest ih => exact ⟨hLaw s i hStart hRun.1, ih (hStep s i hStart hRun.1) hRun.2⟩

/-- A state that lasts until a step fires, and one that lasts from then on: no step
of a run fires and the first one holds at its end, or some step does and the second. -/
theorem run_fired_cases {ok : ι → Prop} {fires : σ → ι → Prop} {before after : σ → Prop} {s : σ}
    {inputs : List ι} (hStart : before s) (hOk : ∀ i ∈ inputs, ok i)
    (hStay : ∀ c i, before c → ok i → ¬ fires c i → before (step c i))
    (hFire : ∀ c i, before c → ok i → fires c i → after (step c i))
    (hKeep : ∀ c i, after c → ok i → after (step c i)) :
    (Along step (fun c i => ¬ fires c i) s inputs ∧ before (run step s inputs)) ∨
      (¬ Along step (fun c i => ¬ fires c i) s inputs ∧ after (run step s inputs)) := by
  induction inputs generalizing s with
  | nil => exact Or.inl ⟨trivial, hStart⟩
  | cons i rest ih =>
      have hFirst := hOk i (List.mem_cons_self ..)
      have hRest : ∀ j ∈ rest, ok j := fun j hj => hOk j (List.mem_cons_of_mem _ hj)
      by_cases hFires : fires s i
      · have hAfter := hFire s i hStart hFirst hFires
        have hEnd : after (run step (step s i) rest) :=
          run_invariant hAfter (along_of_forall _ hRest) hKeep
        exact Or.inr ⟨fun hAlong => hAlong.1 hFires, hEnd⟩
      · rcases ih (hStay s i hStart hFirst hFires) hRest with ⟨hAlong, hEnd⟩ | ⟨hSome, hEnd⟩
        · exact Or.inl ⟨⟨hFires, hAlong⟩, hEnd⟩
        · exact Or.inr ⟨fun hAlong => hSome hAlong.2, hEnd⟩

/-- Two laws of single steps that agree wherever an invariant holds agree
along whole runs. -/
theorem along_congr {first second : σ → ι → Prop} {I : σ → Prop} {s : σ} {inputs : List ι}
    (hStart : I s) (hStep : ∀ c i, I c → I (step c i))
    (hIff : ∀ c i, I c → (first c i ↔ second c i)) :
    Along step first s inputs ↔ Along step second s inputs := by
  induction inputs generalizing s with
  | nil => simp
  | cons i rest ih => simp only [along_cons, hIff s i hStart, ih (hStep s i hStart)]

variable (step) in
/-- A rank that no step lowers is never lower later in the run, and
conversely: comparing neighbours is the same as comparing all moments. -/
theorem along_rank_iff {α : Type*} [Preorder α] (rank : σ → α) (s : σ) (inputs : List ι) :
    Along step (fun c i => rank c ≤ rank (step c i)) s inputs ↔
      ∀ first second third, inputs = first ++ second ++ third →
        rank (run step s first) ≤ rank (run step s (first ++ second)) := by
  constructor
  · intro hAlong first second third hSplit
    subst hSplit
    rw [along_append, along_append] at hAlong
    rw [run_append]
    exact run_invariant (I := fun c => rank (run step s first) ≤ rank c)
      le_rfl hAlong.1.2 (fun c i hc hi => hc.trans hi)
  · intro hAll
    induction inputs generalizing s with
    | nil => trivial
    | cons i rest ih =>
        refine ⟨hAll [] [i] rest rfl, ih _ ?_⟩
        intro first second third hSplit
        exact hAll (i :: first) second third (by simp [hSplit])

section View

variable {τ : Type*} {seen : τ → ι → τ} {view : τ → σ}

/-- A machine that carries more than another does runs like it. -/
theorem run_view (hView : ∀ t i, view (seen t i) = step (view t) i) (t : τ) (inputs : List ι) :
    view (run seen t inputs) = run step (view t) inputs := by
  induction inputs generalizing t with
  | nil => rfl
  | cons i rest ih => rw [run_cons, run_cons, ih, hView]

theorem along_view (hView : ∀ t i, view (seen t i) = step (view t) i) {ok : σ → ι → Prop} {t : τ}
    {inputs : List ι} (hRun : Along step ok (view t) inputs) :
    Along seen (fun t i => ok (view t) i) t inputs := by
  induction inputs generalizing t with
  | nil => trivial
  | cons i rest ih => exact ⟨hRun.1, ih (hView t i ▸ hRun.2)⟩

end View

section Moves

variable {move : σ → σ → Prop}

/-- What one atomic move preserves, every sequence of moves preserves. -/
theorem moves_invariant {I : σ → Prop} {s t : σ}
    (hMoves : Relation.ReflTransGen move s t) (hStart : I s)
    (hMove : ∀ c d, I c → move c d → I d) : I t := by
  induction hMoves with
  | refl => exact hStart
  | tail _ last ih => exact hMove _ _ ih last

end Moves

end Machine
