import Tun2Http.Machine.Execution

/-! Machines that get something done. A step takes from the work that is left, as long
as there is any, so a run that is long enough leaves none. -/
namespace Machine

variable {σ ι : Type*} {step : σ → ι → σ}

/-- Each step of a run does a unit of the work, and keeps the invariant that lets it. -/
theorem run_work {I : σ → Prop} {ok : σ → ι → Prop} {work : σ → Nat} {s : σ} {inputs : List ι}
    (hStart : I s) (hRun : Along step ok s inputs)
    (hStep : ∀ c i, I c → ok c i → I (step c i) ∧ work (step c i) ≤ work c - 1) :
    I (run step s inputs) ∧ work (run step s inputs) ≤ work s - inputs.length := by
  induction inputs generalizing s with
  | nil => exact ⟨hStart, Nat.le_refl _⟩
  | cons i rest ih =>
      obtain ⟨hKept, hLess⟩ := hStep s i hStart hRun.1
      obtain ⟨hEnd, hWork⟩ := ih hKept hRun.2
      refine ⟨hEnd, ?_⟩
      rw [run_cons, List.length_cons]
      omega

/-- So a run of as many steps as there is work leaves none. -/
theorem run_done {I : σ → Prop} {ok : σ → ι → Prop} {work : σ → Nat} {s : σ} {inputs : List ι}
    (hStart : I s) (hRun : Along step ok s inputs)
    (hStep : ∀ c i, I c → ok c i → I (step c i) ∧ work (step c i) ≤ work c - 1)
    (hLong : work s ≤ inputs.length) : I (run step s inputs) ∧ work (run step s inputs) = 0 := by
  obtain ⟨hEnd, hWork⟩ := run_work hStart hRun hStep
  exact ⟨hEnd, by omega⟩

variable (step) in
/-- At least `count` of the steps are good in the state in which they are taken. -/
inductive Hits (good : σ → ι → Prop) : σ → List ι → Nat → Prop where
  | nil (s : σ) : Hits good s [] 0
  | hit {s : σ} {i : ι} {rest : List ι} {count : Nat} (hGood : good s i)
      (hRest : Hits good (step s i) rest count) : Hits good s (i :: rest) (count + 1)
  | miss {s : σ} {i : ι} {rest : List ι} {count : Nat} (hRest : Hits good (step s i) rest count) :
      Hits good s (i :: rest) count

/-- Where only the good steps do work, and none undoes it, that many units are done. -/
theorem Hits.work {I : σ → Prop} {ok good : σ → ι → Prop} {work : σ → Nat} {s : σ} {inputs : List ι}
    {count : Nat} (hHits : Hits step good s inputs count) (hStart : I s) (hRun : Along step ok s inputs)
    (hStep : ∀ c i, I c → ok c i →
      I (step c i) ∧ work (step c i) ≤ work c ∧ (good c i → work (step c i) ≤ work c - 1)) :
    work (run step s inputs) ≤ work s - count := by
  induction hHits with
  | nil s => exact Nat.le_refl _
  | hit hGood hRest ih =>
      obtain ⟨hKept, -, hLess⟩ := hStep _ _ hStart hRun.1
      have hDone := ih hKept hRun.2
      have hUnit := hLess hGood
      rw [run_cons]
      omega
  | miss hRest ih =>
      obtain ⟨hKept, hLess, -⟩ := hStep _ _ hStart hRun.1
      have hDone := ih hKept hRun.2
      rw [run_cons]
      omega

end Machine
