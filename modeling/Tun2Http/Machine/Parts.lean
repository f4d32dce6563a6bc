import Tun2Http.Machine.Execution

/-! A machine that consists of parts, each of them with a name. One of its steps
shows every part some inputs of the part's own machine, and parts are added. The
parts then run alone: each is what its own machine makes of what the run has shown
to it, whatever else went on. -/
namespace Machine

variable {σ ι κ α μ : Type*} (step : σ → ι → σ) (shown : σ → ι → κ → List μ)

/-- What a run shows to the part with the name `name`. -/
def history (name : κ) : σ → List ι → List μ
  | _, [] => []
  | s, i :: rest => shown s i name ++ history name (step s i) rest

@[simp] theorem history_nil (name : κ) (s : σ) : history step shown name s [] = [] := rfl

@[simp] theorem history_cons (name : κ) (s : σ) (i : ι) (rest : List ι) :
    history step shown name s (i :: rest) =
      shown s i name ++ history step shown name (step s i) rest := rfl

variable {step shown}

/-- A condition on single inputs of a part that every step of a run meets. -/
theorem history_forall {P : μ → Prop} {name : κ} {s : σ} {inputs : List ι}
    (hRun : Along step (fun s i => ∀ m ∈ shown s i name, P m) s inputs) :
    ∀ m ∈ history step shown name s inputs, P m := by
  induction inputs generalizing s with
  | nil => exact fun m hm => absurd hm List.not_mem_nil
  | cons i rest ih =>
      intro m hm
      rcases List.mem_append.mp hm with hHere | hLater
      · exact hRun.1 m hHere
      · exact ih hRun.2 m hLater

/-- What every admissible step keeps between the state and the histories of all parts, a
run of such steps keeps. -/
theorem history_invariant {ok : σ → ι → Prop} {I : σ → Prop} {J : σ → (κ → List μ) → Prop}
    (hKeep : ∀ s i, I s → I (step s i))
    (hStep : ∀ s i before, ok s i → I s → J s before → J (step s i) fun name => before name ++ shown s i name)
    {start : σ} (hStart : I start) {before : κ → List μ} (hBefore : J start before) {inputs : List ι}
    (hRun : Along step ok start inputs) :
    J (run step start inputs) fun name => before name ++ history step shown name start inputs := by
  induction inputs generalizing start before with
  | nil => simpa using hBefore
  | cons i rest ih =>
      have hRest := ih (hKeep start i hStart) (hStep start i before hRun.1 hStart hBefore) hRun.2
      simpa only [run_cons, history_cons, List.append_assoc] using hRest

/-- Every part has `P` together with what it was told so far, and nothing was told to
the parts to come. -/
structure Told (has : σ → κ → α → Prop) (fresh : σ → κ → Prop) (P : List μ → α → Prop) (s : σ)
    (before : κ → List μ) : Prop where
  holds : ∀ name b, has s name b → P (before name) b
  empty : ∀ name, fresh s name → before name = []

/-- A step that tells a part more keeps `P`, and a part that is added has it at once. -/
theorem history_of_parts (has : σ → κ → α → Prop) (fresh : σ → κ → Prop) {P : List μ → α → Prop}
    {ok : σ → ι → Prop} {I : σ → Prop} (hKeep : ∀ s i, I s → I (step s i))
    (hStep : ∀ s i, ok s i → I s → ∀ name b, has (step s i) name b →
      (∃ a, has s name a ∧ ∀ before, P before a → P (before ++ shown s i name) b) ∨
        (fresh s name ∧ P (shown s i name) b))
    (hFresh : ∀ s i, I s → ∀ name, fresh (step s i) name → fresh s name ∧ shown s i name = [])
    {start : σ} (hStart : I start) (hNone : ∀ name a, ¬ has start name a) {inputs : List ι}
    (hRun : Along step ok start inputs) {name : κ} {b : α} (hHas : has (run step start inputs) name b) :
    P (history step shown name start inputs) b := by
  have hTold : ∀ s i before, ok s i → I s → Told has fresh P s before →
      Told has fresh P (step s i) fun name => before name ++ shown s i name := by
    intro s i before hOk hI hBefore
    refine ⟨fun name b hHas => ?_, fun name hNew => ?_⟩
    · rcases hStep s i hOk hI name b hHas with ⟨a, hOld, hMore⟩ | ⟨hNew, hFirst⟩
      · exact hMore _ (hBefore.holds name a hOld)
      · simpa only [hBefore.empty name hNew, List.nil_append] using hFirst
    · obtain ⟨hStill, hNothing⟩ := hFresh s i hI name hNew
      simp only [hBefore.empty name hStill, hNothing, List.append_nil]
  have hNothing : Told has fresh P start fun _ => [] :=
    ⟨fun name a hHas => absurd hHas (hNone name a), fun _ _ => rfl⟩
  exact (history_invariant hKeep hTold hStart hNothing hRun).holds name b hHas

/-- A part was there when the run began, or a step has added it. From then on it is
what its own machine `treat` makes of its history. -/
theorem parts_run {treat : α → μ → α} {has : σ → κ → α → Prop} {opens : σ → ι → κ → α → Prop}
    {I : σ → Prop} (hKeep : ∀ s i, I s → I (step s i))
    (hStep : ∀ s i, I s → ∀ name b, has (step s i) name b →
      (∃ a, has s name a ∧ b = run treat a (shown s i name)) ∨ opens s i name b)
    {start : σ} (hStart : I start) {inputs : List ι} {name : κ} {b : α}
    (hHas : has (run step start inputs) name b) :
    (∃ a, has start name a ∧ b = run treat a (history step shown name start inputs)) ∨
      ∃ before i after a, inputs = before ++ i :: after ∧ opens (run step start before) i name a ∧
        b = run treat a (history step shown name (step (run step start before) i) after) := by
  induction inputs generalizing start with
  | nil => exact Or.inl ⟨b, hHas, rfl⟩
  | cons i rest ih =>
      rcases ih (hKeep start i hStart) hHas with ⟨a, hA, hB⟩ | ⟨before, j, after, a, rfl, hOpens, hB⟩
      · rcases hStep start i hStart name a hA with ⟨first, hFirst, hTreated⟩ | hOpens
        · refine Or.inl ⟨first, hFirst, ?_⟩
          rw [hB, hTreated, history_cons, run_append]
        · exact Or.inr ⟨[], i, rest, a, rfl, hOpens, hB⟩
      · exact Or.inr ⟨i :: before, j, after, a, rfl, hOpens, hB⟩

end Machine
