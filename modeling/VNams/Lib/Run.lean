import Mathlib.Order.Notation

/-!
Runs of a system whose operations may fault.

A system is a step function `σ → α → Except ε σ`: an operation either leads to
a next state or faults, and a fault ends the run. `Run step guard` collects the
finite runs whose every operation meets `guard` in the state it starts from.
`Run.invariant` is the induction rule every safety theorem uses.
-/

namespace VNams.Lib

universe u v w

variable {σ : Type u} {α : Type v} {ε : Type w}

/-- `Run step guard s as s'`: the operations `as`, performed in order, lead from
`s` to `s'`; none faults and each meets `guard` where it starts. -/
inductive Run (step : σ → α → Except ε σ) (guard : σ → α → Prop) :
    σ → List α → σ → Prop where
  | nil (s : σ) : Run step guard s [] s
  | cons {s mid s' : σ} {a : α} {as : List α} :
      guard s a → step s a = .ok mid → Run step guard mid as s' →
      Run step guard s (a :: as) s'

/-- The guard of an unrestricted run. -/
def Anything (_ : σ) (_ : α) : Prop := True

namespace Run

variable {step : σ → α → Except ε σ} {guard guard' : σ → α → Prop}

/-- A predicate kept by every guarded step holds at the end of every guarded
run that starts with it. -/
theorem invariant {inv : σ → Prop}
    (keeps : ∀ s a s', inv s → guard s a → step s a = .ok s' → inv s')
    {s s' : σ} {as : List α} (start : inv s) (run : Run step guard s as s') : inv s' := by
  induction run with
  | nil => exact start
  | cons meets stepped _ ih => exact ih (keeps _ _ _ start meets stepped)

/-- A run may meet a weaker guard. -/
theorem mono (weaker : ∀ s a, guard s a → guard' s a) {s s' : σ} {as : List α}
    (run : Run step guard s as s') : Run step guard' s as s' := by
  induction run with
  | nil => exact .nil _
  | cons meets stepped _ ih => exact .cons (weaker _ _ meets) stepped ih

/-- A run meets every guard that its operations meet in all states. -/
theorem of_forall {s s' : σ} {as : List α} (meets : ∀ a ∈ as, ∀ s, guard' s a)
    (run : Run step guard s as s') : Run step guard' s as s' := by
  induction run with
  | nil => exact .nil _
  | cons _ stepped _ ih =>
      exact .cons (meets _ List.mem_cons_self _) stepped
        (ih fun a mem => meets a (List.mem_cons_of_mem _ mem))

/-- Runs compose. -/
theorem append {s mid s' : σ} {as bs : List α} (first : Run step guard s as mid)
    (second : Run step guard mid bs s') : Run step guard s (as ++ bs) s' := by
  induction first with
  | nil => exact second
  | cons meets stepped _ ih => exact .cons meets stepped (ih second)

/-- A run over `as ++ bs` passes through the state reached after `as`. -/
theorem split {s s' : σ} {bs : List α} :
    ∀ {as : List α}, Run step guard s (as ++ bs) s' →
      ∃ mid, Run step guard s as mid ∧ Run step guard mid bs s' := by
  intro as
  induction as generalizing s with
  | nil => exact fun run => ⟨s, .nil s, run⟩
  | cons a as ih =>
      intro run
      cases run with
      | cons meets stepped rest =>
          obtain ⟨mid, first, second⟩ := ih rest
          exact ⟨mid, .cons meets stepped first, second⟩

/-- A run over `as` and one more operation ends with that. -/
theorem of_snoc {s s' : σ} {as : List α} {a : α} (run : Run step guard s (as ++ [a]) s') :
    ∃ mid, Run step guard s as mid ∧ guard mid a ∧ step mid a = .ok s' := by
  obtain ⟨mid, before, last⟩ := run.split
  cases last with
  | cons meets stepped rest =>
      cases rest
      exact ⟨mid, before, meets, stepped⟩

/-- A one-operation run is one step. -/
theorem single {s s' : σ} {a : α} (meets : guard s a) (stepped : step s a = .ok s') :
    Run step guard s [a] s' :=
  .cons meets stepped (.nil s')

/-- The unrestricted runs are the successful monadic folds of the step function. -/
theorem foldlM_iff {s s' : σ} {as : List α} :
    as.foldlM step s = .ok s' ↔ Run step Anything s as s' := by
  induction as generalizing s with
  | nil =>
      constructor
      · intro folded
        cases folded
        exact .nil _
      · intro run
        cases run
        rfl
  | cons a as ih =>
      rw [List.foldlM_cons]
      cases stepped : step s a with
      | error e =>
          constructor
          · intro folded
            cases folded
          · intro run
            cases run with
            | cons _ stepped' _ => rw [stepped] at stepped'; cases stepped'
      | ok mid =>
          show as.foldlM step mid = .ok s' ↔ _
          rw [ih]
          constructor
          · exact fun run => .cons trivial stepped run
          · intro run
            cases run with
            | cons _ stepped' rest =>
                rw [stepped] at stepped'
                cases stepped'
                exact rest

/-- Operations that go through from every good state, to a good state, have a run. -/
theorem exists_of_progress {good : σ → Prop} {as : List α}
    (goes : ∀ a ∈ as, ∀ s, good s → ∃ s', step s a = .ok s' ∧ good s') {s : σ} (start : good s) :
    ∃ s', Run step Anything s as s' ∧ good s' := by
  induction as generalizing s with
  | nil => exact ⟨s, .nil s, start⟩
  | cons a as ih =>
      rw [List.forall_mem_cons] at goes
      obtain ⟨mid, stepped, kept⟩ := goes.1 s start
      obtain ⟨s', later, holds⟩ := ih goes.2 kept
      exact ⟨s', .cons trivial stepped later, holds⟩

/-- `good` holds in every state that the operations visit, the first and the last one
included. -/
def Throughout (step : σ → α → Except ε σ) (good : σ → Prop) (s : σ) (as : List α) : Prop :=
  ∀ before after mid, as = before ++ after → Run step Anything s before mid → good mid

theorem Throughout.head {good : σ → Prop} {s : σ} {as : List α}
    (always : Throughout step good s as) : good s :=
  always [] as s rfl (.nil s)

theorem Throughout.tail {good : σ → Prop} {s mid : σ} {a : α} {as : List α}
    (always : Throughout step good s (a :: as)) (stepped : step s a = .ok mid) :
    Throughout step good mid as := by
  intro before after mid' same run
  exact always (a :: before) after mid' (by rw [same, List.cons_append])
    (.cons trivial stepped run)

theorem throughout_nil {good : σ → Prop} {s : σ} (start : good s) :
    Throughout step good s [] := by
  intro before after mid same run
  obtain ⟨rfl, rfl⟩ := List.append_eq_nil_iff.mp same.symm
  cases run
  exact start

theorem throughout_cons {good : σ → Prop} {s mid : σ} {a : α} {as : List α} (start : good s)
    (stepped : step s a = .ok mid) (later : Throughout step good mid as) :
    Throughout step good s (a :: as) := by
  intro before after mid' same run
  cases run with
  | nil => exact start
  | cons _ stepped' rest =>
      obtain ⟨rfl, same'⟩ := List.cons_eq_cons.mp same
      rw [stepped] at stepped'
      cases stepped'
      exact later _ after mid' same' rest

/-- When a step keeps `good` exactly if it meets the guard, `good` holds throughout a run
exactly if every step of it meets the guard. `inv` is what every step keeps. -/
theorem throughout_iff (inv good : σ → Prop)
    (keeps : ∀ s a s', inv s → step s a = .ok s' → inv s')
    (decides : ∀ s a s', inv s → good s → step s a = .ok s' → (good s' ↔ guard s a))
    {s s' : σ} {as : List α} (start : inv s) (holds : good s) (run : Run step Anything s as s') :
    Throughout step good s as ↔ Run step guard s as s' := by
  induction run with
  | nil s => exact ⟨fun _ => .nil s, fun _ => throughout_nil holds⟩
  | @cons s mid s' a as _ stepped rest ih =>
      have decided := decides s a mid start holds stepped
      constructor
      · intro always
        have next := always.tail stepped
        exact .cons (decided.mp next.head) stepped
          ((ih (keeps _ _ _ start stepped) next.head).mp next)
      · intro guarded
        cases guarded with
        | cons meets stepped' later =>
            rw [stepped] at stepped'
            cases stepped'
            have kept := decided.mpr meets
            exact throughout_cons holds stepped
              ((ih (keeps _ _ _ start stepped) kept).mpr later)

/-- Two guards that agree as long as the first one is met admit the same runs. `inv` may speak
of the operations still to come. -/
theorem guard_iff (inv : σ → List α → Prop)
    (agree : ∀ s a as, inv s (a :: as) → (guard s a ↔ guard' s a))
    (keeps : ∀ s a as s', inv s (a :: as) → guard s a → step s a = .ok s' → inv s' as)
    {s s' : σ} {as : List α} (start : inv s as) :
    Run step guard s as s' ↔ Run step guard' s as s' := by
  constructor
  · intro run
    induction run with
    | nil => exact .nil _
    | cons meets stepped _ ih =>
        exact .cons ((agree _ _ _ start).mp meets) stepped (ih (keeps _ _ _ _ start meets stepped))
  · intro run
    induction run with
    | nil => exact .nil _
    | cons meets stepped _ ih =>
        have met := (agree _ _ _ start).mpr meets
        exact .cons met stepped (ih (keeps _ _ _ _ start met stepped))

end Run

/-- A successful bind passes through a successful first computation. -/
theorem bind_eq_ok {β γ : Type u} {first : Except ε β} {rest : β → Except ε γ} {r : γ} :
    (first >>= rest) = .ok r ↔ ∃ b, first = .ok b ∧ rest b = .ok r := by
  cases first with
  | error e =>
      constructor
      · intro bound
        cases bound
      · rintro ⟨_, failed, _⟩
        cases failed
  | ok b =>
      constructor
      · exact fun bound => ⟨b, rfl, bound⟩
      · rintro ⟨b', same, bound⟩
        cases same
        exact bound

/-! ### Histories -/

/-- The system with a history beside its state: `note` extends it after each operation, and
no operation looks at it. -/
def withHistory {η : Type u} (step : σ → α → Except ε σ) (note : η → α → σ → η) (s : σ × η)
    (a : α) : Except ε (σ × η) := do
  let s' ← step s.1 a
  .ok (s', note s.2 a s')

theorem withHistory_eq_ok {η : Type u} {step : σ → α → Except ε σ} {note : η → α → σ → η}
    {s s' : σ × η} {a : α} :
    withHistory step note s a = .ok s' ↔ step s.1 a = .ok s'.1 ∧ s'.2 = note s.2 a s'.1 := by
  unfold withHistory
  rw [bind_eq_ok]
  constructor
  · rintro ⟨mid, stepped, stored⟩
    cases stored
    exact ⟨stepped, rfl⟩
  · rintro ⟨stepped, noted⟩
    refine ⟨s'.1, stepped, ?_⟩
    rw [← noted]

/-- Every run has a history. -/
theorem Run.exists_history {η : Type u} {step : σ → α → Except ε σ} {guard : σ → α → Prop}
    (note : η → α → σ → η) {s s' : σ} {as : List α} (run : Run step guard s as s') (h : η) :
    ∃ h', Run (withHistory step note) (fun s a => guard s.1 a) (s, h) as (s', h') := by
  induction run generalizing h with
  | nil s => exact ⟨h, .nil (s, h)⟩
  | @cons s mid s' a as meets stepped _ ih =>
      obtain ⟨h', later⟩ := ih (note h a mid)
      exact ⟨h', .cons meets (withHistory_eq_ok.mpr ⟨stepped, rfl⟩) later⟩

/-! ### Two runs at once -/

/-- Two copies of the system in step. -/
def both (step : σ → α → Except ε σ) (s : σ × σ) (a : α × α) : Except ε (σ × σ) := do
  let s₁ ← step s.1 a.1
  let s₂ ← step s.2 a.2
  .ok (s₁, s₂)

theorem both_eq_ok {step : σ → α → Except ε σ} {s s' : σ × σ} {a : α × α} :
    both step s a = .ok s' ↔ step s.1 a.1 = .ok s'.1 ∧ step s.2 a.2 = .ok s'.2 := by
  unfold both
  simp only [bind_eq_ok]
  constructor
  · rintro ⟨s₁, first, s₂, second, stored⟩
    cases stored
    exact ⟨first, second⟩
  · rintro ⟨first, second⟩
    exact ⟨s'.1, first, s'.2, second, rfl⟩

/-- Two folds over one list keep what related their states. -/
theorem foldlM_related {σ' : Type u} {step : σ → α → Except ε σ} {step' : σ' → α → Except ε σ'}
    {related : σ → σ' → Prop} {as : List α}
    (keeps : ∀ a ∈ as, ∀ s s' t t', related s s' → step s a = .ok t → step' s' a = .ok t' →
      related t t')
    {s t : σ} {s' t' : σ'} (start : related s s') (first : as.foldlM step s = .ok t)
    (second : as.foldlM step' s' = .ok t') : related t t' := by
  induction as generalizing s s' with
  | nil =>
      cases first
      cases second
      exact start
  | cons a as ih =>
      rw [List.foldlM_cons] at first second
      obtain ⟨mid, stepped, first⟩ := bind_eq_ok.mp first
      obtain ⟨mid', stepped', second⟩ := bind_eq_ok.mp second
      have next := keeps a List.mem_cons_self s s' mid mid' start stepped stepped'
      exact ih (fun b mem => keeps b (List.mem_cons_of_mem a mem)) next first second

/-- Whether the computation returns a value that passes the test. -/
def returns {β : Type u} (test : β → Bool) : Except ε β → Bool
  | .ok b => test b
  | .error _ => false

theorem returns_iff {β : Type u} {test : β → Bool} {r : Except ε β} :
    returns test r = true ↔ ∃ b, r = .ok b ∧ test b = true := by
  cases r with
  | error e => simp [returns]
  | ok b => simp [returns]

/-- The value of a computation that was carried out. -/
theorem exists_returned {β : Type u} (r : Except ε β) (test : β → Bool)
    (computed : returns test r = true) : ∃ b, r = .ok b ∧ test b = true :=
  returns_iff.mp computed

end VNams.Lib
