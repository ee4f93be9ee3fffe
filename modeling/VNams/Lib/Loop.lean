import Mathlib.Data.Nat.Find
import Mathlib.Logic.Relation

/-!
While loops with faulting bodies, cut off by fuel.

`whileFuel cond body fuel s` is `none` when the fuel runs out before the loop
exits, so a total-correctness statement has to supply enough fuel.
`whileFuel_total` is the invariant-and-variant rule, and `whileFuel_cases` the one for a
body that faults in some states. `LoopStep` is the one-iteration relation, for statements about
every iteration rather than about the exit; `whileFuel_finite` excludes an endless run of it.
`countWhile` is a busy loop that only counts.
-/

namespace VNams.Lib

variable {σ ε : Type*}

/-- `while cond s do s := body s`, for at most `fuel` iterations. -/
def whileFuel (cond : σ → Bool) (body : σ → Except ε σ) : Nat → σ → Option (Except ε σ)
  | 0, s => if cond s then none else some (.ok s)
  | fuel + 1, s =>
      if cond s then
        match body s with
        | .error e => some (.error e)
        | .ok s' => whileFuel cond body fuel s'
      else some (.ok s)

/-- One completed iteration of the loop. -/
def LoopStep (cond : σ → Bool) (body : σ → Except ε σ) (s s' : σ) : Prop :=
  cond s = true ∧ body s = .ok s'

section Rules

variable {cond : σ → Bool} {body : σ → Except ε σ}

/-- The loop exits at once when its condition is false. -/
theorem whileFuel_exit {s : σ} (done : cond s = false) (fuel : Nat) :
    whileFuel cond body fuel s = some (.ok s) := by
  cases fuel <;> simp [whileFuel, done]

/-- One unfolding of the loop. -/
theorem whileFuel_step {s s' : σ} (enter : cond s = true) (stepped : body s = .ok s')
    (fuel : Nat) : whileFuel cond body (fuel + 1) s = whileFuel cond body fuel s' := by
  simp [whileFuel, enter, stepped]

/-- Invariant-and-variant rule: when every iteration succeeds, keeps `inv` and
lowers its index, fuel equal to the index is enough and the loop exits in `inv`. The
index may be a ghost quantity: the state need not determine it. -/
theorem whileFuel_total {inv : Nat → σ → Prop}
    (progress : ∀ m s, inv m s → cond s = true →
      ∃ s', body s = .ok s' ∧ ∃ m' < m, inv m' s') :
    ∀ (fuel m : Nat) (s : σ), inv m s → m ≤ fuel →
      ∃ s', whileFuel cond body fuel s = some (.ok s') ∧ (∃ m', inv m' s') ∧ cond s' = false := by
  intro fuel
  induction fuel with
  | zero =>
      intro m s start bound
      cases enter : cond s with
      | false => exact ⟨s, whileFuel_exit enter 0, ⟨m, start⟩, enter⟩
      | true =>
          obtain ⟨_, _, m', lower, _⟩ := progress m s start enter
          omega
  | succ fuel ih =>
      intro m s start bound
      cases enter : cond s with
      | false => exact ⟨s, whileFuel_exit enter _, ⟨m, start⟩, enter⟩
      | true =>
          obtain ⟨mid, stepped, m', lower, kept⟩ := progress m s start enter
          obtain ⟨s', looped, final⟩ := ih m' mid kept (by omega)
          exact ⟨s', by rw [whileFuel_step enter stepped, looped], final⟩

/-- From an exit state the loop goes nowhere. -/
theorem eq_of_exit {s s' : σ} (done : cond s = false)
    (path : Relation.ReflTransGen (LoopStep cond body) s s') : s' = s := by
  rcases Relation.ReflTransGen.cases_head path with rfl | ⟨mid, stepped, _⟩
  · rfl
  · cases done.symm.trans stepped.1

/-- A loop has one exit state. -/
theorem exit_unique {s s' s'' : σ} (first : Relation.ReflTransGen (LoopStep cond body) s s')
    (done : cond s' = false) (second : Relation.ReflTransGen (LoopStep cond body) s s'')
    (done' : cond s'' = false) : s'' = s' := by
  induction first using Relation.ReflTransGen.head_induction_on with
  | refl => exact eq_of_exit done second
  | head stepped _ ih =>
      rcases Relation.ReflTransGen.cases_head second with rfl | ⟨mid, stepped', later⟩
      · cases done'.symm.trans stepped.1
      · cases stepped.2.symm.trans stepped'.2
        exact ih later

/-- The rule for a loop whose body faults with `e` in the `bad` states. When every other
iteration succeeds, keeps `inv` and lowers its index, fuel above the index is enough: the
loop faults and some iteration starts in a bad state, or it exits in `inv` and none does. -/
theorem whileFuel_cases {inv : Nat → σ → Prop} {bad : σ → Prop} {e : ε}
    (faults : ∀ m s, inv m s → cond s = true → bad s → body s = .error e)
    (progress : ∀ m s, inv m s → cond s = true → ¬ bad s →
      ∃ s', body s = .ok s' ∧ ∃ m' < m, inv m' s') :
    ∀ (fuel m : Nat) (s : σ), inv m s → m < fuel →
      (whileFuel cond body fuel s = some (.error e) ∧
        ∃ s', Relation.ReflTransGen (LoopStep cond body) s s' ∧ cond s' = true ∧ bad s') ∨
      (∃ s', whileFuel cond body fuel s = some (.ok s') ∧ (∃ m', inv m' s') ∧ cond s' = false ∧
        ∀ s'', Relation.ReflTransGen (LoopStep cond body) s s'' → cond s'' = true → ¬ bad s'') := by
  intro fuel
  induction fuel with
  | zero => exact fun m s _ bound => absurd bound (Nat.not_lt_zero m)
  | succ fuel ih =>
      intro m s start bound
      cases enter : cond s with
      | false =>
          refine .inr ⟨s, whileFuel_exit enter _, ⟨m, start⟩, enter, fun s'' path enter' => ?_⟩
          rw [eq_of_exit enter path] at enter'
          cases enter.symm.trans enter'
      | true =>
          by_cases isBad : bad s
          · refine .inl ⟨?_, s, .refl, enter, isBad⟩
            simp [whileFuel, enter, faults m s start enter isBad]
          · obtain ⟨mid, stepped, m', lower, kept⟩ := progress m s start enter isBad
            rw [whileFuel_step enter stepped]
            rcases ih m' mid kept (by omega) with ⟨faulted, s', path, reached⟩ | ⟨s', exited, final,
              done, never⟩
            · exact .inl ⟨faulted, s', .head ⟨enter, stepped⟩ path, reached⟩
            · refine .inr ⟨s', exited, final, done, fun s'' path enter'' => ?_⟩
              rcases Relation.ReflTransGen.cases_head path with rfl | ⟨mid', ⟨_, stepped'⟩, later⟩
              · exact isBad
              · cases stepped.symm.trans stepped'
                exact never s'' later enter''

/-- Every iteration of the loop keeps a predicate its body keeps. -/
theorem loopStep_invariant {inv : σ → Prop}
    (keeps : ∀ s s', inv s → cond s = true → body s = .ok s' → inv s') {s s' : σ}
    (start : inv s) (path : Relation.ReflTransGen (LoopStep cond body) s s') : inv s' := by
  induction path with
  | refl => exact start
  | tail _ stepped ih => exact keeps _ _ ih stepped.1 stepped.2

/-- A loop that exits was led to its exit state by its own iterations. -/
theorem whileFuel_path {fuel : Nat} {s s' : σ}
    (looped : whileFuel cond body fuel s = some (.ok s')) :
    Relation.ReflTransGen (LoopStep cond body) s s' ∧ cond s' = false := by
  induction fuel generalizing s with
  | zero =>
      cases enter : cond s with
      | false =>
          rw [whileFuel_exit enter] at looped
          cases looped
          exact ⟨.refl, enter⟩
      | true => simp [whileFuel, enter] at looped
  | succ fuel ih =>
      cases enter : cond s with
      | false =>
          rw [whileFuel_exit enter] at looped
          cases looped
          exact ⟨.refl, enter⟩
      | true =>
          cases stepped : body s with
          | error e => simp [whileFuel, enter, stepped] at looped
          | ok mid =>
              rw [whileFuel_step enter stepped] at looped
              obtain ⟨path, done⟩ := ih looped
              exact ⟨.head ⟨enter, stepped⟩ path, done⟩

/-- More fuel than enough changes nothing. -/
theorem whileFuel_mono {fuel fuel' : Nat} (le : fuel ≤ fuel') {s : σ} {r : Except ε σ}
    (looped : whileFuel cond body fuel s = some r) : whileFuel cond body fuel' s = some r := by
  induction fuel generalizing fuel' s with
  | zero =>
      cases enter : cond s with
      | false =>
          rw [whileFuel_exit enter] at looped ⊢
          exact looped
      | true => simp [whileFuel, enter] at looped
  | succ fuel ih =>
      obtain ⟨more, rfl⟩ : ∃ more, fuel' = more + 1 := ⟨fuel' - 1, by omega⟩
      cases enter : cond s with
      | false =>
          rw [whileFuel_exit enter] at looped ⊢
          exact looped
      | true =>
          cases stepped : body s with
          | error e => simpa [whileFuel, enter, stepped] using looped
          | ok mid =>
              rw [whileFuel_step enter stepped] at looped ⊢
              exact ih (Nat.le_of_succ_le_succ le) looped

/-- Where fuel is enough, no run of iterations goes on for ever. -/
theorem whileFuel_finite {fuel : Nat} {s : σ} {r : Except ε σ}
    (looped : whileFuel cond body fuel s = some r) (run : Nat → σ) (start : run 0 = s) :
    ¬ ∀ i, LoopStep cond body (run i) (run (i + 1)) := by
  intro forever
  obtain ⟨enter, stepped⟩ := forever 0
  rw [start] at enter stepped
  induction fuel generalizing s run with
  | zero => simp [whileFuel, enter] at looped
  | succ fuel ih =>
      rw [whileFuel_step enter stepped] at looped
      obtain ⟨enter', stepped'⟩ := forever 1
      exact ih looped (fun i => run (i + 1)) rfl (fun i => forever (i + 1)) enter' stepped'

end Rules

/-! ### Busy loops -/

/-- `while (cond i) i++;` from an index on, for at most `fuel` iterations. -/
def countWhile (cond : Nat → Bool) : Nat → Nat → Option Nat
  | 0, i => if cond i then none else some i
  | fuel + 1, i => if cond i then countWhile cond fuel (i + 1) else some i

/-- It stops at the first index without the condition. -/
theorem countWhile_eq {cond : Nat → Bool} {last : Nat} (stop : cond last = false) :
    ∀ {fuel first : Nat}, first ≤ last → last ≤ first + fuel →
      (∀ i, first ≤ i → i < last → cond i = true) →
      countWhile cond fuel first = some last := by
  intro fuel
  induction fuel with
  | zero =>
      intro first le bound _
      obtain rfl : first = last := Nat.le_antisymm le bound
      simp [countWhile, stop]
  | succ fuel ih =>
      intro first le bound before
      rcases Nat.eq_or_lt_of_le le with rfl | lt
      · simp [countWhile, stop]
      · rw [countWhile, if_pos (before first (Nat.le_refl first) lt)]
        exact ih lt (by omega) fun i le' lt' => before i (Nat.le_of_succ_le le') lt'

/-- More fuel than enough changes nothing. -/
theorem countWhile_mono {cond : Nat → Bool} {fuel fuel' first last : Nat} (le : fuel ≤ fuel')
    (counted : countWhile cond fuel first = some last) :
    countWhile cond fuel' first = some last := by
  induction fuel generalizing fuel' first with
  | zero =>
      cases enter : cond first with
      | false => cases fuel' <;> simpa [countWhile, enter] using counted
      | true => simp [countWhile, enter] at counted
  | succ fuel ih =>
      obtain ⟨more, rfl⟩ : ∃ more, fuel' = more + 1 := ⟨fuel' - 1, by omega⟩
      rw [countWhile] at counted ⊢
      split at counted
      · rename_i enter
        rw [if_pos enter]
        exact ih (Nat.le_of_succ_le_succ le) counted
      · rename_i done
        rw [if_neg done]
        exact counted

/-- Where something is reached there is an index at which it is reached first. -/
theorem exists_first {p : Nat → Prop} {first : Nat} (reached : ∃ i, first ≤ i ∧ p i) :
    ∃ last, first ≤ last ∧ p last ∧ ∀ i, first ≤ i → i < last → ¬ p i := by
  classical
  obtain ⟨le, here⟩ := Nat.find_spec reached
  exact ⟨Nat.find reached, le, here, fun i le' lt holds => Nat.find_min reached lt ⟨le', holds⟩⟩

end VNams.Lib
