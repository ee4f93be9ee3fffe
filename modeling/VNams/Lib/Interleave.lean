import Mathlib.Data.List.Basic

/-!
Two threads that take turns.

A schedule names the thread that moves next, and `interleave` is the order in which the
commands of both are then carried out. The commands of the first thread may fault, those of
the second may not. Where each command of the one commutes with each of the other, a run
under any schedule ends as if the first thread had been alone at first and the second after
it (`foldlM_interleave`).
-/

namespace VNams.Lib

universe u v w

/-- The thread that moves next. -/
inductive Turn where
  | first
  | second
  deriving DecidableEq, Repr

section Schedules

variable {α : Type v} {β : Type w}

/-- The commands in the order of the schedule. A thread that has none left does nothing. -/
def interleave : List Turn → List α → List β → List (α ⊕ β)
  | [], _, _ => []
  | .first :: turns, [], bs => interleave turns [] bs
  | .first :: turns, a :: as, bs => .inl a :: interleave turns as bs
  | .second :: turns, as, [] => interleave turns as []
  | .second :: turns, as, b :: bs => .inr b :: interleave turns as bs

end Schedules

section Runs

variable {σ ε : Type u} {α : Type v} {β : Type w}

/-- A command of either thread. -/
def either (first : σ → α → Except ε σ) (second : σ → β → σ) (s : σ) : α ⊕ β → Except ε σ
  | .inl a => first s a
  | .inr b => .ok (second s b)

/-- No command of one thread touches what a command of the other works on. -/
def Commuting (first : σ → α → Except ε σ) (second : σ → β → σ) : Prop :=
  ∀ s a b, first (second s b) a = (first s a).map fun s => second s b

variable {first : σ → α → Except ε σ} {second : σ → β → σ}

/-- The second thread may as well wait for the first. -/
theorem Commuting.foldlM (commute : Commuting first second) (as : List α) (b : β) (s : σ) :
    as.foldlM first (second s b) = (as.foldlM first s).map fun s => second s b := by
  induction as generalizing s with
  | nil => rfl
  | cons a as ih =>
      rw [List.foldlM_cons, List.foldlM_cons, commute]
      cases first s a with
      | error e => rfl
      | ok s' => exact ih s'

/-- A run under any schedule is that of what the first thread was scheduled for, followed by
that of what the second was scheduled for. -/
theorem foldlM_interleave (commute : Commuting first second) (turns : List Turn) (as : List α)
    (bs : List β) (s : σ) :
    (interleave turns as bs).foldlM (either first second) s =
      ((as.take (turns.count .first)).foldlM first s).map fun s =>
        (bs.take (turns.count .second)).foldl second s := by
  induction turns generalizing as bs s with
  | nil => simp [interleave, Except.map, pure, Except.pure]
  | cons turn turns ih =>
      cases turn with
      | first =>
          rw [List.count_cons_self, List.count_cons_of_ne (by decide)]
          cases as with
          | nil =>
              rw [interleave, ih]
              simp
          | cons a as =>
              rw [interleave, List.foldlM_cons, List.take_succ_cons, List.foldlM_cons]
              show first s a >>= _ = _
              cases first s a with
              | error e => rfl
              | ok s' => exact ih as bs s'
      | second =>
          rw [List.count_cons_self, List.count_cons_of_ne (by decide)]
          cases bs with
          | nil =>
              rw [interleave, ih]
              simp
          | cons b bs =>
              rw [interleave, List.foldlM_cons]
              show (interleave turns as bs).foldlM _ (second s b) = _
              rw [ih, commute.foldlM, List.take_succ_cons]
              cases (as.take (turns.count .first)).foldlM first s with
              | error e => rfl
              | ok s' => rfl

end Runs

end VNams.Lib
