import VNams.Lib.Loop
import VNams.Lib.Run

/-!
Outcomes of computations that may fault.

`Meets bad post r` says that `r` does not fail with a `bad` fault, and that what it returns
satisfies `post`. The rules follow the shape of a program: a bind, a fold, a while loop. A
statement about one kind of fault can so be proved without knowing that no other occurs.
-/

namespace VNams.Lib

universe u v w

variable {ε : Type w} {α β : Type u} {σ : Type u} {bad : ε → Prop}

/-- The outcome is no bad fault, and a returned value satisfies `post`. -/
def Meets (bad : ε → Prop) (post : α → Prop) : Except ε α → Prop
  | .ok a => post a
  | .error e => ¬ bad e

namespace Meets

theorem ok {post : α → Prop} {a : α} (holds : post a) : Meets bad post (.ok a : Except ε α) := holds

theorem error {post : α → Prop} {e : ε} (harmless : ¬ bad e) :
    Meets bad post (.error e : Except ε α) := harmless

/-- What a returned value satisfies. -/
theorem of_ok {post : α → Prop} {r : Except ε α} {a : α} (meets : Meets bad post r)
    (returned : r = .ok a) : post a := by
  subst returned
  exact meets

/-- A bad fault is not the outcome. -/
theorem ne_error {post : α → Prop} {r : Except ε α} {e : ε} (meets : Meets bad post r)
    (isBad : bad e) : r ≠ .error e := by
  rintro rfl
  exact meets isBad

/-- When nothing but `e` is a fault that may occur, a computation without it succeeds. -/
theorem ne_error_iff {post : α → Prop} {r : Except ε α} {e : ε}
    (meets : Meets (· ≠ e) post r) : r ≠ .error e ↔ ∃ a, r = .ok a := by
  cases r with
  | error e' =>
      obtain rfl : e' = e := Classical.not_not.mp meets
      simp
  | ok a => simp

theorem mono {post post' : α → Prop} {r : Except ε α} (meets : Meets bad post r)
    (weaker : ∀ a, post a → post' a) : Meets bad post' r := by
  cases r with
  | error e => exact meets
  | ok a => exact weaker a meets

theorem bind {mid : α → Prop} {post : β → Prop} {r : Except ε α} {f : α → Except ε β}
    (first : Meets bad mid r) (next : ∀ a, mid a → Meets bad post (f a)) :
    Meets bad post (r >>= f) := by
  cases r with
  | error e => exact first
  | ok a => exact next a first

/-- A fold keeps its invariant when every step does. -/
theorem foldlM {inv : σ → Prop} {f : σ → α → Except ε σ} {as : List α} {s : σ}
    (keeps : ∀ s, ∀ a ∈ as, inv s → Meets bad inv (f s a)) (start : inv s) :
    Meets bad inv (as.foldlM f s) := by
  induction as generalizing s with
  | nil => exact start
  | cons a as ih =>
      rw [List.foldlM_cons]
      refine (keeps s a List.mem_cons_self start).bind fun s' kept => ?_
      exact ih (fun s b mem => keeps s b (List.mem_cons_of_mem _ mem)) kept

/-- A map over a list has no bad fault when no element has one. -/
theorem mapM {f : α → Except ε β} {as : List α}
    (each : ∀ a ∈ as, Meets bad (fun _ => True) (f a)) : Meets bad (fun _ => True) (as.mapM f) := by
  induction as with
  | nil => exact trivial
  | cons a as ih =>
      rw [List.mapM_cons]
      refine (each a List.mem_cons_self).bind fun b _ => ?_
      refine (ih fun a mem => each a (List.mem_cons_of_mem _ mem)).bind fun bs _ => ?_
      exact trivial

/-- A map over a list succeeds when it does for every element. -/
theorem mapM_isOk {f : α → Except ε β} {as : List α} :
    (∃ bs, as.mapM f = .ok bs) ↔ ∀ a ∈ as, ∃ b, f a = .ok b := by
  induction as with
  | nil => exact ⟨fun _ a mem => (by cases mem), fun _ => ⟨[], rfl⟩⟩
  | cons a as ih =>
      rw [List.forall_mem_cons, ← ih]
      constructor
      · rintro ⟨bs, mapped⟩
        rw [List.mapM_cons] at mapped
        obtain ⟨b, first, later⟩ := bind_eq_ok.mp mapped
        obtain ⟨rest, others, _⟩ := bind_eq_ok.mp later
        exact ⟨⟨b, first⟩, rest, others⟩
      · rintro ⟨⟨b, first⟩, rest, others⟩
        refine ⟨b :: rest, ?_⟩
        rw [List.mapM_cons, first, others]
        rfl

/-- A loop keeps its invariant when its body does, whatever the fuel. -/
theorem whileFuel {inv : σ → Prop} {cond : σ → Bool} {body : σ → Except ε σ}
    (keeps : ∀ s, inv s → cond s = true → Meets bad inv (body s)) {fuel : Nat} {s : σ}
    {r : Except ε σ} (start : inv s) (looped : whileFuel cond body fuel s = some r) :
    Meets bad inv r := by
  induction fuel generalizing s with
  | zero =>
      cases enter : cond s with
      | false =>
          rw [whileFuel_exit enter] at looped
          cases looped
          exact start
      | true => simp [Lib.whileFuel, enter] at looped
  | succ fuel ih =>
      cases enter : cond s with
      | false =>
          rw [whileFuel_exit enter] at looped
          cases looped
          exact start
      | true =>
          have kept := keeps s start enter
          cases stepped : body s with
          | error e =>
              simp only [Lib.whileFuel, enter, if_true, stepped, Option.some.injEq] at looped
              rw [← looped]
              rwa [stepped] at kept
          | ok s' =>
              rw [whileFuel_step enter stepped] at looped
              rw [stepped] at kept
              exact ih kept looped

end Meets

/-- What a map over a list returns, element by element. -/
theorem getElem?_of_mapM {f : α → Except ε β} {as : List α} {bs : List β}
    (mapped : as.mapM f = .ok bs) {i : Nat} {a : α} (here : as[i]? = some a) :
    ∃ b, f a = .ok b ∧ bs[i]? = some b := by
  induction as generalizing bs i with
  | nil => cases here
  | cons first rest ih =>
      rw [List.mapM_cons] at mapped
      obtain ⟨b, done, mapped⟩ := bind_eq_ok.mp mapped
      obtain ⟨others, later, stored⟩ := bind_eq_ok.mp mapped
      cases stored
      cases i with
      | zero =>
          cases here
          exact ⟨b, done, rfl⟩
      | succ i => exact ih later here

/-- What a map over a list with optional results returns. -/
theorem mapM_eq_some {f : α → Option β} {as : List α} {bs : List β}
    (mapped : as.mapM f = some bs) :
    bs.length = as.length ∧ ∀ b ∈ bs, ∃ a ∈ as, f a = some b := by
  induction as generalizing bs with
  | nil =>
      cases mapped
      exact ⟨rfl, by simp⟩
  | cons a as ih =>
      rw [List.mapM_cons] at mapped
      obtain ⟨b, here, mapped⟩ := Option.bind_eq_some_iff.mp mapped
      obtain ⟨rest, others, stored⟩ := Option.bind_eq_some_iff.mp mapped
      cases stored
      obtain ⟨length, sources⟩ := ih others
      constructor
      · rw [List.length_cons, List.length_cons, length]
      · intro b' mem
        rcases List.mem_cons.mp mem with rfl | later
        · exact ⟨a, List.mem_cons_self, here⟩
        · obtain ⟨a', mem', found⟩ := sources b' later
          exact ⟨a', List.mem_cons_of_mem a mem', found⟩

/-- A map over a list with optional results fails with the first result that is missing. -/
theorem mapM_eq_none {f : α → Option β} {as : List α} :
    as.mapM f = none ↔ ∃ a ∈ as, f a = none := by
  induction as with
  | nil => simp
  | cons a as ih =>
      simp only [List.mapM_cons, List.mem_cons, exists_eq_or_imp, ← ih]
      cases f a <;> cases as.mapM f <;> simp

/-- The fault of a computation. -/
def fault : Except ε α → Option ε
  | .ok _ => none
  | .error e => some e

theorem fault_eq_some {r : Except ε α} {e : ε} : fault r = some e ↔ r = .error e := by
  cases r with
  | error e' => simp [fault]
  | ok a => simp [fault]

end VNams.Lib
