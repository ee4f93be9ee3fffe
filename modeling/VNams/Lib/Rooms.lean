import Mathlib.Data.Finset.Card

/-!
Rooms with a limited number of slots, and requests to change from one room to another that
are served in order.

A request is admitted when it asks for the room it comes from or for a room with a vacancy;
it then takes a slot there and gives one back where it came from. A refused request changes
nothing. `vacancies` counts what a set of slots has free, and `vacancies_move` says that
moving from a taken slot to a free one of another room is serving a request.
-/

namespace VNams.Lib

variable {ι Slot : Type*} [DecidableEq ι] [DecidableEq Slot]

/-- The request, from a room to a room, finds a place. -/
def Admitted (vacant : ι → Nat) (request : ι × ι) : Prop :=
  request.1 = request.2 ∨ vacant request.2 ≠ 0

instance (vacant : ι → Nat) (request : ι × ι) : Decidable (Admitted vacant request) :=
  inferInstanceAs (Decidable (_ ∨ _))

/-- The vacancies after a request. -/
def serve (vacant : ι → Nat) (request : ι × ι) : ι → Nat :=
  if request.1 = request.2 ∨ vacant request.2 = 0 then vacant
  else
    Function.update (Function.update vacant request.2 (vacant request.2 - 1)) request.1
      (vacant request.1 + 1)

/-- Every request is admitted when its turn comes. -/
def AllAdmitted (vacant : ι → Nat) : List (ι × ι) → Prop
  | [] => True
  | request :: rest => Admitted vacant request ∧ AllAdmitted (serve vacant request) rest

theorem serve_of_refused {vacant : ι → Nat} {request : ι × ι}
    (refused : ¬ Admitted vacant request) : serve vacant request = vacant := by
  unfold Admitted at refused
  push Not at refused
  exact if_pos (.inr refused.2)

theorem serve_of_same {vacant : ι → Nat} {request : ι × ι} (same : request.1 = request.2) :
    serve vacant request = vacant :=
  if_pos (.inl same)

/-- All are admitted exactly when each is, after those before it. -/
theorem allAdmitted_iff {vacant : ι → Nat} {requests : List (ι × ι)} :
    AllAdmitted vacant requests ↔ ∀ before request after, requests = before ++ request :: after →
      Admitted (before.foldl serve vacant) request := by
  induction requests generalizing vacant with
  | nil => simp [AllAdmitted]
  | cons first rest ih =>
      simp only [AllAdmitted, ih]
      constructor
      · rintro ⟨now, later⟩ before request after whole
        cases before with
        | nil =>
            cases whole
            exact now
        | cons head before =>
            cases whole
            exact later before request after rfl
      · intro each
        refine ⟨each [] first rest rfl, fun before request after whole => ?_⟩
        exact each (first :: before) request after (by rw [whole]; rfl)

/-- The free slots of each room. -/
def vacancies (slots : ι → Finset Slot) (taken : Slot → Prop) [DecidablePred taken] (n : ι) :
    Nat :=
  ((slots n).filter fun c => ¬ taken c).card

section Vacancies

variable {slots : ι → Finset Slot} {taken taken' : Slot → Prop} [DecidablePred taken]
  [DecidablePred taken']

omit [DecidableEq ι] [DecidableEq Slot] in
theorem vacancies_eq_zero {n : ι} : vacancies slots taken n = 0 ↔ ∀ c ∈ slots n, taken c := by
  unfold vacancies
  rw [Finset.card_eq_zero, Finset.filter_eq_empty_iff]
  simp only [not_not]

/-- Leaving a slot of one room for a free slot of another serves a request. -/
theorem vacancies_move (disjoint : ∀ m n c, c ∈ slots m → c ∈ slots n → m = n) {a b : ι}
    {c c' : Slot} (old : c ∈ slots a) (held : taken c) (new : c' ∈ slots b) (free : ¬ taken c')
    (apart : a ≠ b)
    (moved : ∀ x, taken' x ↔ x = c' ∨ (taken x ∧ x ≠ c)) :
    vacancies slots taken' = serve (vacancies slots taken) (a, b) := by
  have room : vacancies slots taken b ≠ 0 := fun none => free (vacancies_eq_zero.mp none c' new)
  funext n
  rw [serve, if_neg (not_or.mpr ⟨apart, room⟩)]
  by_cases left : n = a
  · subst left
    have gained : (slots n).filter (fun x => ¬ taken' x)
        = insert c ((slots n).filter fun x => ¬ taken x) := by
      ext x
      have elsewhere : x ∈ slots n → x ≠ c' := by
        rintro here rfl
        exact apart (disjoint n b x here new)
      simp only [Finset.mem_filter, Finset.mem_insert, moved]
      grind
    rw [Function.update_self, vacancies, gained, Finset.card_insert_of_notMem (by simp [held])]
    rfl
  · rw [Function.update_of_ne left]
    by_cases entered : n = b
    · subst entered
      have lost : (slots n).filter (fun x => ¬ taken' x)
          = ((slots n).filter fun x => ¬ taken x).erase c' := by
        ext x
        have elsewhere : x ∈ slots n → x ≠ c := by
          rintro here rfl
          exact apart (disjoint a n x old here)
        simp only [Finset.mem_filter, Finset.mem_erase, moved]
        grind
      rw [Function.update_self, vacancies, lost, Finset.card_erase_of_mem (by simp [new, free])]
      rfl
    · rw [Function.update_of_ne entered]
      refine congrArg Finset.card (Finset.filter_congr fun x here => ?_)
      have old' : x ≠ c := by
        rintro rfl
        exact left (disjoint n a x here old)
      have new' : x ≠ c' := by
        rintro rfl
        exact entered (disjoint n b x here new)
      rw [moved]
      simp [old', new']

end Vacancies

end VNams.Lib
