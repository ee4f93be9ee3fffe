import Std.Data.TreeMap
import Mathlib.Order.Defs.LinearOrder
import VNams.Lib.Run

/-!
Loops over a map that rewrite its values in place.

`visitAll f m` is `for (auto &[k, v] : m) v = f(k, v);` with an `f` that may fault. Every
key is visited once, so the loop applies `f` pointwise (`visitAll_spec`).
-/

namespace VNams.Lib

variable {β ε : Type}

/-- A key is one that a look-up finds. -/
theorem mem_iff_getElem? {m : Std.TreeMap Int β} {k : Int} : k ∈ m ↔ ∃ v, m[k]? = some v := by
  rw [Std.TreeMap.mem_iff_isSome_getElem?, Option.isSome_iff_exists]

/-- Writing under a key that is there adds none. -/
theorem mem_insert_of_mem {m : Std.TreeMap Int β} {k : Int} (present : k ∈ m) (v : β) (x : Int) :
    x ∈ m.insert k v ↔ x ∈ m := by
  rw [Std.TreeMap.mem_insert, Std.compare_eq_iff_eq]
  exact or_iff_right_of_imp fun same => same ▸ present

/-! ### What every entry has -/

section Entries

variable {P : Int → β → Prop} {m : Std.TreeMap Int β}
  (all : ∀ (k : Int) (v : β), m[k]? = some v → P k v)

include all

/-- A value that has it may be stored. -/
theorem forall_insert {k : Int} {v : β} (new : P k v) (x : Int) (w : β)
    (found : (m.insert k v)[x]? = some w) : P x w := by
  rw [Std.TreeMap.getElem?_insert] at found
  split at found
  · rename_i same
    cases found
    rwa [← Std.compare_eq_iff_eq.mp same]
  · exact all x w found

/-- An entry may go. -/
theorem forall_erase {k : Int} (x : Int) (w : β) (found : (m.erase k)[x]? = some w) : P x w := by
  rw [Std.TreeMap.getElem?_erase] at found
  split at found
  · cases found
  · exact all x w found

/-- One may be changed where what it has is kept. -/
theorem forall_modify {k : Int} {g : β → β} (keeps : ∀ v, P k v → P k (g v)) (x : Int) (w : β)
    (found : (m.modify k g)[x]? = some w) : P x w := by
  rw [Std.TreeMap.getElem?_modify] at found
  split at found
  · rename_i same
    obtain ⟨v, present, rfl⟩ := Option.map_eq_some_iff.mp found
    rw [← Std.compare_eq_iff_eq.mp same]
    exact keeps v (all k v present)
  · exact all x w found

end Entries

/-! ### The loop -/

/-- The loop body for one key. -/
def visitKey (f : Int → β → Except ε β) (m : Std.TreeMap Int β) (k : Int) :
    Except ε (Std.TreeMap Int β) :=
  match m[k]? with
  | none => .ok m
  | some v => do
      let v' ← f k v
      .ok (m.insert k v')

/-- The loop. -/
def visitAll (f : Int → β → Except ε β) (m : Std.TreeMap Int β) :
    Except ε (Std.TreeMap Int β) :=
  m.keys.foldlM (visitKey f) m

variable {f : Int → β → Except ε β}

theorem visitKey_ok {m m' : Std.TreeMap Int β} {k : Int} {v : β} (found : m[k]? = some v)
    (done : visitKey f m k = .ok m') :
    ∃ v', f k v = .ok v' ∧ m'[k]? = some v' ∧ ∀ x : Int, x ≠ k → m'[x]? = m[x]? := by
  unfold visitKey at done
  rw [found] at done
  obtain ⟨v', applied, stored⟩ := bind_eq_ok.mp done
  cases stored
  refine ⟨v', applied, by simp, fun x ne => ?_⟩
  simp [Std.TreeMap.getElem?_insert, Ne.symm ne]

/-- The loop over part of the keys: those are rewritten, the others are not. -/
theorem foldlM_visitKey {ks : List Int} {m m' : Std.TreeMap Int β} (nodup : ks.Nodup)
    (present : ∀ k ∈ ks, ∃ v, m[k]? = some v) (done : ks.foldlM (visitKey f) m = .ok m') :
    (∀ k ∈ ks, ∀ v, m[k]? = some v → ∃ v', f k v = .ok v' ∧ m'[k]? = some v') ∧
      ∀ x : Int, x ∉ ks → m'[x]? = m[x]? := by
  induction ks generalizing m with
  | nil =>
      cases done
      exact ⟨by simp, fun _ _ => rfl⟩
  | cons first rest ih =>
      obtain ⟨notLater, nodup'⟩ := List.nodup_cons.mp nodup
      rw [List.foldlM_cons] at done
      obtain ⟨mid, one, later⟩ := bind_eq_ok.mp done
      obtain ⟨v, found⟩ := present first List.mem_cons_self
      obtain ⟨v', applied, stored, others⟩ := visitKey_ok found one
      have apart : ∀ k ∈ rest, k ≠ first := fun k mem same => notLater (same ▸ mem)
      have present' : ∀ k ∈ rest, ∃ v, mid[k]? = some v := by
        intro k mem
        rw [others k (apart k mem)]
        exact present k (List.mem_cons_of_mem _ mem)
      obtain ⟨rewritten, untouched⟩ := ih nodup' present' later
      refine ⟨fun k mem w here => ?_, fun x notMem => ?_⟩
      · rcases List.mem_cons.mp mem with rfl | laterMem
        · rw [found] at here
          cases here
          exact ⟨v', applied, by rw [untouched k notLater, stored]⟩
        · exact rewritten k laterMem w (by rw [others k (apart k laterMem), here])
      · rw [List.mem_cons, not_or] at notMem
        rw [untouched x notMem.2, others x notMem.1]

/-- The loop applies `f` to every value and keeps the keys. -/
theorem visitAll_spec {m m' : Std.TreeMap Int β} (done : visitAll f m = .ok m') (k : Int) :
    (m[k]? = none → m'[k]? = none) ∧
      ∀ v, m[k]? = some v → ∃ v', f k v = .ok v' ∧ m'[k]? = some v' := by
  have present : ∀ k ∈ m.keys, ∃ v, m[k]? = some v := by
    intro k mem
    rw [Std.TreeMap.mem_keys] at mem
    exact mem_iff_getElem?.mp mem
  obtain ⟨rewritten, untouched⟩ := foldlM_visitKey Std.TreeMap.nodup_keys present done
  refine ⟨fun missing => ?_, fun v found => ?_⟩
  · rw [untouched k ?_, missing]
    rw [Std.TreeMap.mem_keys, mem_iff_getElem?, missing]
    rintro ⟨_, impossible⟩
    cases impossible
  · refine rewritten k ?_ v found
    rw [Std.TreeMap.mem_keys, mem_iff_getElem?]
    exact ⟨v, found⟩

/-! ### Maps with the same keys -/

/-- The maps have the same keys, and `f` sees the same values under them. -/
def AgreeUnder {γ : Type} (f : β → γ) (m m' : Std.TreeMap Int β) : Prop :=
  ∀ k : Int, m[k]?.map f = m'[k]?.map f

namespace AgreeUnder

variable {γ : Type} {see : β → γ} {m m' : Std.TreeMap Int β}

theorem symm (agree : AgreeUnder see m m') : AgreeUnder see m' m := fun k => (agree k).symm

/-- Who sees less sees the same, too. -/
theorem comp {δ : Type} (agree : AgreeUnder see m m') (less : γ → δ) :
    AgreeUnder (fun v => less (see v)) m m' := by
  intro k
  have here := congrArg (Option.map less) (agree k)
  rwa [Option.map_map, Option.map_map] at here

/-- A key is missing in both maps, or has values in both that look the same. -/
theorem cases (agree : AgreeUnder see m m') (k : Int) :
    (m[k]? = none ∧ m'[k]? = none) ∨
      ∃ v v', m[k]? = some v ∧ m'[k]? = some v' ∧ see v = see v' := by
  have here := agree k
  cases found : m[k]? with
  | none =>
      rw [found, Option.map_none, eq_comm, Option.map_eq_none_iff] at here
      exact .inl ⟨rfl, here⟩
  | some v =>
      rw [found, Option.map_some, eq_comm, Option.map_eq_some_iff] at here
      obtain ⟨v', found', sees⟩ := here
      exact .inr ⟨v, v', rfl, found', sees.symm⟩

theorem of_some (agree : AgreeUnder see m m') {k : Int} {v : β} (found : m[k]? = some v) :
    ∃ v', m'[k]? = some v' ∧ see v = see v' := by
  rcases agree.cases k with ⟨missing, _⟩ | ⟨w, v', found', other, sees⟩
  · rw [found] at missing
    cases missing
  · obtain rfl : v = w := Option.some.inj (found.symm.trans found')
    exact ⟨v', other, sees⟩

theorem mem_iff (agree : AgreeUnder see m m') (k : Int) : k ∈ m ↔ k ∈ m' := by
  rw [mem_iff_getElem?, mem_iff_getElem?]
  rcases agree.cases k with ⟨missing, missing'⟩ | ⟨v, v', found, found', _⟩
  · simp [missing, missing']
  · simp [found, found']

theorem insert (agree : AgreeUnder see m m') (k : Int) {v v' : β} (sees : see v = see v') :
    AgreeUnder see (m.insert k v) (m'.insert k v') := by
  intro x
  rw [Std.TreeMap.getElem?_insert, Std.TreeMap.getElem?_insert]
  split
  · simp only [Option.map_some, sees]
  · exact agree x

theorem erase (agree : AgreeUnder see m m') (k : Int) :
    AgreeUnder see (m.erase k) (m'.erase k) := by
  intro x
  rw [Std.TreeMap.getElem?_erase, Std.TreeMap.getElem?_erase]
  split
  · rfl
  · exact agree x

theorem toList (agree : AgreeUnder see m m') :
    m.toList.map (fun p => (p.1, see p.2)) = m'.toList.map (fun p => (p.1, see p.2)) := by
  have equiv : (m.map fun _ v => see v).Equiv (m'.map fun _ v => see v) := by
    apply Std.TreeMap.Equiv.of_forall_constGet?_eq
    intro k
    rw [Std.TreeMap.getElem?_map, Std.TreeMap.getElem?_map]
    exact agree k
  have lists := equiv.toList_eq
  rwa [Std.TreeMap.toList_map, Std.TreeMap.toList_map] at lists

theorem keys (agree : AgreeUnder see m m') : m.keys = m'.keys := by
  have firsts := congrArg (List.map Prod.fst) agree.toList
  rw [List.map_map, List.map_map] at firsts
  rw [← Std.TreeMap.map_fst_toList_eq_keys, ← Std.TreeMap.map_fst_toList_eq_keys]
  exact firsts

end AgreeUnder

/-! ### What the values hold -/

section Holdings

variable {γ : Type} {hold : β → Option γ} {m m' : Std.TreeMap Int β} {k : Int} {c : γ}

/-- What `hold` gives of the values, with their keys. -/
def holdings (hold : β → Option γ) (m : Std.TreeMap Int β) : List (Int × γ) :=
  m.toList.filterMap fun p => (hold p.2).map fun c => (p.1, c)

theorem mem_holdings : (k, c) ∈ holdings hold m ↔ m[k]?.bind hold = some c := by
  unfold holdings
  rw [List.mem_filterMap, Option.bind_eq_some_iff]
  constructor
  · rintro ⟨⟨k', v⟩, mem, stored⟩
    obtain ⟨c', holds, same⟩ := Option.map_eq_some_iff.mp stored
    cases same
    exact ⟨v, Std.TreeMap.mem_toList_iff_getElem?_eq_some.mp mem, holds⟩
  · rintro ⟨v, found, holds⟩
    exists (k, v), Std.TreeMap.mem_toList_iff_getElem?_eq_some.mpr found
    exact Option.map_eq_some_iff.mpr ⟨c, holds, rfl⟩

theorem nodup_holdings : (holdings hold m).Nodup := by
  rw [List.nodup_iff_pairwise_ne]
  refine (Std.TreeMap.distinct_keys_toList (t := m)).filterMap _ ?_
  rintro ⟨k, v⟩ ⟨k', v'⟩ distinct p stored p' stored' same
  obtain ⟨c, _, rfl⟩ := Option.map_eq_some_iff.mp stored
  obtain ⟨c', _, rfl⟩ := Option.map_eq_some_iff.mp stored'
  cases same
  simp at distinct

/-- Maps whose look-ups hold the same hold the same. -/
theorem holdings_perm (same : ∀ k : Int, m'[k]?.bind hold = m[k]?.bind hold) :
    (holdings hold m').Perm (holdings hold m) := by
  rw [List.perm_ext_iff_of_nodup nodup_holdings nodup_holdings]
  rintro ⟨k, c⟩
  rw [mem_holdings, mem_holdings, same k]

/-- What one value holds, beside what the others do. -/
theorem holdings_erase (m : Std.TreeMap Int β) (k : Int) :
    (holdings hold m).Perm
      ((m[k]?.bind hold).toList.map (fun c => (k, c)) ++ holdings hold (m.erase k)) := by
  have others : ∀ x : Int, x ≠ k → (m.erase k)[x]?.bind hold = m[x]?.bind hold := by
    intro x ne
    simp [Std.TreeMap.getElem?_erase, Ne.symm ne]
  have own : (m.erase k)[k]?.bind hold = none := by simp
  cases here : m[k]?.bind hold with
  | none =>
      refine (holdings_perm fun x => ?_).symm
      by_cases same : x = k
      · rw [same, own, here]
      · exact others x same
  | some c =>
      rw [Option.toList_some, List.map_singleton, List.singleton_append]
      have fresh : (k, c) ∉ holdings hold (m.erase k) := by
        rw [mem_holdings, own]
        simp
      rw [List.perm_ext_iff_of_nodup nodup_holdings (List.nodup_cons.mpr ⟨fresh, nodup_holdings⟩)]
      rintro ⟨x, d⟩
      rw [List.mem_cons, mem_holdings, mem_holdings, Prod.mk.injEq]
      by_cases same : x = k
      · rw [same, own, here]
        simp [eq_comm]
      · rw [others x same]
        simp [same]

open scoped List in
/-- When the look-ups change under one key only, so does what is held. -/
theorem holdings_change (others : ∀ x : Int, x ≠ k → m'[x]?.bind hold = m[x]?.bind hold) :
    ((m[k]?.bind hold).toList.map (fun c => (k, c)) ++ holdings hold m').Perm
      ((m'[k]?.bind hold).toList.map (fun c => (k, c)) ++ holdings hold m) := by
  have rest : (holdings hold (m'.erase k)).Perm (holdings hold (m.erase k)) := by
    apply holdings_perm
    intro x
    by_cases same : x = k
    · simp [same]
    · simp [Std.TreeMap.getElem?_erase, Ne.symm same, others x same]
  calc (m[k]?.bind hold).toList.map (fun c => (k, c)) ++ holdings hold m'
      _ ~ (m[k]?.bind hold).toList.map (fun c => (k, c)) ++
            ((m'[k]?.bind hold).toList.map (fun c => (k, c)) ++ holdings hold (m'.erase k)) :=
          (holdings_erase m' k).append_left _
      _ ~ (m'[k]?.bind hold).toList.map (fun c => (k, c)) ++
            ((m[k]?.bind hold).toList.map (fun c => (k, c)) ++ holdings hold (m'.erase k)) :=
          List.perm_append_comm_assoc ..
      _ ~ (m'[k]?.bind hold).toList.map (fun c => (k, c)) ++
            ((m[k]?.bind hold).toList.map (fun c => (k, c)) ++ holdings hold (m.erase k)) :=
          (rest.append_left _).append_left _
      _ ~ (m'[k]?.bind hold).toList.map (fun c => (k, c)) ++ holdings hold m :=
          (holdings_erase m k).symm.append_left _

end Holdings

end VNams.Lib
