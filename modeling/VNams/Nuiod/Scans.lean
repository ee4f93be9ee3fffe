import VNams.Monitor.Counters
import VNams.Nuiod.Domain

/-!
The hand-written scans: the letter and the offsets in a line of `perf stat`, and the quotes in
a domain's xml.

None of them looks for the terminator. Each stays inside its text exactly when the text has
what the scan is for, and the two conditions say so for every text.
-/

namespace VNams.Nuiod

open Lib.CText Monitor

variable {D : Type}

/-! ### The quotes -/

/-- The text behind the first single quote. -/
def quoted (s : Text) : Text := (s.dropWhile fun c => c != '\'').tail

/-- A quote scan stays inside a text with a quote. -/
theorem afterQuote_eq (s : Text) :
    afterQuote s = if '\'' ∈ s then .ok (quoted s) else .error .overread := by
  unfold afterQuote
  cases found : scanTo (fun c => c == '\'') s with
  | none =>
      have none : '\'' ∉ s := by
        intro mem
        have differs := scanTo_eq_none.mp found '\'' mem
        cases differs
      rw [if_neg none]
  | some p =>
      obtain ⟨before, c, rest, rfl, rfl, isQuote, passed⟩ := scanTo_eq_some.mp found
      obtain rfl : c = '\'' := by simpa using isQuote
      have skipped : ∀ c ∈ before, (c != '\'') = true := by
        intro c mem
        simpa using passed c mem
      rw [if_pos (by simp), quoted, List.dropWhile_append_of_pos skipped]
      rfl

/-- A quote follows the slot that is found and, if one is looked for, the function. -/
def QuotesFollow (netdevPciBusStr xml : Text) : Prop :=
  ∀ busP, strstr ("bus='".toList ++ netdevPciBusStr ++ ['\'']) xml = some busP →
    ∀ slotP, strstr "slot".toList busP = some slotP →
    '\'' ∈ slotP ∧ ∀ functP, strstr "function".toList (strtol 0 (quoted slotP)).2 = some functP →
      '\'' ∈ functP

/-- The quote scans read nothing behind the terminator exactly when their quotes are there, if
the text that is searched for fits its array. -/
theorem vfNo_ne_overread_iff {netdevPciBusStr xml : Text} (netdevPciSlotVal : UInt32) :
    vfNo netdevPciBusStr netdevPciSlotVal xml ≠ .error .overread ↔
      (netdevPciBusStr.length ≤ 4 → QuotesFollow netdevPciBusStr xml) := by
  unfold vfNo QuotesFollow
  by_cases overflows : 4 < netdevPciBusStr.length
  · rw [if_pos overflows]
    constructor
    · intro _ fits
      omega
    · intro _ overread
      cases overread
  · rw [if_neg overflows]
    have fits : netdevPciBusStr.length ≤ 4 := by omega
    simp only [fits, forall_const]
    -- which words are searched for does not matter
    generalize "slot".toList = slotWord
    generalize "function".toList = functionWord
    cases strstr ("bus='".toList ++ netdevPciBusStr ++ ['\'']) xml with
    | none => simp
    | some busP =>
        cases found : strstr slotWord busP with
        | none => simp [found]
        | some slotP =>
            by_cases slotQuote : '\'' ∈ slotP
            · cases found' : strstr functionWord (strtol 0 (quoted slotP)).2 with
              | none => simp [found, found', afterQuote_eq, slotQuote, bind, Except.bind]
              | some functP =>
                  by_cases functQuote : '\'' ∈ functP
                  · simp [found, found', afterQuote_eq, slotQuote, functQuote, bind, Except.bind]
                  · simp [found, found', afterQuote_eq, slotQuote, functQuote, bind, Except.bind]
            · simp [found, afterQuote_eq, slotQuote, bind, Except.bind]

/-- When the scans of a text end inside it: for a line of the output, and for a domain's xml. -/
theorem scans_end_iff (line : Text) (vm : VmInfo D) (netdevPciBusStr : Text)
    (netdevPciSlotVal : UInt32) (xml : Text) :
    (perfLine (fill [] line) vm ≠ .error .overread ↔ HasLetters line) ∧
    (vfNo netdevPciBusStr netdevPciSlotVal xml ≠ .error .overread ↔
      (netdevPciBusStr.length ≤ 4 → QuotesFollow netdevPciBusStr xml)) :=
  ⟨perfLine_ne_overread_iff vm, vfNo_ne_overread_iff netdevPciSlotVal⟩

/-- A blank line, and a `slot` in the text of an element at the end. -/
theorem scans_run_on :
    perfLine (fill [] ['\n']) countedVm = .error .overread ∧
    vfNo "0x07".toList 0 "<a bus='0x07'/>slot".toList = .error .overread := by
  decide +kernel

end VNams.Nuiod
