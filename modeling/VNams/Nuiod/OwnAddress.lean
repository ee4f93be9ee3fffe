import VNams.Lib.Literals
import VNams.Nuiod.Scans
import VNams.Nuiod.FailedStart

/-!
Whose address the VF number is read from.

A domain's xml has host-side addresses, inside `<source>`, and guest-side ones with the same
attributes; `set_vm_info` searches for `bus='…'`, `slot` and `function` as words of the text.
`document` is any text with the host-side address of the VM's own VF somewhere in it. Its slot
and function are what is read exactly when the searches, carried out in the text in front of
them, end at their quotes (`OwnFirst`). Otherwise a number is read that ends in front of the
own slot or function (`quotedAfter_append`), which then has no part in it or no weight.
-/

namespace VNams.Nuiod

open Lib Lib.CText Monitor

variable {D : Type}

/-- A host-side address, by the digits behind the `0x` of its slot and function. -/
structure HostAddress where
  slot : Text
  function : Text
  slot_digits : slot ≠ [] ∧ ∀ c ∈ slot, isDigitOf 16 c = true
  function_digits : function ≠ [] ∧ ∀ c ∈ function, isDigitOf 16 c = true
  slot_lt : hexNumber slot < 2 ^ 32
  function_lt : hexNumber function < 2 ^ 32

/-- The rest of a domain's xml, whatever it is. -/
structure Surroundings where
  /-- up to the `bus` of the address: other devices, `<source>` and its attributes, the
  attributes of the address in front of `bus` -/
  before : Text
  /-- between the bus and the slot -/
  gap : Text
  /-- between the slot and the function -/
  gap' : Text
  behind : Text

/-- What is searched for. -/
def busTarget (bus : Text) : Text := "bus='".toList ++ bus ++ ['\'']

/-- The xml up to the number of the own slot. -/
def Surroundings.toSlot (around : Surroundings) (bus : Text) : Text :=
  around.before ++ (busTarget bus ++ (around.gap ++ "slot='".toList))

/-- The xml between the number of the own slot and that of the own function. -/
def Surroundings.toFunction (around : Surroundings) : Text :=
  '\'' :: (around.gap' ++ "function='".toList)

/-- The xml from the number of the own function on. -/
def Surroundings.number (around : Surroundings) (address : HostAddress) : Text :=
  '0' :: 'x' :: address.function ++ '\'' :: around.behind

/-- The xml from the number of the own slot on. -/
def Surroundings.rest (around : Surroundings) (address : HostAddress) : Text :=
  '0' :: 'x' :: address.slot ++ (around.toFunction ++ around.number address)

/-- The xml of a domain with the host-side address on the bus. -/
def document (bus : Text) (around : Surroundings) (address : HostAddress) : Text :=
  around.toSlot bus ++ around.rest address

/-- The VF number of an address. -/
def vfOf (conf : DomainConf) (address : HostAddress) : Int :=
  toInt32 ((hexNumber address.slot - conf.netdevPciSlotVal.toNat : Int) * 8 +
    (hexNumber address.function - 1))

/-- What stands in quotes behind the first such word. -/
def quotedAfter (word s : Text) : Option Text :=
  (strstr word s).bind fun p => if '\'' ∈ p then some (quoted p) else none

/-- In the text in front of the own slot, the first quote behind the first `slot` behind the first
`bus='…'` with the NIC's number is the last one, that of the own slot; in the text between the
numbers, the first quote behind the first `function` is that of the own function; and what is
searched for fits its array. -/
structure OwnFirst (conf : DomainConf) (around : Surroundings) : Prop where
  fits : conf.netdevPciBusStr.length ≤ 4
  slot : ∀ busP, strstr (busTarget conf.netdevPciBusStr)
      (around.toSlot conf.netdevPciBusStr) = some busP → quotedAfter "slot".toList busP = some []
  function : quotedAfter "function".toList around.toFunction = some []

/-! ### The quotes -/

theorem quoted_cons {c : Char} (s : Text) :
    quoted (c :: s) = if c = '\'' then s else quoted s := by
  unfold quoted
  rw [List.dropWhile_cons]
  by_cases isQuote : c = '\'' <;> simp [isQuote]

/-- The first quote of a text stays the first. -/
theorem quoted_append {s : Text} (some : '\'' ∈ s) (behind : Text) :
    quoted (s ++ behind) = quoted s ++ behind := by
  induction s with
  | nil => cases some
  | cons c s ih =>
      rw [List.cons_append, quoted_cons, quoted_cons]
      split
      · rfl
      · rename_i other
        exact ih ((List.mem_cons.mp some).resolve_left (Ne.symm other))

theorem quoted_suffix (s : Text) : quoted s <:+ s :=
  (List.tail_suffix _).trans (List.dropWhile_suffix _)

theorem quotedAfter_eq_some {word s t : Text} (found : quotedAfter word s = some t) :
    ∃ p, strstr word s = some p ∧ '\'' ∈ p ∧ t = quoted p := by
  obtain ⟨p, here, isQuoted⟩ := Option.bind_eq_some_iff.mp found
  obtain ⟨quote, same⟩ := Option.ite_none_right_eq_some.mp isQuoted
  exact ⟨p, here, quote, (Option.some.inj same).symm⟩

/-- What is found in the front of a text is found in the text. -/
theorem quotedAfter_append {word s t : Text} (found : quotedAfter word s = some t)
    (behind : Text) : quotedAfter word (s ++ behind) = some (t ++ behind) := by
  obtain ⟨p, here, quote, rfl⟩ := quotedAfter_eq_some found
  rw [quotedAfter, strstr_append_of_some here behind, Option.bind_some,
    if_pos (List.mem_append_left _ quote), quoted_append quote]

theorem quotedAfter_suffix {word s t : Text} (found : quotedAfter word s = some t) : t <:+ s := by
  obtain ⟨p, here, _, rfl⟩ := quotedAfter_eq_some found
  exact (quoted_suffix p).trans (strstr_eq_some here).2

/-- A word with a quote behind it is found, if only there. -/
theorem exists_quotedAfter (word before : Text) {behind : Text} (quote : '\'' ∈ behind) :
    ∃ t, quotedAfter word (before ++ (word ++ behind)) = some t := by
  obtain ⟨p, found, isEnd⟩ := exists_strstr word before behind
  have here : '\'' ∈ p := isEnd.subset (List.mem_append_right word quote)
  exact ⟨quoted p, by rw [quotedAfter, found, Option.bind_some, if_pos here]⟩

theorem foreign_quote : Foreign '\'' := by
  constructor <;> decide

/-- The number that begins in front of a quote ends there; at the quote itself it is the number
behind it. -/
theorem strtol_quoted {t s : Text} (isEnd : t <:+ s ++ ['\'']) :
    t = [] ∨ ∃ n r, ∀ behind, strtol 0 (t ++ behind) = (n, r ++ '\'' :: behind) := by
  rcases List.eq_nil_or_concat t with rfl | ⟨t', c, rfl⟩
  · exact .inl rfl
  · right
    rw [List.concat_eq_append] at isEnd ⊢
    obtain rfl : c = '\'' := by
      obtain ⟨front, same⟩ := isEnd
      rw [← List.append_assoc] at same
      exact List.singleton_inj.mp (List.append_inj_right' same rfl)
    refine ⟨(strtol 0 t').1, (strtol 0 t').2, fun behind => ?_⟩
    rw [List.append_assoc, List.singleton_append, strtol_stop foreign_quote]

/-- The VF number, when everything that is searched for is found. -/
theorem vfNo_found {bus xml busP p q : Text} (val : UInt32) (fits : bus.length ≤ 4)
    (foundBus : strstr (busTarget bus) xml = some busP)
    (foundSlot : quotedAfter "slot".toList busP = some p)
    (foundFunction : quotedAfter "function".toList (strtol 0 p).2 = some q) :
    vfNo bus val xml =
      .ok (some (toInt32 (((strtol 0 p).1 - val.toNat) * 8 + ((strtol 0 q).1 - 1)))) := by
  have searched : "bus='".toList ++ bus ++ ['\''] = busTarget bus := rfl
  obtain ⟨slotP, slotHere, slotQuote, rfl⟩ := quotedAfter_eq_some foundSlot
  obtain ⟨functP, functHere, functionQuote, rfl⟩ := quotedAfter_eq_some foundFunction
  unfold vfNo
  rw [if_neg (not_lt.mpr fits), searched, foundBus]
  simp only [slotHere]
  refine bind_eq_ok.mpr ⟨quoted slotP, by rw [afterQuote_eq, if_pos slotQuote], ?_⟩
  simp only [functHere]
  exact bind_eq_ok.mpr ⟨quoted functP, by rw [afterQuote_eq, if_pos functionQuote], rfl⟩

/-! ### The parts of the xml -/

section Parts

variable (around : Surroundings) (address : HostAddress) (bus : Text)

/-- The own slot is read up to the quote behind it. -/
theorem strtol_rest : strtol 0 (around.rest address) =
    ((hexNumber address.slot : Int), around.toFunction ++ around.number address) := by
  have slot_lt := address.slot_lt
  exact strtol_hex address.slot_digits.1 address.slot_digits.2 (by omega) foreign_quote
    (around.gap' ++ "function='".toList ++ around.number address)

theorem strtol_number : (strtol 0 (around.number address)).1 = hexNumber address.function := by
  have function_lt := address.function_lt
  have read := strtol_hex address.function_digits.1 address.function_digits.2 (by omega)
    foreign_quote around.behind
  unfold Surroundings.number
  rw [read]

theorem toFunction_snoc : ∃ s, around.toFunction = s ++ ['\''] :=
  ⟨'\'' :: (around.gap' ++ "function=".toList), by simp [Surroundings.toFunction]⟩

theorem toSlot_snoc : ∃ s, around.toSlot bus = s ++ ['\''] :=
  ⟨around.before ++ (busTarget bus ++ (around.gap ++ "slot=".toList)), by
    simp [Surroundings.toSlot]⟩

/-- The own bus is found, or one in front of it. -/
theorem exists_bus : ∃ u, strstr (busTarget bus) (around.toSlot bus) =
    some (u ++ ("slot".toList ++ "='".toList)) := by
  obtain ⟨busP, found, front, isEnd⟩ :=
    exists_strstr (busTarget bus) around.before (around.gap ++ "slot='".toList)
  refine ⟨front ++ (busTarget bus ++ around.gap), found.trans (congrArg some ?_)⟩
  rw [← isEnd]
  simp only [List.append_assoc]
  rfl

/-- The own function is found, or one in front of it. -/
theorem exists_function (s : Text) :
    ∃ t, quotedAfter "function".toList (s ++ around.toFunction) = some t := by
  obtain ⟨t, found⟩ := exists_quotedAfter "function".toList (s ++ '\'' :: around.gap')
    (show '\'' ∈ "='".toList by decide +kernel)
  refine ⟨t, found.symm ▸ congrArg (quotedAfter _) ?_⟩
  simp [Surroundings.toFunction]

end Parts

theorem functionWord : "function".toList = ['f', 'u', 'n', 'c', 't', 'i', 'o', 'n'] := by
  decide +kernel

/-- No `function` begins in the digits of a slot. -/
theorem quotedAfter_digits {slot : Text} (isDigits : ∀ c ∈ slot, isDigitOf 16 c = true)
    (behind : Text) :
    quotedAfter "function".toList ('0' :: 'x' :: slot ++ '\'' :: behind) =
      quotedAfter "function".toList behind := by
  have absent : 'u' ∉ '0' :: 'x' :: slot ++ ['\''] := by
    have notDigit : 'u' ∉ slot := by
      intro mem
      exact absurd (isDigits 'u' mem) (by decide)
    simp [notDigit]
  have wanted : 'u' ∈ "function".toList ∧ '\'' ∉ "function".toList := by
    rw [functionWord]
    simp
  rw [quotedAfter, strstr_append_of_none (strstr_eq_none wanted.1 absent) wanted.2]
  rfl

/-! ### The own address -/

/-- What is read when the searches end at the own quotes. -/
theorem vfNo_own {conf : DomainConf} {around : Surroundings} (own : OwnFirst conf around)
    (address : HostAddress) :
    vfNo conf.netdevPciBusStr conf.netdevPciSlotVal
      (document conf.netdevPciBusStr around address) = .ok (some (vfOf conf address)) := by
  obtain ⟨u, found⟩ := exists_bus around conf.netdevPciBusStr
  have foundBus := strstr_append_of_some found (around.rest address)
  have foundSlot := quotedAfter_append (own.slot _ found) (around.rest address)
  rw [List.nil_append] at foundSlot
  have read := strtol_rest around address
  have foundFunction : quotedAfter "function".toList (strtol 0 (around.rest address)).2 =
      some (around.number address) := by
    rw [read]
    exact quotedAfter_append own.function (around.number address)
  rw [document, vfNo_found conf.netdevPciSlotVal own.fits foundBus foundSlot foundFunction, read,
    strtol_number]
  rfl

/-! ### Another address -/

/-- Behind a quote the function is searched for in the text from there on, if there is none in
front of it. -/
theorem quotedAfter_function_of_none {r : Text}
    (missing : quotedAfter "function".toList (r ++ ['\'']) = none) (behind : Text) :
    quotedAfter "function".toList (r ++ '\'' :: behind) = quotedAfter "function".toList behind := by
  have absent : strstr "function".toList (r ++ ['\'']) = none := by
    cases found : strstr "function".toList (r ++ ['\'']) with
    | none => rfl
    | some p =>
        obtain ⟨here, isEnd⟩ := strstr_eq_some found
        have long : 1 ≤ p.length := Nat.le_trans (by rw [functionWord]; decide) here.length_le
        have last : ['\''] <:+ p :=
          List.suffix_of_suffix_length_le (List.suffix_append r ['\'']) isEnd long
        have quote : '\'' ∈ p := last.subset (List.mem_singleton_self _)
        rw [quotedAfter, found, Option.bind_some, if_pos quote] at missing
        cases missing
  have wanted : '\'' ∉ "function".toList := by
    rw [functionWord]
    simp
  rw [quotedAfter, strstr_append_of_none absent wanted]
  rfl

/-- The function that is read behind a number in front of the own slot: the same for two
addresses with one function, or the slots themselves. -/
theorem function_misread (around : Surroundings) (r : Text) {a b : HostAddress}
    (same : a.function = b.function) :
    ∃ q q', quotedAfter "function".toList (r ++ '\'' :: around.rest a) = some q ∧
      quotedAfter "function".toList (r ++ '\'' :: around.rest b) = some q' ∧
      ((strtol 0 q).1 = (strtol 0 q').1 ∨
        ((strtol 0 q).1 = hexNumber a.slot ∧ (strtol 0 q').1 = hexNumber b.slot)) := by
  have split : ∀ address : HostAddress, r ++ '\'' :: around.rest address =
      r ++ ['\''] ++ around.rest address := fun address => by simp
  cases found : quotedAfter "function".toList (r ++ ['\'']) with
  | some q =>
      refine ⟨q ++ around.rest a, q ++ around.rest b, ?_, ?_, ?_⟩
      · rw [split, quotedAfter_append found]
      · rw [split, quotedAfter_append found]
      · rcases strtol_quoted (quotedAfter_suffix found) with rfl | ⟨n, _, number⟩
        · right
          rw [List.nil_append, List.nil_append, strtol_rest, strtol_rest]
          exact ⟨rfl, rfl⟩
        · left
          rw [number, number]
  | none =>
      have own : ∀ address : HostAddress,
          quotedAfter "function".toList (r ++ '\'' :: around.rest address) =
            quotedAfter "function".toList
              (around.gap' ++ "function='".toList ++ around.number address) := by
        intro address
        rw [quotedAfter_function_of_none found]
        exact quotedAfter_digits address.slot_digits.2 _
      obtain ⟨t, first⟩ := exists_function around []
      have behind : quotedAfter "function".toList (around.gap' ++ "function='".toList) = some t := by
        rw [← first]
        exact (quotedAfter_digits (show ∀ c ∈ ([] : Text), isDigitOf 16 c = true from nofun) _).symm
      refine ⟨t ++ around.number a, t ++ around.number b, ?_, ?_, .inl ?_⟩
      · rw [own, quotedAfter_append behind]
      · rw [own, quotedAfter_append behind]
      · simp only [Surroundings.number, same]

/-- When the number in quotes behind the first `slot` is not the own one, the own slot has no
weight in what is read. -/
theorem vfNo_misread {conf : DomainConf} {around : Surroundings} {busP t : Text}
    (fits : conf.netdevPciBusStr.length ≤ 4)
    (found : strstr (busTarget conf.netdevPciBusStr) (around.toSlot conf.netdevPciBusStr) = some busP)
    (foreign : quotedAfter "slot".toList busP = some t) (other : t ≠ []) {a b : HostAddress}
    (same : a.function = b.function) :
    ∃ slot g g' : Int,
      vfNo conf.netdevPciBusStr conf.netdevPciSlotVal (document conf.netdevPciBusStr around a) =
        .ok (some (toInt32 ((slot - conf.netdevPciSlotVal.toNat) * 8 + (g - 1)))) ∧
      vfNo conf.netdevPciBusStr conf.netdevPciSlotVal (document conf.netdevPciBusStr around b) =
        .ok (some (toInt32 ((slot - conf.netdevPciSlotVal.toNat) * 8 + (g' - 1)))) ∧
      (g = g' ∨ (g = hexNumber a.slot ∧ g' = hexNumber b.slot)) := by
  obtain ⟨s, ends⟩ := toSlot_snoc around conf.netdevPciBusStr
  have isEnd := (quotedAfter_suffix foreign).trans (strstr_eq_some found).2
  rw [ends] at isEnd
  obtain ⟨n, r, number⟩ := (strtol_quoted isEnd).resolve_left other
  obtain ⟨q, q', read, read', either⟩ := function_misread around r same
  refine ⟨n, (strtol 0 q).1, (strtol 0 q').1, ?_, ?_, either⟩
  · have whole := vfNo_found conf.netdevPciSlotVal fits (strstr_append_of_some found _)
      (quotedAfter_append foreign (around.rest a)) (by rw [number]; exact read)
    rwa [number] at whole
  · have whole := vfNo_found conf.netdevPciSlotVal fits (strstr_append_of_some found _)
      (quotedAfter_append foreign (around.rest b)) (by rw [number]; exact read')
    rwa [number] at whole

/-- When the number in quotes behind the first `function` is not the own one, the own function has
no part in what is read. -/
theorem vfNo_misread_function {conf : DomainConf} {around : Surroundings} {t : Text}
    (fits : conf.netdevPciBusStr.length ≤ 4)
    (slot : ∀ busP, strstr (busTarget conf.netdevPciBusStr)
      (around.toSlot conf.netdevPciBusStr) = some busP → quotedAfter "slot".toList busP = some [])
    (foreign : quotedAfter "function".toList around.toFunction = some t) (other : t ≠ [])
    {a b : HostAddress} (same : a.slot = b.slot) :
    vfNo conf.netdevPciBusStr conf.netdevPciSlotVal (document conf.netdevPciBusStr around a) =
      vfNo conf.netdevPciBusStr conf.netdevPciSlotVal (document conf.netdevPciBusStr around b) := by
  obtain ⟨u, found⟩ := exists_bus around conf.netdevPciBusStr
  obtain ⟨s, ends⟩ := toFunction_snoc around
  have isEnd := quotedAfter_suffix foreign
  rw [ends] at isEnd
  obtain ⟨n, r, number⟩ := (strtol_quoted isEnd).resolve_left other
  have read : ∀ address : HostAddress,
      vfNo conf.netdevPciBusStr conf.netdevPciSlotVal
        (document conf.netdevPciBusStr around address) =
          .ok (some (toInt32 ((hexNumber address.slot - conf.netdevPciSlotVal.toNat) * 8 +
            (n - 1)))) := by
    intro address
    have foundSlot := quotedAfter_append (slot _ found) (around.rest address)
    rw [List.nil_append] at foundSlot
    have foundFunction : quotedAfter "function".toList (strtol 0 (around.rest address)).2 =
        some (t ++ around.number address) := by
      rw [strtol_rest]
      exact quotedAfter_append foreign (around.number address)
    rw [document, vfNo_found conf.netdevPciSlotVal fits (strstr_append_of_some found _) foundSlot
      foundFunction, strtol_rest, number]
  rw [read, read, same]

/-! ### The VF number -/

/-- The VF number that is stored is the one that is read. -/
theorem setVf_iff {conf : DomainConf} {env : DomainEnv} {vm : VmInfo D} {xml : Text} {vf : Int} :
    setVf conf { env with xml := some xml } vm = .ok (true, { vm with vfNo := vf }) ↔
      vfNo conf.netdevPciBusStr conf.netdevPciSlotVal xml = .ok (some vf) := by
  constructor
  · intro stored
    obtain ⟨found, looked, isFound, same⟩ := setVf_eq_ok stored
    cases found with
    | none => cases isFound
    | some vf' =>
        have sameVf : vf = vf' := congrArg VmInfo.vfNo same
        rw [sameVf]
        exact looked
  · intro read
    exact bind_eq_ok.mpr ⟨some vf, read, rfl⟩

/-- `set_vm_info` stores the VF number of the host-side address, whatever its slot and
function. -/
def ReadsOwn (conf : DomainConf) (env : DomainEnv) (vm : VmInfo D) (around : Surroundings) : Prop :=
  ∀ address : HostAddress,
    setVf conf { env with xml := some (document conf.netdevPciBusStr around address) } vm =
      .ok (true, { vm with vfNo := vfOf conf address })

theorem emod_of_toInt32 {a b : Int} (same : toInt32 a = toInt32 b) :
    a % ((2 ^ 32 : Nat) : Int) = b % ((2 ^ 32 : Nat) : Int) := by
  have left : toInt32 a % ((2 ^ 32 : Nat) : Int) = a % ((2 ^ 32 : Nat) : Int) := Int.bmod_emod
  have right : toInt32 b % ((2 ^ 32 : Nat) : Int) = b % ((2 ^ 32 : Nat) : Int) := Int.bmod_emod
  rw [← left, same, right]

/-- Addresses with a function below 8 and a slot that leaves room for it have different VF
numbers. -/
theorem vfOf_ne {conf : DomainConf} {a b : HostAddress} (slots : hexNumber a.slot < 2 ^ 29)
    (slots' : hexNumber b.slot < 2 ^ 29) (functions : hexNumber a.function ≤ 7)
    (functions' : hexNumber b.function ≤ 7)
    (differ : hexNumber a.slot ≠ hexNumber b.slot ∨
      hexNumber a.function ≠ hexNumber b.function) : vfOf conf a ≠ vfOf conf b := by
  intro same
  have congruent := emod_of_toInt32 same
  omega

theorem digitChar_hex : ∀ n : Fin 2, isDigitOf 16 (Nat.digitChar n) = true ∧
    hexNumber [Nat.digitChar n] = n := by
  decide +kernel

/-- An address of one digit each. -/
def oneDigit (slot function : Fin 2) : HostAddress where
  slot := [Nat.digitChar slot]
  function := [Nat.digitChar function]
  slot_digits := ⟨List.cons_ne_nil _ _, List.forall_mem_singleton.mpr (digitChar_hex slot).1⟩
  function_digits := ⟨List.cons_ne_nil _ _, List.forall_mem_singleton.mpr (digitChar_hex function).1⟩
  slot_lt := by
    rw [(digitChar_hex slot).2]
    omega
  function_lt := by
    rw [(digitChar_hex function).2]
    omega

/-- Whose slot and function are read shows with slots and functions 0 and 1. -/
theorem ReadsOwn.ownFirst {conf : DomainConf} {env : DomainEnv} {vm : VmInfo D}
    {around : Surroundings} (reads : ReadsOwn conf env vm around) : OwnFirst conf around := by
  have read := fun address => setVf_iff.mp (reads address)
  have fits : conf.netdevPciBusStr.length ≤ 4 := by
    by_contra long
    have first := read (oneDigit 0 0)
    unfold vfNo at first
    rw [if_pos (not_le.mp long)] at first
    cases first
  have slot : ∀ busP, strstr (busTarget conf.netdevPciBusStr)
      (around.toSlot conf.netdevPciBusStr) = some busP →
        quotedAfter "slot".toList busP = some [] := by
    intro busP found
    obtain ⟨u, found'⟩ := exists_bus around conf.netdevPciBusStr
    obtain rfl := Option.some.inj (found'.symm.trans found)
    obtain ⟨t, foreign⟩ := exists_quotedAfter "slot".toList u
      (show '\'' ∈ "='".toList by decide +kernel)
    by_contra other
    have notOwn : t ≠ [] := fun own => other (own ▸ foreign)
    have same : (oneDigit 0 1).function = (oneDigit 1 1).function := rfl
    obtain ⟨n, g, g', zero, one, either⟩ := vfNo_misread fits found foreign notOwn same
    rw [read] at zero one
    have zero' := emod_of_toInt32 (Option.some.inj (Except.ok.inj zero))
    have one' := emod_of_toInt32 (Option.some.inj (Except.ok.inj one))
    -- eight numbers lie between the two slots, and at most one is read
    have slots : hexNumber (oneDigit 0 1).slot = 0 ∧ hexNumber (oneDigit 1 1).slot = 1 := by
      decide
    have functions : hexNumber (oneDigit 0 1).function = 1 ∧
        hexNumber (oneDigit 1 1).function = 1 := by
      decide
    rw [slots.1, functions.1] at zero'
    rw [slots.2, functions.2] at one'
    rw [slots.1, slots.2] at either
    omega
  refine ⟨fits, slot, ?_⟩
  obtain ⟨t, foreign⟩ := exists_function around []
  rw [List.nil_append] at foreign
  by_contra other
  have notOwn : t ≠ [] := fun own => other (own ▸ foreign)
  have same : (oneDigit 0 0).slot = (oneDigit 0 1).slot := rfl
  have misread := vfNo_misread_function fits slot foreign notOwn same
  rw [read, read] at misread
  exact vfOf_ne (by decide) (by decide) (by decide) (by decide) (.inr (by decide))
    (Option.some.inj (Except.ok.inj misread))

/-- The VF number comes from the own address exactly when the searches end at its quotes; and then
different addresses have different VF numbers, whatever is around them. -/
theorem own_vf_iff (conf : DomainConf) (env : DomainEnv) (vm : VmInfo D) :
    (∀ around, ReadsOwn conf env vm around ↔ OwnFirst conf around) ∧
    ∀ around around', OwnFirst conf around → OwnFirst conf around' →
      ∀ (env' : DomainEnv) (vm' : VmInfo D) (a b : HostAddress),
      hexNumber a.slot < 2 ^ 29 → hexNumber b.slot < 2 ^ 29 →
      hexNumber a.function ≤ 7 → hexNumber b.function ≤ 7 →
      (hexNumber a.slot ≠ hexNumber b.slot ∨ hexNumber a.function ≠ hexNumber b.function) →
      ∃ vf vf', setVf conf { env with xml := some (document conf.netdevPciBusStr around a) } vm =
          .ok (true, { vm with vfNo := vf }) ∧
        setVf conf { env' with xml := some (document conf.netdevPciBusStr around' b) } vm' =
          .ok (true, { vm' with vfNo := vf' }) ∧ vf ≠ vf' := by
  constructor
  · intro around
    exact ⟨ReadsOwn.ownFirst, fun own address => setVf_iff.mpr (vfNo_own own address)⟩
  · intro around around' own own' env' vm' a b slots slots' functions functions' differ
    exact ⟨_, _, setVf_iff.mpr (vfNo_own own a), setVf_iff.mpr (vfNo_own own' b),
      vfOf_ne slots slots' functions functions' differ⟩

/-- A passed-through VF as libvirt prints it, with nothing in front that has its bus. -/
def alone : Surroundings where
  before :=
    "<interface type='hostdev' managed='yes'><mac address='52:54:00:6d:90:02'/>".toList ++
      "<source dev='enp7s0f0'>\n<address type='pci' domain='0x0000' ".toList
  gap := [' ']
  gap' := [' ']
  behind :=
    "/></source><address type='pci' domain='0x0000' bus='0x07' slot='0x05' ".toList ++
      "function='0x0'/></interface>".toList

/-- A disk on guest bus 7 in front of it. -/
def diskFirst : Surroundings :=
  { alone with
    before :=
      "<disk type='file'><address type='pci' domain='0x0000' bus='0x07' slot='0x05' ".toList ++
        "function='0x0'/></disk>".toList ++ alone.before }

/-- Slot 0, function 4, as libvirt prints it. -/
def fourthFunction : HostAddress :=
  ⟨['0', '0'], ['4'], ⟨by decide, List.all_eq_true.mp (by decide)⟩,
    ⟨by decide, List.all_eq_true.mp (by decide)⟩, by decide, by decide⟩

/-- The disk's address is taken for that of the VF. -/
theorem guest_address_read :
    vfNo "0x07".toList 0 (document "0x07".toList alone fourthFunction) = .ok (some 3) ∧
      vfNo "0x07".toList 0 (document "0x07".toList diskFirst fourthFunction) = .ok (some 39) ∧
      vfOf ⟨2, "0x07".toList, 0⟩ fourthFunction = 3 := by
  decide +kernel

end VNams.Nuiod
