import LinuxLikeOS.Blocks
import LinuxLikeOS.Bytes
import LinuxLikeOS.Loops
import Mathlib.Data.List.GetD
import Mathlib.Data.Nat.Digits.Lemmas

/-!
# Numbers as text (`lib.c`)

`itoa` stores the digits of a number from the lowest place on, and turns the string round with
`strrev`. The loops run in memory, with the addresses that are written logged.
-/

namespace LinuxLikeOS.Numbers

open Function Blocks Fueled

/-- `lookup`. -/
def lookup : List UInt8 := ascii "0123456789ABCDEFGHIJKLMNOPQRSTUVWXYZ".toList

def strlen (fuel s : Nat) (memory : Memory) : Fueled Nat Nat :=
  whileLoop (fun len => pure (memory (s + len) != 0)) (fun len => pure (len + 1)) fuel 0

/-- The variables of `strrev`: the signed indices `beg` and `end`. -/
structure Ends where
  beg : Int
  last : Int
  memory : Memory

/-- The address of `s[i]`. -/
def place (s : Nat) (i : Int) : Nat := (s + i).toNat

/-- The two characters at the indices change places. -/
def exchange (s : Nat) (ends : Ends) : Fueled Nat Ends := do
  let tmp := ends.memory (place s ends.last)
  access (place s ends.last)
  let memory := update ends.memory (place s ends.last) (ends.memory (place s ends.beg))
  access (place s ends.beg)
  pure ⟨ends.beg + 1, ends.last - 1, update memory (place s ends.beg) tmp⟩

def strrev (fuel s : Nat) (memory : Memory) : Fueled Nat Memory := do
  let len ← strlen fuel s memory
  let ends ← whileLoop (fun ends => pure (decide (ends.beg < ends.last))) (exchange s) fuel ⟨0, len - 1, memory⟩
  pure ends.memory

/-- The variables of `itoa`. -/
structure Conversion where
  newval : Nat
  newbuf : Nat
  memory : Memory

/-- One digit, from the lowest place on. -/
def storeDigit (radix : Nat) (conversion : Conversion) : Fueled Nat Conversion := do
  let i := conversion.newval % radix
  access conversion.newbuf
  pure ⟨conversion.newval / radix, conversion.newbuf + 1,
    update conversion.memory conversion.newbuf (lookup.getD i 0)⟩

def itoa (fuel value buf radix : Nat) (memory : Memory) : Fueled Nat Memory := do
  if value = 0 then do
    access buf
    access (buf + 1)
    pure (update (update memory buf 48) (buf + 1) 0)
  else do
    let conversion ← whileLoop (fun conversion => pure (decide (conversion.newval > 0))) (storeDigit radix) fuel
      ⟨value, buf, memory⟩
    access conversion.newbuf
    strrev fuel buf (update conversion.memory conversion.newbuf 0)

/-! ## Strings -/

section

variable {memory : Memory} {s fuel : Nat} {text : List UInt8} {P : Nat → Prop}

theorem strlen_returns (string : StringAt memory s text) (enough : text.length < fuel) :
    Returns P (fun len => len = text.length) (strlen fuel s memory) := by
  refine returns_while_pure _ (fun len => len ≤ text.length) _ (fun len => text.length - len) ?_ ?_
    (Nat.zero_le _) enough
  · intro len inside goes
    have before : len < text.length := of_decide_eq_true ((string.lt_length_iff inside).symm.trans goes)
    exact returns_pure ⟨before, by omega⟩
  · intro len inside stops
    have last : ¬ len < text.length := of_decide_eq_false ((string.lt_length_iff inside).symm.trans stops)
    exact Nat.le_antisymm inside (Nat.le_of_not_lt last)

/-- The string with its first and last `k` characters exchanged. -/
def swapped (memory : Memory) (s len k : Nat) : Memory := fun address =>
  if Within s len address ∧ (address < s + k ∨ s + len ≤ address + k) then
    memory (s + (len - 1 - (address - s)))
  else memory address

theorem swapped_zero (memory : Memory) (s len : Nat) : swapped memory s len 0 = memory := by
  funext address
  exact if_neg (by unfold Within; omega)

theorem swapped_succ {len k : Nat} (apart : k < len - 1 - k) :
    update (update (swapped memory s len k) (s + (len - 1 - k)) (swapped memory s len k (s + k))) (s + k)
      (swapped memory s len k (s + (len - 1 - k))) = swapped memory s len (k + 1) := by
  have middle : ∀ i, k ≤ i → i ≤ len - 1 - k → swapped memory s len k (s + i) = memory (s + i) :=
    fun i low high => if_neg (by omega)
  rw [middle k (Nat.le_refl k) (by omega), middle (len - 1 - k) (by omega) (Nat.le_refl _)]
  funext address
  by_cases low : address = s + k
  · subst low
    have across : s + (len - 1 - (s + k - s)) = s + (len - 1 - k) := by omega
    rw [update_self, swapped, if_pos (by unfold Within; omega), across]
  · rw [update_of_ne low]
    by_cases high : address = s + (len - 1 - k)
    · subst high
      have across : s + (len - 1 - (s + (len - 1 - k) - s)) = s + k := by omega
      rw [update_self, swapped, if_pos (by unfold Within; omega), across]
    · rw [update_of_ne high]
      refine if_congr ?_ rfl rfl
      unfold Within
      omega

/-- Once the indices have met, the whole string is turned round. -/
theorem swapped_whole (string : StringAt memory s text) {k : Nat} (met : text.length ≤ 2 * k + 1) :
    swapped memory s text.length k = written memory s text.reverse := by
  funext address
  by_cases inside : Within s text.length address
  · obtain ⟨i, less, rfl⟩ := inside.exists_add
    have turned : memory (s + (text.length - 1 - i)) = text[text.length - 1 - i] := string.chars _ (by omega)
    rw [written_inside memory (by simpa using less), List.getElem_reverse, ← turned, swapped, Nat.add_sub_cancel_left]
    by_cases outer : s + i < s + k ∨ s + text.length ≤ s + i + k
    · exact if_pos ⟨inside, outer⟩
    · have same : text.length - 1 - i = i := by omega
      rw [if_neg (fun both => outer both.2), same]
  · rw [swapped, if_neg (fun both => inside both.1), written_outside]
    rwa [List.length_reverse]

theorem exchange_returns {len k : Nat} (apart : k < len - 1 - k) :
    Returns (Within s len) (fun next => next = ⟨(k + 1 : Nat), len - 1 - (k + 1 : Nat), swapped memory s len (k + 1)⟩)
      (exchange s ⟨k, len - 1 - k, swapped memory s len k⟩) := by
  have low : place s k = s + k := by
    unfold place
    omega
  have high : place s (len - 1 - k) = s + (len - 1 - k) := by
    unfold place
    omega
  have inner : (len - 1 - k - 1 : Int) = len - 1 - (k + 1 : Nat) := by omega
  simp only [exchange, low, high]
  refine returns_access_bind ⟨by omega, by omega⟩ (returns_access_bind ⟨by omega, by omega⟩ (returns_pure ?_))
  rw [swapped_succ apart, inner]
  rfl

theorem strrev_returns (string : StringAt memory s text) (enough : text.length < fuel) :
    Returns (Within s text.length) (fun after => after = written memory s text.reverse) (strrev fuel s memory) := by
  refine (strlen_returns string enough).bind ?_
  rintro _ rfl
  refine (returns_while_pure (fun ends : Ends => decide (ends.beg < ends.last))
    (fun ends => ∃ k : Nat, ends = ⟨k, text.length - 1 - k, swapped memory s text.length k⟩)
    (fun ends => ends.memory = written memory s text.reverse)
    (fun ends => (ends.last - ends.beg).toNat) ?_ ?_ ?_ ?_).bind fun ends whole => returns_pure whole
  · rintro _ ⟨k, rfl⟩ goes
    have apart : (k : Int) < text.length - 1 - k := of_decide_eq_true goes
    refine (exchange_returns (by omega)).imp ?_
    rintro _ rfl
    refine ⟨⟨k + 1, rfl⟩, ?_⟩
    show (text.length - 1 - (k + 1 : Nat) - (k + 1 : Nat) : Int).toNat < (text.length - 1 - k - k : Int).toNat
    omega
  · rintro _ ⟨k, rfl⟩ stops
    have met : ¬ (k : Int) < text.length - 1 - k := of_decide_eq_false stops
    exact swapped_whole string (by omega)
  · refine ⟨0, ?_⟩
    rw [swapped_zero]
    simp
  · show (text.length - 1 - 0 : Int).toNat < fuel
    omega

end

/-! ## Digits -/

/-- The value of a digit: `0` to `9`, and `A` to `Z` from ten on. -/
def digitValue (c : UInt8) : Option Nat :=
  if 48 ≤ c ∧ c ≤ 57 then some (c.toNat - 48)
  else if 65 ≤ c ∧ c ≤ 90 then some (c.toNat - 65 + 10)
  else none

def IsDigit (radix : Nat) (c : UInt8) : Prop := ∃ digit < radix, digitValue c = some digit

/-- The digit of a value. -/
def digitChar (i : Nat) : UInt8 := UInt8.ofNat (if i < 10 then 48 + i else 65 + (i - 10))

/-- The digits of a number with the highest place first, and `0` for zero. -/
def numeral (radix value : Nat) : List UInt8 :=
  if value = 0 then [48] else ((Nat.digits radix value).map digitChar).reverse

theorem digitValue_digitChar {i : Nat} (inside : i < 36) : digitValue (digitChar i) = some i := by
  have each : ∀ i : Fin 36, digitValue (digitChar i.val) = some i.val := by decide
  exact each ⟨i, inside⟩

theorem lookup_eq {i : Nat} (inside : i < 36) : lookup.getD i 0 = digitChar i := by
  have each : ∀ i : Fin 36, lookup.getD i.val 0 = digitChar i.val := by decide
  exact each ⟨i, inside⟩

theorem isDigit_digitChar {radix i : Nat} (most : radix ≤ 36) (inside : i < radix) : IsDigit radix (digitChar i) :=
  ⟨i, inside, digitValue_digitChar (Nat.lt_of_lt_of_le inside most)⟩

theorem numeral_digits {radix value : Nat} (least : 2 ≤ radix) (most : radix ≤ 36) {c : UInt8}
    (member : c ∈ numeral radix value) : IsDigit radix c := by
  unfold numeral at member
  by_cases zero : value = 0
  · rw [if_pos zero, List.mem_singleton] at member
    subst member
    exact isDigit_digitChar most (show 0 < radix by omega)
  · rw [if_neg zero, List.mem_reverse, List.mem_map] at member
    obtain ⟨digit, isDigit, rfl⟩ := member
    exact isDigit_digitChar most (Nat.digits_lt_base least isDigit)

theorem numeral_noNul {radix value : Nat} (least : 2 ≤ radix) (most : radix ≤ 36) : 0 ∉ numeral radix value := by
  intro member
  obtain ⟨digit, _, value⟩ := numeral_digits least most member
  cases value

theorem numeral_length_le {radix value places : Nat} (least : 2 ≤ radix) (some : 0 < places)
    (fits : value < radix ^ places) : (numeral radix value).length ≤ places := by
  unfold numeral
  by_cases zero : value = 0
  · rw [if_pos zero]
    exact some
  · rw [if_neg zero, List.length_reverse, List.length_map]
    exact (Nat.digits_length_le_iff least value).mpr fits

/-! ## Values -/

/-- The number that a text denotes, read from the highest place on. -/
def valueOf (radix : Nat) (text : List UInt8) : Nat :=
  text.foldl (fun value c => value * radix + (digitValue c).getD 0) 0

/-- The text is the canonical one of the number: digits of the radix only, no zero in front unless it
is the only digit, and the value. -/
structure Canonical (radix value : Nat) (text : List UInt8) : Prop where
  digits : ∀ c ∈ text, IsDigit radix c
  nonempty : text ≠ []
  leading : text.head? = some 48 → text = [48]
  denotes : valueOf radix text = value

theorem valueOf_reverse (radix : Nat) {digits : List Nat} (small : ∀ digit ∈ digits, digit < 36) :
    valueOf radix (digits.map digitChar).reverse = Nat.ofDigits radix digits := by
  rw [valueOf, List.foldl_reverse]
  induction digits with
  | nil => rfl
  | cons digit digits ih =>
      have rest := ih fun other member => small other (List.mem_cons_of_mem digit member)
      rw [List.map_cons, List.foldr_cons, rest, Nat.ofDigits_cons,
        digitValue_digitChar (small digit List.mem_cons_self), Option.getD_some, Nat.mul_comm, Nat.add_comm]

theorem numeral_canonical {radix : Nat} (least : 2 ≤ radix) (most : radix ≤ 36) (value : Nat) :
    Canonical radix value (numeral radix value) := by
  have digits : ∀ c ∈ numeral radix value, IsDigit radix c := fun _ => numeral_digits least most
  by_cases zero : value = 0
  · have text : numeral radix value = [48] := if_pos zero
    rw [text] at digits ⊢
    refine ⟨digits, nofun, fun _ => rfl, ?_⟩
    show 0 * radix + 0 = value
    rw [Nat.zero_mul, zero]
  · have text : numeral radix value = ((Nat.digits radix value).map digitChar).reverse := if_neg zero
    have some : Nat.digits radix value ≠ [] := Nat.digits_ne_nil_iff_ne_zero.mpr zero
    have small : ∀ digit ∈ Nat.digits radix value, digit < 36 :=
      fun digit member => Nat.lt_of_lt_of_le (Nat.digits_lt_base least member) most
    refine ⟨digits, ?_, fun front => ?_, ?_⟩
    · rw [text]
      simpa using some
    · -- The highest digit is not zero, and no other digit looks like it.
      rw [text, List.head?_reverse, List.getLast?_map, List.getLast?_eq_some_getLast some, Option.map_some] at front
      have last := digitValue_digitChar (small _ (List.getLast_mem some))
      rw [Option.some.inj front] at last
      exact absurd (Option.some.inj last).symm (Nat.getLast_digit_ne_zero radix zero)
    · rw [text, valueOf_reverse radix small, Nat.ofDigits_digits]

/-- A text that stands where it has been written. -/
theorem stringAt_written (memory : Memory) (address : Nat) {text : List UInt8} (noNul : 0 ∉ text) :
    StringAt (written memory address (text ++ [0])) address text := by
  refine ⟨fun i inside => ?_, noNul, ?_⟩
  · rw [written_inside memory (by simp; omega), List.getElem_append_left inside]
  · rw [written_inside memory (by simp), List.getElem_concat_length]
    rfl

section

variable {memory : Memory} {buf radix value fuel : Nat}

/-- The digits that are stored and those of what is left are the digits of the number. -/
theorem storeDigit_returns (least : 2 ≤ radix) (most : radix ≤ 36) {stored : List Nat} {newval : Nat}
    (some : 0 < newval)
    (rest : stored ++ Nat.digits radix newval = Nat.digits radix value) :
    Returns (Within buf (Nat.digits radix value).length)
      (fun next => next = ⟨newval / radix, buf + (stored ++ [newval % radix]).length,
        written memory buf ((stored ++ [newval % radix]).map digitChar)⟩)
      (storeDigit radix ⟨newval, buf + stored.length, written memory buf (stored.map digitChar)⟩) := by
  have room : stored.length < (Nat.digits radix value).length := by
    rw [← rest, Nat.digits_def' least some, List.length_append, List.length_cons]
    omega
  refine returns_access_bind (within_add buf room) (returns_pure ?_)
  have small : newval % radix < radix := Nat.mod_lt _ (by omega)
  have digit : lookup.getD (newval % radix) 0 = digitChar (newval % radix) := lookup_eq (by omega)
  have next := written_concat memory buf (stored.map digitChar) (digitChar (newval % radix))
  rw [List.length_map] at next
  rw [List.map_append, List.length_append, List.map_singleton, ← next, ← digit]
  rfl

theorem storeDigits_returns (memory : Memory) (least : 2 ≤ radix) (most : radix ≤ 36)
    (enough : (Nat.digits radix value).length < fuel) :
    Returns (Within buf (Nat.digits radix value).length)
      (fun conversion => conversion.newbuf = buf + (Nat.digits radix value).length ∧
        conversion.memory = written memory buf ((Nat.digits radix value).map digitChar))
      (whileLoop (fun conversion => pure (decide (conversion.newval > 0))) (storeDigit radix) fuel
        ⟨value, buf, memory⟩) := by
  refine returns_while_pure (fun conversion : Conversion => decide (conversion.newval > 0))
    (fun conversion => ∃ stored : List Nat,
      stored ++ Nat.digits radix conversion.newval = Nat.digits radix value ∧
        conversion.newbuf = buf + stored.length ∧
        conversion.memory = written memory buf (stored.map digitChar)) _
    (fun conversion => (Nat.digits radix conversion.newval).length) ?_ ?_ ⟨[], rfl, rfl, by simp⟩ enough
  · rintro ⟨newval, _, _⟩ ⟨stored, rest, rfl, rfl⟩ goes
    have some : 0 < newval := of_decide_eq_true goes
    refine (storeDigit_returns least most some rest).imp ?_
    rintro _ rfl
    refine ⟨⟨stored ++ [newval % radix], ?_, rfl, rfl⟩, ?_⟩
    · rw [List.append_assoc, List.singleton_append, ← Nat.digits_def' least some, rest]
    · show (Nat.digits radix (newval / radix)).length < (Nat.digits radix newval).length
      rw [Nat.digits_def' least some, List.length_cons]
      exact Nat.lt_succ_self _
  · rintro ⟨newval, _, _⟩ ⟨stored, rest, rfl, rfl⟩ stops
    have none : newval = 0 := Nat.eq_zero_of_not_pos (of_decide_eq_false stops)
    simp only [none, Nat.digits_zero, List.append_nil] at rest
    exact ⟨by rw [rest], by rw [rest]⟩

theorem itoa_returns (least : 2 ≤ radix) (most : radix ≤ 36) (enough : (numeral radix value).length < fuel) :
    Returns (Within buf ((numeral radix value).length + 1))
      (fun after => after = written memory buf (numeral radix value ++ [0])) (itoa fuel value buf radix memory) := by
  unfold itoa
  by_cases zero : value = 0
  · have text : numeral radix value = [48] := if_pos zero
    rw [if_pos zero, text]
    refine returns_access_bind ⟨by omega, by simp⟩ (returns_access_bind ⟨by omega, by simp⟩ (returns_pure ?_))
    have first := written_concat memory buf [] 48
    have second := written_concat memory buf [48] 0
    rw [written_nil] at first
    rw [← second, ← List.nil_append [48], ← first]
    rfl
  · have text : numeral radix value = ((Nat.digits radix value).map digitChar).reverse := if_neg zero
    have length : (numeral radix value).length = (Nat.digits radix value).length := by
      rw [text, List.length_reverse, List.length_map]
    rw [if_neg zero]
    refine ((storeDigits_returns memory least most (length ▸ enough)).mono ?_).bind ?_
    · rintro address ⟨low, high⟩
      exact ⟨low, by omega⟩
    · rintro ⟨newval, _, _⟩ ⟨rfl, rfl⟩
      refine returns_access_bind (within_add buf (length ▸ Nat.lt_succ_self _)) ?_
      have terminated := written_concat memory buf ((Nat.digits radix value).map digitChar) 0
      rw [List.length_map] at terminated
      simp only [terminated]
      have noNul : 0 ∉ (Nat.digits radix value).map digitChar := by
        rw [← List.mem_reverse, ← text]
        exact numeral_noNul least most
      refine ((strrev_returns (stringAt_written memory buf noNul) ?_).imp ?_).mono ?_
      · rw [List.length_map, ← length]
        exact enough
      · rintro _ rfl
        rw [written_front _ _ _ (by simp), ← text]
      · rintro address ⟨low, high⟩
        rw [List.length_map] at high
        exact ⟨low, by omega⟩

end

end LinuxLikeOS.Numbers
