import LinuxLikeOS.Blocks
import LinuxLikeOS.Bytes
import LinuxLikeOS.Loops
import Mathlib.Data.List.Infix

/-!
# Strings of the user programs (`ece391support.c`)

The library that the programs are linked with. Its loops run in memory, with every address that is
read or written logged.
-/

namespace LinuxLikeOS

open Function Blocks Fueled

section

variable {memory : Memory} {text : List UInt8}

theorem StringAt.cons {address : Nat} {char : UInt8} (here : memory address = char) (notNul : char ≠ 0)
    (string : StringAt memory (address + 1) text) : StringAt memory address (char :: text) := by
  refine ⟨?_, fun member => (List.mem_cons.mp member).elim (fun zero => notNul zero.symm) string.noNul, ?_⟩
  · rintro (_ | i) inside
    · exact here
    · have next := string.chars i (Nat.lt_of_succ_lt_succ inside)
      rwa [Nat.add_right_comm] at next
  · have nulBehind := string.nul
    rwa [Nat.add_right_comm] at nulBehind

theorem StringAt.first {address : Nat} (string : StringAt memory address text) : memory address = text.headD 0 := by
  cases text with
  | nil => exact string.nul
  | cons char rest => exact string.chars 0 (Nat.succ_pos _)

/-- Behind any address with a NUL further on lies a string. -/
theorem exists_stringAt {address : Nat} (k : Nat) (nul : memory (address + k) = 0) :
    ∃ text, StringAt memory address text ∧ text.length ≤ k := by
  induction k generalizing address with
  | zero => exact ⟨[], ⟨nofun, List.not_mem_nil, nul⟩, Nat.le_refl 0⟩
  | succ k ih =>
      by_cases here : memory address = 0
      · exact ⟨[], ⟨nofun, List.not_mem_nil, here⟩, Nat.zero_le _⟩
      · rw [← Nat.add_assoc, Nat.add_right_comm] at nul
        obtain ⟨text, string, short⟩ := ih nul
        exact ⟨memory address :: text, string.cons rfl here, Nat.succ_le_succ short⟩

/-- Characters that are followed by a NUL are a string up to the first NUL among them. -/
theorem stringAt_takeWhile {address : Nat} {chars : List UInt8}
    (stands : ∀ i (inside : i < chars.length), memory (address + i) = chars[i])
    (nul : memory (address + chars.length) = 0) : StringAt memory address (chars.takeWhile (· != 0)) := by
  induction chars generalizing address with
  | nil => exact ⟨nofun, List.not_mem_nil, nul⟩
  | cons char rest ih =>
      have here : memory address = char := stands 0 (Nat.succ_pos _)
      by_cases zero : char = 0
      · rw [List.takeWhile_cons_of_neg (by simp [zero])]
        exact ⟨nofun, List.not_mem_nil, here.trans zero⟩
      · rw [List.takeWhile_cons_of_pos (by simp [zero])]
        refine (ih (fun i inside => ?_) ?_).cons here zero
        · rw [Nat.add_right_comm, Nat.add_assoc]
          exact stands (i + 1) (Nat.succ_lt_succ inside)
        · rw [Nat.add_right_comm, Nat.add_assoc]
          exact nul

theorem StringAt.unique {address : Nat} {other : List UInt8} (string : StringAt memory address text)
    (same : StringAt memory address other) : text = other := by
  have length : text.length = other.length := by
    rcases Nat.lt_trichotomy text.length other.length with less | equal | more
    · exact absurd string.nul (same.ne_zero less)
    · exact equal
    · exact absurd same.nul (string.ne_zero more)
  refine List.ext_getElem length fun i inside inside' => ?_
  rw [← string.chars i inside, same.chars i inside']

theorem StringAt.drop {address k : Nat} (string : StringAt memory address text) (inside : k ≤ text.length) :
    StringAt memory (address + k) (text.drop k) where
  chars i less := by
    rw [List.length_drop] at less
    rw [List.getElem_drop, ← string.chars (k + i) (by omega), Nat.add_assoc]
  noNul member := string.noNul (List.mem_of_mem_drop member)
  nul := by
    rw [List.length_drop, Nat.add_assoc, Nat.add_sub_cancel' inside]
    exact string.nul

/-- A string stays where the memory stays the same. -/
theorem StringAt.congr {other : Memory} {address : Nat} (string : StringAt memory address text)
    (same : ∀ place, Within address (text.length + 1) place → other place = memory place) :
    StringAt other address text where
  chars i inside := (same _ (within_add address (Nat.lt_succ_of_lt inside))).trans (string.chars i inside)
  noNul := string.noNul
  nul := (same _ (within_add address (Nat.lt_succ_self _))).trans string.nul

end

namespace Programs

def ece391Strlen (fuel s : Nat) (memory : Memory) : Fueled Nat Nat :=
  whileLoop (fun len => do access (s + len); pure (memory (s + len) != 0)) (fun len => pure (len + 1)) fuel 0

/-- The variables of `ece391_strcpy`; `going` is the value of the condition. -/
structure Copying where
  dst : Nat
  src : Nat
  memory : Memory
  going : Bool

def copyChar (copying : Copying) : Fueled Nat Copying := do
  access copying.src
  access copying.dst
  let c := copying.memory copying.src
  pure ⟨copying.dst + 1, copying.src + 1, update copying.memory copying.dst c, c != 0⟩

def ece391Strcpy (fuel dst src : Nat) (memory : Memory) : Fueled Nat Memory := do
  let copying ← whileLoop (fun copying => pure copying.going) copyChar fuel ⟨dst, src, memory, true⟩
  pure copying.memory

/-- The variables of `ece391_strncmp`, with what it has returned. -/
structure Comparing where
  s1 : Nat
  s2 : Nat
  n : Nat
  returned : Option Int

def compareChar (memory : Memory) (comparing : Comparing) : Fueled Nat Comparing := do
  access comparing.s1
  access comparing.s2
  let c1 := memory comparing.s1
  let c2 := memory comparing.s2
  if c1 = c2 then
    if c1 = 0 ∨ comparing.n - 1 = 0 then pure { comparing with returned := some 0 }
    else pure ⟨comparing.s1 + 1, comparing.s2 + 1, comparing.n - 1, none⟩
  else pure { comparing with returned := some ((c1.toNat : Int) - c2.toNat) }

def ece391Strncmp (fuel s1 s2 n : Nat) (memory : Memory) : Fueled Nat Int :=
  if n = 0 then pure 0
  else do
    let comparing ← whileLoop (fun comparing => pure comparing.returned.isNone) (compareChar memory) fuel
      ⟨s1, s2, n, none⟩
    pure (comparing.returned.getD 0)

/-- The variables of `ece391_strcmp`, with what it has returned. -/
structure Matching where
  s1 : Nat
  s2 : Nat
  returned : Option Int

def matchChar (memory : Memory) (matching : Matching) : Fueled Nat Matching := do
  access matching.s1
  access matching.s2
  let c1 := memory matching.s1
  let c2 := memory matching.s2
  if c1 = c2 then
    if c1 = 0 then pure { matching with returned := some 0 }
    else pure ⟨matching.s1 + 1, matching.s2 + 1, none⟩
  else pure { matching with returned := some ((c1.toNat : Int) - c2.toNat) }

def ece391Strcmp (fuel s1 s2 : Nat) (memory : Memory) : Fueled Nat Int := do
  let matching ← whileLoop (fun matching => pure matching.returned.isNone) (matchChar memory) fuel ⟨s1, s2, none⟩
  pure (matching.returned.getD 0)

/-! ## What they compute -/

section

variable {memory : Memory} {fuel : Nat} {text : List UInt8} {P : Nat → Prop}

theorem strlen_returns {s : Nat} (string : StringAt memory s text) (enough : text.length < fuel)
    (readable : ∀ address, Within s (text.length + 1) address → P address) :
    Returns P (fun len => len = text.length) (ece391Strlen fuel s memory) := by
  refine returns_while (fun len => len ≤ text.length) (fun len => text.length - len) ?_ (Nat.zero_le _) enough
  intro len inside
  refine returns_access_bind (readable _ (within_add s (Nat.lt_succ_of_le inside))) (returns_pure ?_)
  rw [string.lt_length_iff inside]
  refine ⟨fun goes => ?_, fun stops => ?_⟩
  · have before : len < text.length := of_decide_eq_true goes
    exact returns_pure ⟨before, by omega⟩
  · have last : ¬ len < text.length := of_decide_eq_false stops
    exact Nat.le_antisymm inside (Nat.le_of_not_lt last)

/-- A copy towards the front, within or out of the same block. -/
theorem strcpy_returns {dst src : Nat} (string : StringAt memory src text) (enough : text.length + 1 < fuel)
    (down : dst ≤ src) (readable : ∀ address, dst ≤ address → address < src + (text.length + 1) → P address) :
    Returns P (fun after => after = written memory dst (text ++ [0])) (ece391Strcpy fuel dst src memory) := by
  let whole := text ++ [0]
  have length : whole.length = text.length + 1 := List.length_append
  have source : ∀ k (inside : k < whole.length), memory (src + k) = whole[k] := by
    intro k inside
    rcases Nat.lt_or_ge k text.length with before | past
    · rw [List.getElem_append_left before, string.chars k before]
    · obtain rfl : k = text.length := by omega
      rw [List.getElem_concat_length rfl]
      exact string.nul
  refine (returns_while_pure (fun copying : Copying => copying.going)
    (fun copying => ∃ k ≤ whole.length, copying = ⟨dst + k, src + k, written memory dst (whole.take k),
      decide (k < whole.length)⟩)
    (fun copying => copying.memory = written memory dst whole) (fun copying => src + whole.length - copying.src)
    ?_ ?_ ⟨0, Nat.zero_le _, ?_⟩ ?_).bind fun copying holds => returns_pure holds
  · rintro _ ⟨k, -, rfl⟩ goes
    have inside : k < whole.length := of_decide_eq_true goes
    have unread : written memory dst (whole.take k) (src + k) = whole[k] := by
      rw [written_outside, source k inside]
      unfold Within
      rw [List.length_take]
      omega
    refine returns_access_bind (readable (src + k) (by omega) (by omega))
      (returns_access_bind (readable (dst + k) (by omega) (by omega)) (returns_pure ⟨⟨k + 1, inside, ?_⟩, ?_⟩))
    · have taken : (whole.take k).length = k := List.length_take_of_le (Nat.le_of_lt inside)
      have next := written_concat memory dst (whole.take k) whole[k]
      rw [taken, List.take_concat_get' whole k inside] at next
      have ends : (whole[k] != 0) = decide (k + 1 < whole.length) := by
        have test := string.lt_length_iff (i := k) (by omega)
        rw [source k inside] at test
        rw [test, length]
        exact decide_eq_decide.mpr (Nat.succ_lt_succ_iff).symm
      simp only [unread, next, ends]
      rfl
    · show src + whole.length - (src + k + 1) < src + whole.length - (src + k)
      omega
  · rintro _ ⟨k, most, rfl⟩ stops
    have past : ¬ k < whole.length := of_decide_eq_false stops
    rw [List.take_of_length_le (Nat.le_of_not_lt past)]
  · simp [whole]
  · show src + whole.length - src < fuel
    omega

/-- A string starts with a text if the bytes at its address do. -/
theorem isPrefix_iff {s : Nat} {start : List UInt8} (string : StringAt memory s text) (noNul : 0 ∉ start) :
    start <+: text ↔ ∀ i (inside : i < start.length), memory (s + i) = start[i] := by
  constructor
  · rintro ⟨rest, rfl⟩ i inside
    rw [string.chars i (by rw [List.length_append]; omega), List.getElem_append_left inside]
  · intro agree
    have short : start.length ≤ text.length := by
      by_contra longer
      have last := agree text.length (Nat.lt_of_not_le longer)
      rw [string.nul] at last
      exact noNul (last ▸ List.getElem_mem _)
    rw [List.prefix_iff_eq_take]
    refine List.ext_getElem (by rw [List.length_take, Nat.min_eq_left short]) fun i left right => ?_
    rw [List.getElem_take, ← agree i left, string.chars i (by omega)]

/-- One round, the first `k` characters being equal. -/
theorem compareChar_returns {s1 s2 k : Nat} {start : List UInt8} (string : StringAt memory s1 text)
    (other : StringAt memory s2 start) (inside : k < start.length) (reached : k ≤ text.length)
    (agree : ∀ i (less : i < start.length), i < k → memory (s1 + i) = start[i])
    (readable : ∀ address, Within s1 (text.length + 1) address ∨ Within s2 start.length address → P address) :
    Returns P (fun next =>
        (next = ⟨s1 + (k + 1), s2 + (k + 1), start.length - (k + 1), none⟩ ∧ k + 1 < start.length ∧
            k + 1 ≤ text.length ∧ ∀ i (less : i < start.length), i < k + 1 → memory (s1 + i) = start[i]) ∨
          ∃ value, next.returned = some value ∧ (value = 0 ↔ start <+: text))
      (compareChar memory ⟨s1 + k, s2 + k, start.length - k, none⟩) := by
  have character : memory (s2 + k) = start[k] := other.chars k inside
  refine returns_access_bind (readable (s1 + k) (Or.inl (within_add s1 (Nat.lt_succ_of_le reached))))
    (returns_access_bind (readable (s2 + k) (Or.inr (within_add s2 inside))) ?_)
  by_cases same : memory (s1 + k) = memory (s2 + k)
  · have notNul : memory (s1 + k) ≠ 0 := same ▸ other.ne_zero inside
    have before : k < text.length :=
      Nat.lt_of_le_of_ne reached fun last => notNul (last ▸ string.nul)
    have further : ∀ i (less : i < start.length), i < k + 1 → memory (s1 + i) = start[i] := by
      intro i less early
      rcases Nat.lt_succ_iff_lt_or_eq.mp early with earlier | rfl
      · exact agree i less earlier
      · exact same.trans character
    simp only [if_pos same]
    by_cases last : start.length - k - 1 = 0
    · rw [if_pos (Or.inr last)]
      refine returns_pure (Or.inr ⟨0, rfl, iff_of_true rfl ?_⟩)
      exact (isPrefix_iff string other.noNul).mpr fun i less => further i less (by omega)
    · rw [if_neg (fun both => both.elim notNul last)]
      exact returns_pure (Or.inl ⟨rfl, by omega, before, further⟩)
  · simp only [if_neg same]
    refine returns_pure (Or.inr ⟨_, rfl, iff_of_false ?_ ?_⟩)
    · intro zero
      exact same (UInt8.toNat_inj.mp (by omega))
    · intro starts
      exact same (((isPrefix_iff string other.noNul).mp starts k inside).trans character.symm)

theorem strncmp_returns {s1 s2 : Nat} {start : List UInt8} (string : StringAt memory s1 text)
    (other : StringAt memory s2 start) (enough : start.length < fuel)
    (readable : ∀ address, Within s1 (text.length + 1) address ∨ Within s2 start.length address → P address) :
    Returns P (fun value => value = 0 ↔ start <+: text) (ece391Strncmp fuel s1 s2 start.length memory) := by
  unfold ece391Strncmp
  by_cases empty : start.length = 0
  · rw [if_pos empty]
    exact returns_pure (iff_of_true rfl (List.eq_nil_of_length_eq_zero empty ▸ List.nil_prefix))
  · rw [if_neg empty]
    refine (returns_while_pure (fun comparing : Comparing => comparing.returned.isNone)
      (fun comparing => (∃ k, comparing = ⟨s1 + k, s2 + k, start.length - k, none⟩ ∧ k < start.length ∧
          k ≤ text.length ∧ ∀ i (less : i < start.length), i < k → memory (s1 + i) = start[i]) ∨
        ∃ value, comparing.returned = some value ∧ (value = 0 ↔ start <+: text))
      (fun comparing => ∃ value, comparing.returned = some value ∧ (value = 0 ↔ start <+: text))
      (fun comparing => if comparing.returned.isNone then comparing.n else 0) ?_ ?_ ?_ ?_).bind
      fun comparing ⟨value, returned, holds⟩ => returns_pure (by rwa [returned])
    · rintro comparing (⟨k, rfl, inside, reached, agree⟩ | ⟨value, returned, -⟩) goes
      · refine (compareChar_returns string other inside reached agree readable).imp ?_
        rintro next (⟨rfl, less, most, further⟩ | ⟨value, returned, holds⟩)
        · refine ⟨Or.inl ⟨k + 1, rfl, less, most, further⟩, ?_⟩
          show start.length - (k + 1) < start.length - k
          omega
        · refine ⟨Or.inr ⟨value, returned, holds⟩, ?_⟩
          rw [returned]
          show 0 < start.length - k
          omega
      · rw [returned] at goes
        cases goes
    · rintro comparing (⟨k, rfl, -⟩ | done) stops
      · cases stops
      · exact done
    · exact Or.inl ⟨0, rfl, Nat.pos_of_ne_zero empty, Nat.zero_le _, nofun⟩
    · exact enough

/-- One round, the first `k` characters being equal. -/
theorem matchChar_returns {s1 s2 k : Nat} {other : List UInt8} (string : StringAt memory s1 text)
    (otherString : StringAt memory s2 other) (reached : k ≤ text.length) (reached' : k ≤ other.length)
    (agree : text.take k = other.take k)
    (readable : ∀ address, Within s1 (text.length + 1) address ∨ Within s2 (other.length + 1) address → P address) :
    Returns P (fun next =>
        (next = ⟨s1 + (k + 1), s2 + (k + 1), none⟩ ∧ k + 1 ≤ text.length ∧ k + 1 ≤ other.length ∧
            text.take (k + 1) = other.take (k + 1)) ∨
          ∃ value, next.returned = some value ∧ (value = 0 ↔ text = other))
      (matchChar memory ⟨s1 + k, s2 + k, none⟩) := by
  refine returns_access_bind (readable (s1 + k) (Or.inl (within_add s1 (Nat.lt_succ_of_le reached))))
    (returns_access_bind (readable (s2 + k) (Or.inr (within_add s2 (Nat.lt_succ_of_le reached')))) ?_)
  by_cases same : memory (s1 + k) = memory (s2 + k)
  · simp only [if_pos same]
    by_cases zero : memory (s1 + k) = 0
    · have last : k = text.length := by
        by_contra before
        exact string.ne_zero (Nat.lt_of_le_of_ne reached before) zero
      have last' : k = other.length := by
        by_contra before
        exact otherString.ne_zero (Nat.lt_of_le_of_ne reached' before) (same ▸ zero)
      rw [if_pos zero]
      refine returns_pure (Or.inr ⟨0, rfl, iff_of_true rfl ?_⟩)
      rwa [List.take_of_length_le (Nat.le_of_eq last.symm), List.take_of_length_le (Nat.le_of_eq last'.symm)] at agree
    · have before : k < text.length := Nat.lt_of_le_of_ne reached fun last => zero (last ▸ string.nul)
      have before' : k < other.length :=
        Nat.lt_of_le_of_ne reached' fun last => zero (same.trans (last ▸ otherString.nul))
      have character : text[k] = other[k] :=
        (string.chars k before).symm.trans (same.trans (otherString.chars k before'))
      rw [if_neg zero]
      refine returns_pure (Or.inl ⟨rfl, before, before', ?_⟩)
      rw [← List.take_concat_get' text k before, ← List.take_concat_get' other k before', agree, character]
  · simp only [if_neg same]
    refine returns_pure (Or.inr ⟨_, rfl, iff_of_false ?_ ?_⟩)
    · intro zero
      exact same (UInt8.toNat_inj.mp (by omega))
    · rintro rfl
      rcases Nat.lt_or_eq_of_le reached with before | rfl
      · exact same ((string.chars k before).trans (otherString.chars k before).symm)
      · exact same (string.nul.trans otherString.nul.symm)

theorem strcmp_returns {s1 s2 : Nat} {other : List UInt8} (string : StringAt memory s1 text)
    (otherString : StringAt memory s2 other) (enough : text.length + 1 < fuel)
    (readable : ∀ address, Within s1 (text.length + 1) address ∨ Within s2 (other.length + 1) address → P address) :
    Returns P (fun value => value = 0 ↔ text = other) (ece391Strcmp fuel s1 s2 memory) := by
  refine (returns_while_pure (fun matching : Matching => matching.returned.isNone)
    (fun matching => (∃ k, matching = ⟨s1 + k, s2 + k, none⟩ ∧ k ≤ text.length ∧ k ≤ other.length ∧
        text.take k = other.take k) ∨ ∃ value, matching.returned = some value ∧ (value = 0 ↔ text = other))
    (fun matching => ∃ value, matching.returned = some value ∧ (value = 0 ↔ text = other))
    (fun matching => if matching.returned.isNone then s1 + text.length + 1 - matching.s1 else 0) ?_ ?_ ?_ ?_).bind
    fun matching ⟨value, returned, holds⟩ => returns_pure (by rwa [returned])
  · rintro matching (⟨k, rfl, reached, reached', agree⟩ | ⟨value, returned, -⟩) goes
    · refine (matchChar_returns string otherString reached reached' agree readable).imp ?_
      rintro next (⟨rfl, more, more', further⟩ | ⟨value, returned, holds⟩)
      · refine ⟨Or.inl ⟨k + 1, rfl, more, more', further⟩, ?_⟩
        show s1 + text.length + 1 - (s1 + (k + 1)) < s1 + text.length + 1 - (s1 + k)
        omega
      · refine ⟨Or.inr ⟨value, returned, holds⟩, ?_⟩
        rw [returned]
        show 0 < s1 + text.length + 1 - (s1 + k)
        omega
    · rw [returned] at goes
      cases goes
  · rintro matching (⟨k, rfl, -⟩ | done) stops
    · cases stops
    · exact done
  · exact Or.inl ⟨0, rfl, Nat.zero_le _, Nat.zero_le _, rfl⟩
  · show s1 + text.length + 1 - s1 < fuel
    omega

end

end Programs

end LinuxLikeOS
