import Mathlib.Algebra.Group.Int.Defs
import Mathlib.Algebra.GroupWithZero.Nat
import Mathlib.Data.List.Basic
import Mathlib.Tactic.Common

/-!
# Bytes behind a pointer

C code reads and writes memory at offsets from a pointer. `Memory` is what can be read
there, `Writes` what a call stored there; the string functions of `lib.c` that the file
system uses are stated over the first.
-/

namespace LinuxLikeOS

/-- The conversion of an `int` to `uint32_t`. -/
def toUnsigned (value : Int) : Nat := (value % 2 ^ 32).toNat

theorem toUnsigned_of_nonneg {value : Int} (nonneg : 0 ≤ value) (small : value < 2 ^ 32) :
    (toUnsigned value : Int) = value := by
  unfold toUnsigned
  omega

theorem toUnsigned_of_neg {value : Int} (negative : value < 0) (small : -2 ^ 31 ≤ value) :
    2 ^ 31 ≤ toUnsigned value := by
  unfold toUnsigned
  omega

abbrev Memory := Nat → UInt8

/-- Little-endian 32-bit load. -/
def word32 (memory : Memory) (offset : Nat) : Nat :=
  (memory offset).toNat + 2 ^ 8 * (memory (offset + 1)).toNat +
    2 ^ 16 * (memory (offset + 2)).toNat + 2 ^ 24 * (memory (offset + 3)).toNat

theorem word32_lt (memory : Memory) (offset : Nat) : word32 memory offset < 2 ^ 32 := by
  have zeroth := (memory offset).toNat_lt
  have first := (memory (offset + 1)).toNat_lt
  have second := (memory (offset + 2)).toNat_lt
  have third := (memory (offset + 3)).toNat_lt
  unfold word32
  omega

/-- The `index`-th byte of a 32-bit value in memory. -/
def byteOf (value index : Nat) : UInt8 := UInt8.ofNat (value / 2 ^ (8 * index))

theorem byteOf_word32 (memory : Memory) (offset : Nat) {k : Nat} (inside : k < 4) :
    byteOf (word32 memory offset) k = memory (offset + k) := by
  have zeroth := (memory offset).toNat_lt
  have first := (memory (offset + 1)).toNat_lt
  have second := (memory (offset + 2)).toNat_lt
  have third := (memory (offset + 3)).toNat_lt
  apply UInt8.toNat_inj.mp
  rw [byteOf, UInt8.toNat_ofNat', word32]
  obtain rfl | rfl | rfl | rfl : k = 0 ∨ k = 1 ∨ k = 2 ∨ k = 3 := by omega
  · simp only [Nat.add_zero]
    omega
  · omega
  · omega
  · omega

/-- Index of the first NUL among the first `limit` bytes. -/
def firstNul (memory : Memory) (limit : Nat) : Option Nat :=
  (List.range limit).find? fun index => memory index == 0

theorem firstNul_eq_some {memory : Memory} {limit index : Nat} :
    firstNul memory limit = some index ↔
      index < limit ∧ memory index = 0 ∧ ∀ lower < index, memory lower ≠ 0 := by
  unfold firstNul
  rw [List.find?_range_eq_some]
  simp only [beq_iff_eq, List.mem_range, Bool.not_eq_true', beq_eq_false_iff_ne]
  tauto

theorem firstNul_eq_none {memory : Memory} {limit : Nat} :
    firstNul memory limit = none ↔ ∀ index < limit, memory index ≠ 0 := by
  simp [firstNul, List.find?_eq_none]

theorem firstNul_congr {first second : Memory} {limit index : Nat}
    (found : firstNul second limit = some index)
    (agree : ∀ lower ≤ index, first lower = second lower) :
    firstNul first limit = some index := by
  obtain ⟨bound, nul, before⟩ := firstNul_eq_some.mp found
  refine firstNul_eq_some.mpr ⟨bound, (agree index (Nat.le_refl _)).trans nul, ?_⟩
  intro lower less
  rw [agree lower (Nat.le_of_lt less)]
  exact before lower less

/-- The loop of `strncmp`, entered at `index` with `n` bytes to go. -/
def strncmpFrom (s1 s2 : Memory) (index : Nat) : Nat → Int
  | 0 => 0
  | n + 1 =>
      if s1 index ≠ s2 index ∨ s1 index = 0 then
        (s1 index).toInt8.toInt - (s2 index).toInt8.toInt
      else strncmpFrom s1 s2 (index + 1) n

def strncmp (s1 s2 : Memory) (n : Nat) : Int := strncmpFrom s1 s2 0 n

theorem signed_difference_eq_zero {a b : UInt8} : a.toInt8.toInt - b.toInt8.toInt = 0 ↔ a = b := by
  rw [Int.sub_eq_zero, Int8.toInt_inj]
  constructor
  · intro same
    simpa using congrArg Int8.toUInt8 same
  · rintro rfl
    rfl

theorem strncmpFrom_eq_zero {s1 s2 : Memory} {index n : Nat}
    (noNul : ∀ i, index ≤ i → i < index + n → s2 i ≠ 0) :
    strncmpFrom s1 s2 index n = 0 ↔ ∀ i, index ≤ i → i < index + n → s1 i = s2 i := by
  induction n generalizing index with
  | zero =>
      refine iff_of_true rfl ?_
      intro i low high
      omega
  | succ n ih =>
      have rest : ∀ i, index + 1 ≤ i → i < index + 1 + n → s2 i ≠ 0 :=
        fun i low high => noNul i (by omega) (by omega)
      have here : s2 index ≠ 0 := noNul index (Nat.le_refl _) (by omega)
      unfold strncmpFrom
      by_cases same : s1 index = s2 index
      · have notNul : s1 index ≠ 0 := same.symm ▸ here
        rw [if_neg (by simp [same, here]), ih rest]
        constructor
        · intro agree i low high
          rcases Nat.eq_or_lt_of_le low with rfl | above
          · exact same
          · exact agree i above (by omega)
        · intro agree i low high
          exact agree i (by omega) (by omega)
      · rw [if_pos (Or.inl same), signed_difference_eq_zero]
        exact iff_of_false same fun agree => same (agree index (Nat.le_refl _) (by omega))

/-- Against a string without a NUL in its first `n` bytes, zero means equality. -/
theorem strncmp_eq_zero {s1 s2 : Memory} {n : Nat} (noNul : ∀ i < n, s2 i ≠ 0) :
    strncmp s1 s2 n = 0 ↔ ∀ i < n, s1 i = s2 i := by
  unfold strncmp
  rw [strncmpFrom_eq_zero fun i _ high => noNul i (by omega)]
  simp

/-- A string lies at an address, with its NUL. -/
structure StringAt (memory : Memory) (address : Nat) (text : List UInt8) : Prop where
  chars : ∀ i (inside : i < text.length), memory (address + i) = text[i]
  noNul : 0 ∉ text
  nul : memory (address + text.length) = 0

theorem StringAt.ne_zero {memory : Memory} {address i : Nat} {text : List UInt8}
    (string : StringAt memory address text) (inside : i < text.length) : memory (address + i) ≠ 0 := by
  rw [string.chars i inside]
  exact fun zero => string.noNul (zero ▸ List.getElem_mem inside)

/-- The test of a loop over the string, up to its NUL. -/
theorem StringAt.lt_length_iff {memory : Memory} {address i : Nat} {text : List UInt8}
    (string : StringAt memory address text) (reached : i ≤ text.length) :
    (memory (address + i) != 0) = decide (i < text.length) := by
  rcases Nat.lt_or_eq_of_le reached with before | rfl
  · rw [bne_iff_ne.mpr (string.ne_zero before), decide_eq_true before]
  · rw [string.nul, decide_eq_false (Nat.lt_irrefl _)]
    rfl

/-- The bytes of a string literal. -/
def ascii (text : List Char) : List UInt8 := text.map Char.toUInt8

/-- A NUL-terminated string argument: the byte in front of it and the bytes up to its NUL. -/
structure CString where
  before : UInt8
  chars : List UInt8
  noNul : 0 ∉ chars

/-- What the callee reads at an index. -/
def CString.at (string : CString) (index : Nat) : UInt8 := string.chars.getD index 0

/-- The bytes a call stored at offsets from a pointer; `none` where it stored nothing. -/
abbrev Writes := Nat → Option UInt8

namespace Writes

def nothing : Writes := fun _ => none

/-- `memset`. -/
def fill (n : Nat) (value : UInt8) : Writes := fun index => if index < n then some value else none

/-- Store the first `n` bytes of `source`. -/
def copy (source : Memory) (n : Nat) : Writes :=
  fun index => if index < n then some (source index) else none

def put (position : Nat) (value : UInt8) : Writes :=
  fun index => if index = position then some value else none

/-- Store these bytes from the position on. -/
def bytes (position : Nat) (text : List UInt8) : Writes :=
  fun index => if position ≤ index then text[index - position]? else none

/-- The later store to a byte is the one that stays. -/
def andThen (first second : Writes) : Writes := fun index => (second index).or (first index)

/-- Memory after the writes. -/
def apply (writes : Writes) (memory : Memory) : Memory :=
  fun index => (writes index).getD (memory index)

/-- Nothing was stored at or past the bound. -/
def Within (writes : Writes) (bound : Nat) : Prop := ∀ index, writes index ≠ none → index < bound

theorem within_nothing (bound : Nat) : nothing.Within bound := fun _ stored => absurd rfl stored

@[simp] theorem within_fill {n bound : Nat} {value : UInt8} :
    (fill n value).Within bound ↔ n ≤ bound := by
  constructor
  · intro within
    by_contra more
    have last := within bound (by simp [fill, Nat.lt_of_not_le more])
    omega
  · intro le index stored
    by_contra outside
    exact stored (if_neg (by omega))

@[simp] theorem within_copy {source : Memory} {n bound : Nat} :
    (copy source n).Within bound ↔ n ≤ bound := by
  constructor
  · intro within
    by_contra more
    have last := within bound (by simp [copy, Nat.lt_of_not_le more])
    omega
  · intro le index stored
    by_contra outside
    exact stored (if_neg (by omega))

@[simp] theorem within_put {position bound : Nat} {value : UInt8} :
    (put position value).Within bound ↔ position < bound := by
  constructor
  · intro within
    exact within position (by simp [put])
  · intro less index stored
    by_contra outside
    exact stored (if_neg (by omega))

@[simp] theorem within_andThen {first second : Writes} {bound : Nat} :
    (first.andThen second).Within bound ↔ first.Within bound ∧ second.Within bound := by
  constructor
  · intro within
    refine ⟨fun index stored => within index ?_, fun index stored => within index ?_⟩
    · cases later : second index <;> simp [andThen, later, stored]
    · cases later : second index with
      | none => exact absurd later stored
      | some byte => simp [andThen, later]
  · rintro ⟨left, right⟩ index stored
    cases later : second index with
    | none =>
        refine left index fun absent => stored ?_
        simp [andThen, later, absent]
    | some byte => exact right index (by simp [later])

theorem copy_succ (source : Memory) (n : Nat) :
    (copy source n).andThen (.put n (source n)) = .copy source (n + 1) := by
  funext index
  unfold andThen put copy
  rcases Nat.lt_trichotomy index n with before | rfl | later
  · rw [if_neg (Nat.ne_of_lt before), if_pos before, if_pos (Nat.lt_succ_of_lt before), Option.none_or]
  · rw [if_pos rfl, if_pos (Nat.lt_succ_self index), Option.some_or]
  · rw [if_neg (Nat.ne_of_gt later), if_neg (Nat.not_lt_of_gt later),
      if_neg (Nat.not_lt_of_le (Nat.succ_le_of_lt later)), Option.none_or]

theorem copy_congr {first second : Memory} {n : Nat} (agree : ∀ i < n, first i = second i) :
    copy first n = .copy second n := by
  funext index
  unfold copy
  by_cases inside : index < n
  · rw [if_pos inside, if_pos inside, agree index inside]
  · rw [if_neg inside, if_neg inside]

theorem copy_zero (source : Memory) : copy source 0 = .nothing := by
  funext index
  exact if_neg (Nat.not_lt_zero index)

theorem andThen_assoc (first second third : Writes) :
    (first.andThen second).andThen third = first.andThen (second.andThen third) := by
  funext index
  unfold andThen
  cases third index with
  | none => rfl
  | some byte => rfl

theorem apply_andThen (first second : Writes) (memory : Memory) :
    (first.andThen second).apply memory = second.apply (first.apply memory) := by
  funext index
  unfold apply andThen
  cases second index with
  | none => rfl
  | some byte => rfl

theorem andThen_bytes_nil (writes : Writes) (position : Nat) :
    writes.andThen (bytes position []) = writes := by
  funext index
  simp [andThen, bytes]

@[simp] theorem nothing_andThen (writes : Writes) : nothing.andThen writes = writes := by
  funext index
  simp [andThen, nothing]

theorem put_eq_bytes (position : Nat) (value : UInt8) : put position value = bytes position [value] := by
  funext index
  unfold put bytes
  rcases Nat.lt_trichotomy index position with before | rfl | later
  · rw [if_neg (Nat.ne_of_lt before), if_neg (Nat.not_le_of_lt before)]
  · rw [if_pos rfl, if_pos (Nat.le_refl _), Nat.sub_self]
    rfl
  · rw [if_neg (Nat.ne_of_gt later), if_pos (Nat.le_of_lt later)]
    have past : ¬ index - position < [value].length := by
      simp only [List.length_singleton]
      omega
    rw [List.getElem?_eq_none (Nat.le_of_not_lt past)]

theorem bytes_append (position : Nat) (first second : List UInt8) :
    (bytes position first).andThen (bytes (position + first.length) second) =
      bytes position (first ++ second) := by
  funext index
  unfold andThen bytes
  by_cases before : index < position + first.length
  · rw [if_neg (Nat.not_le_of_lt before), Option.none_or]
    by_cases inside : position ≤ index
    · rw [if_pos inside, if_pos inside, List.getElem?_append_left (by omega)]
    · rw [if_neg inside, if_neg inside]
  · have past : position ≤ index := by omega
    rw [if_pos (Nat.le_of_not_lt before), if_pos past, if_pos past,
      List.getElem?_append_right (by omega),
      List.getElem?_eq_none (by omega : first.length ≤ index - position), Option.or_none, Nat.sub_sub]

theorem put_bytes (position : Nat) (value : UInt8) (rest : List UInt8) :
    (put position value).andThen (bytes (position + 1) rest) = bytes position (value :: rest) := by
  rw [put_eq_bytes]
  exact bytes_append position [value] rest

@[simp] theorem within_bytes {text : List UInt8} {bound : Nat} :
    (bytes 0 text).Within bound ↔ text.length ≤ bound := by
  constructor
  · intro within
    by_contra more
    have last := within bound (by simp [bytes, Nat.lt_of_not_le more])
    omega
  · intro le index stored
    by_contra outside
    exact stored (by simp [bytes, Nat.le_trans le (Nat.le_of_not_lt outside)])

end Writes

end LinuxLikeOS
