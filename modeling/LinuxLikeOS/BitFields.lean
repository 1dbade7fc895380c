import Mathlib.Algebra.GroupWithZero.Nat
import Mathlib.Data.List.Basic
import Mathlib.Tactic.Common

/-!
# Packed fields

A word made of fields of given widths, the lowest first, and the reading of a field at its position.
-/

namespace LinuxLikeOS.BitFields

/-- Widths and values, the lowest field first; a value is cut to its width. -/
def pack : List (Nat × Nat) → Nat
  | [] => 0
  | (width, value) :: rest => value % 2 ^ width + 2 ^ width * pack rest

/-- The field of a word that starts at a position. -/
def bits (word low width : Nat) : Nat := word / 2 ^ low % 2 ^ width

def widths (fields : List (Nat × Nat)) : Nat := (fields.map Prod.fst).sum

theorem pack_append (first second : List (Nat × Nat)) :
    pack (first ++ second) = pack first + 2 ^ widths first * pack second := by
  induction first with
  | nil => simp [pack, widths]
  | cons field rest ih =>
      obtain ⟨width, value⟩ := field
      simp only [List.cons_append, pack, ih, widths, List.map_cons, List.sum_cons, Nat.pow_add]
      rw [Nat.mul_add, Nat.mul_assoc, Nat.add_assoc]

theorem pack_lt (fields : List (Nat × Nat)) : pack fields < 2 ^ widths fields := by
  induction fields with
  | nil => simp [pack, widths]
  | cons field rest ih =>
      obtain ⟨width, value⟩ := field
      have low : value % 2 ^ width < 2 ^ width := Nat.mod_lt _ (Nat.two_pow_pos width)
      have high : 2 ^ width * pack rest + 2 ^ width ≤ 2 ^ width * 2 ^ widths rest := by
        rw [← Nat.mul_succ]
        exact Nat.mul_le_mul_left _ ih
      simp only [pack, widths, List.map_cons, List.sum_cons, Nat.pow_add]
      rw [widths] at high
      omega

/-- Fields that follow one another are read back together at the position behind those before them. -/
theorem bits_pack {fields : List (Nat × Nat)} {low width : Nat} (before count : Nat)
    (place : widths (fields.take before) = low) (wide : widths ((fields.drop before).take count) = width) :
    bits (pack fields) low width = pack ((fields.drop before).take count) := by
  subst place wide
  let first := fields.take before
  let group := (fields.drop before).take count
  let rest := (fields.drop before).drop count
  have whole : pack fields = pack first + 2 ^ widths first * (pack group + 2 ^ widths group * pack rest) := by
    rw [← pack_append, ← pack_append, List.take_append_drop, List.take_append_drop]
  calc
    bits (pack fields) (widths first) (widths group)
      = (pack group + 2 ^ widths group * pack rest) % 2 ^ widths group := by
        rw [bits, whole, Nat.add_mul_div_left _ _ (Nat.two_pow_pos _), Nat.div_eq_of_lt (pack_lt first), Nat.zero_add]
    _ = pack group := by rw [Nat.add_mul_mod_self_left, Nat.mod_eq_of_lt (pack_lt group)]

theorem pack_single {width value : Nat} (fits : value < 2 ^ width) : pack [(width, value)] = value := by
  rw [pack, pack, Nat.mod_eq_of_lt fits, Nat.mul_zero, Nat.add_zero]

theorem pack_bit (value : Bool) (rest : List (Nat × Nat)) :
    pack ((1, value.toNat) :: rest) = value.toNat + 2 * pack rest := by
  cases value <;> rfl

end LinuxLikeOS.BitFields
