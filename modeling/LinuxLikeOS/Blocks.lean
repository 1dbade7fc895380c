import Mathlib.Logic.Function.Basic
import Mathlib.Tactic.Common

/-!
# Blocks of memory

What copying or filling a block leaves in memory, by address, and how the blocks that are written one
after the other add up. Memory is a function of the address; the values in it may be anything.
-/

namespace LinuxLikeOS.Blocks

open Function

/-- The address lies in the block of `n` cells at `base`. -/
def Within (base n address : Nat) : Prop := base ≤ address ∧ address < base + n

instance (base n address : Nat) : Decidable (Within base n address) := by
  unfold Within
  infer_instance

theorem within_add (base : Nat) {n i : Nat} (inside : i < n) : Within base n (base + i) :=
  ⟨Nat.le_add_right base i, Nat.add_lt_add_left inside base⟩

theorem Within.exists_add {base n address : Nat} (inside : Within base n address) : ∃ i < n, address = base + i := by
  obtain ⟨low, high⟩ := inside
  exact ⟨address - base, by omega, by omega⟩

/-- Two blocks with no address in common. -/
def Apart (first n second m : Nat) : Prop := first + n ≤ second ∨ second + m ≤ first

theorem Apart.symm {first n second m : Nat} (apart : Apart first n second m) : Apart second m first n := Or.symm apart

theorem Apart.mono {first n second m : Nat} (apart : Apart first n second m) {fewer less : Nat} (left : fewer ≤ n)
    (right : less ≤ m) : Apart first fewer second less := by
  unfold Apart at apart ⊢
  omega

section

variable {α : Type*} (memory : Nat → α)

/-- Memory with `n` cells from `src` on in the place of those from `dest` on. -/
def copied (dest src n : Nat) : Nat → α := fun address =>
  if Within dest n address then memory (src + (address - dest)) else memory address

/-- Memory with a value in `n` cells. -/
def filled (base n : Nat) (value : α) : Nat → α := fun address =>
  if Within base n address then value else memory address

@[simp] theorem copied_zero (dest src : Nat) : copied memory dest src 0 = memory := by
  funext address
  exact if_neg (by unfold Within; omega)

@[simp] theorem filled_zero (base : Nat) (value : α) : filled memory base 0 value = memory := by
  funext address
  exact if_neg (by unfold Within; omega)

theorem copied_inside {dest src n i : Nat} (inside : i < n) :
    copied memory dest src n (dest + i) = memory (src + i) := by
  unfold copied
  rw [if_pos ⟨by omega, by omega⟩, Nat.add_sub_cancel_left]

theorem copied_outside {dest src n address : Nat} (outside : ¬ Within dest n address) :
    copied memory dest src n address = memory address :=
  if_neg outside

theorem filled_inside {base n address : Nat} (value : α) (inside : Within base n address) :
    filled memory base n value address = value :=
  if_pos inside

theorem filled_outside {base n address : Nat} (value : α) (outside : ¬ Within base n address) :
    filled memory base n value address = memory address :=
  if_neg outside

/-- The source is as it was, if it lies apart. -/
theorem copied_source {dest src n m i : Nat} (apart : Apart dest n src m) (inside : i < m) :
    copied memory dest src n (src + i) = memory (src + i) := by
  refine copied_outside memory ?_
  unfold Within
  unfold Apart at apart
  omega

/-- A block copied in two pieces. -/
theorem copied_copied {dest src n m : Nat} (apart : Apart dest (n + m) src (n + m)) :
    copied (copied memory dest src n) (dest + n) (src + n) m = copied memory dest src (n + m) := by
  unfold Apart at apart
  funext address
  by_cases second : Within (dest + n) m address
  · obtain ⟨low, high⟩ := second
    have place : src + n + (address - (dest + n)) = src + (address - dest) := by omega
    rw [copied, if_pos ⟨low, high⟩, place, copied_outside, copied, if_pos]
    · unfold Within
      omega
    · unfold Within
      omega
  · rw [copied_outside _ second]
    unfold copied
    refine if_congr ?_ rfl rfl
    unfold Within at second ⊢
    omega

theorem filled_filled (base n m : Nat) (value : α) :
    filled (filled memory base n value) (base + n) m value = filled memory base (n + m) value := by
  funext address
  unfold filled
  by_cases second : Within (base + n) m address
  · rw [if_pos second, if_pos]
    unfold Within at second ⊢
    omega
  · rw [if_neg second]
    refine if_congr ?_ rfl rfl
    unfold Within at second ⊢
    omega

/-- One cell copied. -/
theorem copied_one (dest src : Nat) : copied memory dest src 1 = update memory dest (memory src) := by
  funext address
  by_cases here : address = dest
  · subst here
    rw [update_self]
    exact copied_inside memory Nat.zero_lt_one
  · rw [update_of_ne here]
    exact if_neg (by unfold Within; omega)

theorem filled_one (base : Nat) (value : α) : filled memory base 1 value = update memory base value := by
  funext address
  by_cases here : address = base
  · subst here
    rw [update_self]
    exact if_pos ⟨Nat.le_refl _, Nat.lt_succ_self _⟩
  · rw [update_of_ne here]
    exact if_neg (by unfold Within; omega)

/-- The next cell of a block that is being filled. -/
theorem filled_succ (base n : Nat) (value : α) :
    update (filled memory base n value) (base + n) value = filled memory base (n + 1) value := by
  rw [← filled_one, filled_filled]

/-- The next four cells. -/
theorem filled_four (base n : Nat) (value : α) :
    update (update (update (update (filled memory base n value) (base + n) value) (base + n + 1) value)
      (base + n + 2) value) (base + n + 3) value = filled memory base (n + 4) value := by
  rw [filled_succ]
  have second : update (filled memory base (n + 1) value) (base + n + 1) value = _ :=
    filled_succ memory base (n + 1) value
  rw [second]
  have third : update (filled memory base (n + 2) value) (base + n + 2) value = _ :=
    filled_succ memory base (n + 2) value
  rw [third]
  exact filled_succ memory base (n + 3) value

/-- The next cell of a block that is being copied. -/
theorem copied_succ {dest src n : Nat} (apart : Apart dest (n + 1) src (n + 1)) :
    update (copied memory dest src n) (dest + n) (copied memory dest src n (src + n)) =
      copied memory dest src (n + 1) := by
  rw [← copied_one, copied_copied memory apart]

/-- The next four cells, which are read before the first of them is written. -/
theorem copied_four {dest src n : Nat} (apart : Apart dest (n + 4) src (n + 4)) :
    update (update (update (update (copied memory dest src n) (dest + n) (copied memory dest src n (src + n)))
      (dest + n + 1) (copied memory dest src n (src + n + 1))) (dest + n + 2) (copied memory dest src n (src + n + 2)))
      (dest + n + 3) (copied memory dest src n (src + n + 3)) = copied memory dest src (n + 4) := by
  have source : ∀ m k, m ≤ n + 4 → k < 4 → copied memory dest src m (src + (n + k)) = memory (src + (n + k)) :=
    fun m k most less => copied_source memory (apart.mono most (Nat.le_refl _)) (by omega)
  have next : ∀ k < 4, update (copied memory dest src (n + k)) (dest + (n + k))
      (copied memory dest src n (src + (n + k))) = copied memory dest src (n + k + 1) := by
    intro k less
    rw [source n k (by omega) less, ← source (n + k) k (by omega) less]
    exact copied_succ memory (apart.mono (by omega) (by omega))
  have first := next 0 (by decide)
  have second := next 1 (by decide)
  have third := next 2 (by decide)
  have fourth := next 3 (by decide)
  simp only [Nat.add_zero, ← Nat.add_assoc] at first second third fourth
  rw [first, second, third, fourth]

/-- Memory with the values of a list from `base` on. -/
def written (base : Nat) (values : List α) : Nat → α := fun address =>
  if base ≤ address then (values[address - base]?).getD (memory address) else memory address

@[simp] theorem written_nil (base : Nat) : written memory base [] = memory := by
  funext address
  simp [written]

theorem written_inside {base i : Nat} {values : List α} (inside : i < values.length) :
    written memory base values (base + i) = values[i] := by
  unfold written
  rw [if_pos (Nat.le_add_right base i), Nat.add_sub_cancel_left, List.getElem?_eq_getElem inside, Option.getD_some]

theorem written_outside {base address : Nat} {values : List α} (outside : ¬ Within base values.length address) :
    written memory base values address = memory address := by
  unfold written
  by_cases before : base ≤ address
  · rw [if_pos before, List.getElem?_eq_none, Option.getD_none]
    unfold Within at outside
    omega
  · exact if_neg before

/-- The next value of a list that is being written. -/
theorem written_concat (base : Nat) (values : List α) (value : α) :
    update (written memory base values) (base + values.length) value = written memory base (values ++ [value]) := by
  funext address
  by_cases last : address = base + values.length
  · subst last
    have here : values.length < (values ++ [value]).length := by simp
    rw [update_self, written_inside memory here, List.getElem_concat_length]
    rfl
  · rw [update_of_ne last]
    by_cases inside : Within base values.length address
    · obtain ⟨i, less, rfl⟩ := inside.exists_add
      rw [written_inside memory less, written_inside memory (by simp; omega), List.getElem_append_left less]
    · rw [written_outside memory inside, written_outside]
      unfold Within at inside ⊢
      rw [List.length_append, List.length_singleton]
      omega

/-- All but the last value of a list are written over. -/
theorem written_front (base : Nat) {first second : List α} (value : α) (same : first.length = second.length) :
    written (written memory base (first ++ [value])) base second = written memory base (second ++ [value]) := by
  rw [← written_concat, ← written_concat memory base second]
  funext address
  by_cases last : address = base + second.length
  · subst last
    rw [update_self, written_outside _ (by unfold Within; omega), same, update_self]
  · rw [update_of_ne last]
    by_cases inside : Within base second.length address
    · obtain ⟨i, less, rfl⟩ := inside.exists_add
      rw [written_inside _ less, written_inside _ less]
    · rw [written_outside _ inside, written_outside _ inside, same, update_of_ne last,
        written_outside _ (same ▸ inside)]

/-- A list with a value in front of it. -/
theorem written_cons (base : Nat) (value : α) (values : List α) :
    written (update memory base value) (base + 1) values = written memory base (value :: values) := by
  funext address
  by_cases inside : Within (base + 1) values.length address
  · obtain ⟨i, less, rfl⟩ := inside.exists_add
    have place : base + 1 + i = base + (i + 1) := by omega
    rw [written_inside _ less, place, written_inside memory (by simpa using less), List.getElem_cons_succ]
  · rw [written_outside _ inside]
    by_cases here : address = base
    · subst here
      have front : written memory address (value :: values) (address + 0) = value := written_inside memory (by simp)
      rw [update_self]
      exact front.symm
    · rw [update_of_ne here, written_outside]
      unfold Within at inside ⊢
      rw [List.length_cons]
      omega

end

end LinuxLikeOS.Blocks
