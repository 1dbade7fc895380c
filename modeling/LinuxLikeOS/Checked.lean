import Mathlib.Algebra.Group.Int.Defs
import Mathlib.Algebra.Group.Nat.Defs
import Mathlib.Tactic.Common

/-!
# 32-bit arithmetic that reports wrap-around

A value computed with 32-bit additions and subtractions, and whether one of them has wrapped on
the way. Values are natural numbers; an operation within range is a pure step.
-/

namespace LinuxLikeOS

structure Checked (α : Type) where
  value : α
  wrapped : Bool

namespace Checked

instance : Monad Checked where
  pure value := ⟨value, false⟩
  bind first next := ⟨(next first.value).value, first.wrapped || (next first.value).wrapped⟩

variable {α β : Type}

theorem bind_of_pure (value : α) (next : α → Checked β) : (pure value >>= next) = next value := rfl

@[simp] theorem value_bind (first : Checked α) (next : α → Checked β) :
    (first >>= next).value = (next first.value).value := rfl

@[simp] theorem value_pure (value : α) : (pure value : Checked α).value = value := rfl

def plus (a b : Nat) : Checked Nat := ⟨(a + b) % 2 ^ 32, decide (2 ^ 32 ≤ a + b)⟩

def minus (a b : Nat) : Checked Nat := ⟨(a + 2 ^ 32 - b) % 2 ^ 32, decide (a < b)⟩

/-- The address of an element of an array. -/
def index (pointer size i : Nat) : Checked Nat := plus pointer (size * i)

theorem plus_eq {a b : Nat} (fits : a + b < 2 ^ 32) : plus a b = pure (a + b) := by
  have inside : decide (2 ^ 32 ≤ a + b) = false := decide_eq_false (Nat.not_le_of_lt fits)
  unfold plus
  rw [Nat.mod_eq_of_lt fits, inside]
  rfl

theorem minus_eq {a b : Nat} (small : a < 2 ^ 32) (le : b ≤ a) : minus a b = pure (a - b) := by
  have inside : decide (a < b) = false := decide_eq_false (Nat.not_lt_of_le le)
  have moved : (a + 2 ^ 32 - b) % 2 ^ 32 = a - b := by omega
  unfold minus
  rw [moved, inside]
  rfl

theorem index_eq {pointer size i : Nat} (fits : pointer + size * i < 2 ^ 32) :
    index pointer size i = pure (pointer + size * i) :=
  plus_eq fits

end Checked

end LinuxLikeOS
