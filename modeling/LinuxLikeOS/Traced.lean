import Mathlib.Data.List.Basic

/-!
# Computations with the places they access

A value together with the places that were read or written on the way, in order. `Ensures` is
the triple of such a computation: what holds of the value, and of every place.
-/

namespace LinuxLikeOS

structure Traced (ω α : Type) where
  value : α
  log : List ω

namespace Traced

instance (ω : Type) : Monad (Traced ω) where
  pure value := ⟨value, []⟩
  bind first next := ⟨(next first.value).value, first.log ++ (next first.value).log⟩

variable {ω α β σ : Type}

def access (place : ω) : Traced ω Unit := ⟨(), [place]⟩

@[simp] theorem value_pure (value : α) : (pure value : Traced ω α).value = value := rfl

@[simp] theorem value_bind (first : Traced ω α) (next : α → Traced ω β) :
    (first >>= next).value = (next first.value).value := rfl

/-- Straight-line code is run step by step with these. -/
theorem pure_eq (value : α) : (pure value : Traced ω α) = ⟨value, []⟩ := rfl

theorem access_eq (place : ω) : access place = ⟨(), [place]⟩ := rfl

theorem bind_mk (value : α) (log : List ω) (next : α → Traced ω β) :
    ((⟨value, log⟩ : Traced ω α) >>= next) = ⟨(next value).value, log ++ (next value).log⟩ := rfl

/-- Every place meets `P`, and the value meets `Q`. -/
def Ensures (P : ω → Prop) (Q : α → Prop) (run : Traced ω α) : Prop :=
  (∀ place ∈ run.log, P place) ∧ Q run.value

variable {P : ω → Prop} {Q : α → Prop} {R : β → Prop}

theorem ensures_pure {value : α} (holds : Q value) : Ensures P Q (pure value) := ⟨nofun, holds⟩

theorem ensures_access {place : ω} {Q : Unit → Prop} (good : P place) (holds : Q ()) :
    Ensures P Q (access place) := by
  refine ⟨fun other member => ?_, holds⟩
  rw [List.mem_singleton.mp member]
  exact good

theorem Ensures.bind {first : Traced ω α} {next : α → Traced ω β} (before : Ensures P Q first)
    (after : ∀ value, Q value → Ensures P R (next value)) : Ensures P R (first >>= next) := by
  obtain ⟨places, holds⟩ := before
  obtain ⟨others, ends⟩ := after first.value holds
  refine ⟨fun place member => ?_, ends⟩
  rcases List.mem_append.mp member with early | late
  · exact places place early
  · exact others place late

/-- A computation that first accesses a place. -/
theorem ensures_access_bind {place : ω} {next : Unit → Traced ω β} (good : P place)
    (ran : Ensures P R (next ())) : Ensures P R (access place >>= next) :=
  (ensures_access (Q := fun _ => True) good trivial).bind fun _ _ => ran

theorem Ensures.imp {run : Traced ω α} {S : α → Prop} (ensures : Ensures P Q run)
    (weaken : ∀ value, Q value → S value) : Ensures P S run :=
  ⟨ensures.1, weaken _ ensures.2⟩

theorem Ensures.mono {run : Traced ω α} {S : ω → Prop} (ensures : Ensures P Q run)
    (weaken : ∀ place, P place → S place) : Ensures S Q run :=
  ⟨fun place member => weaken place (ensures.1 place member), ensures.2⟩

/-- The same computation, its places named as those of a larger space. -/
def tagged {ω' : Type} (name : ω → ω') (run : Traced ω α) : Traced ω' α := ⟨run.value, run.log.map name⟩

theorem Ensures.tagged {ω' : Type} {name : ω → ω'} {S : ω' → Prop} {run : Traced ω α}
    (ensures : Ensures (fun place => S (name place)) Q run) : Ensures S Q (run.tagged name) := by
  refine ⟨fun place member => ?_, ensures.2⟩
  obtain ⟨inner, inside, rfl⟩ := List.mem_map.mp member
  exact ensures.1 inner inside

/-- A loop with `n` rounds from `i` on. -/
def loop (body : Nat → σ → Traced ω σ) : Nat → Nat → σ → Traced ω σ
  | _, 0, state => pure state
  | i, n + 1, state => body i state >>= loop body (i + 1) n

/-- The rule of the loop: an invariant that every round keeps. -/
theorem ensures_loop {body : Nat → σ → Traced ω σ} {Inv : Nat → σ → Prop} {i n : Nat} {state : σ}
    (each : ∀ j state, i ≤ j → j < i + n → Inv j state → Ensures P (Inv (j + 1)) (body j state))
    (start : Inv i state) : Ensures P (Inv (i + n)) (loop body i n state) := by
  induction n generalizing i state with
  | zero => exact ensures_pure start
  | succ n ih =>
      refine (each i state (Nat.le_refl i) (by omega) start).bind fun next holds => ?_
      have rest : Ensures P (Inv (i + 1 + n)) (loop body (i + 1) n next) :=
        ih (fun j state low high => each j state (by omega) (by omega)) holds
      rwa [Nat.add_right_comm i 1 n] at rest

/-- The rule of a loop that starts at zero. -/
theorem ensures_loop_zero {body : Nat → σ → Traced ω σ} {n : Nat} {state : σ} (Inv : Nat → σ → Prop)
    (start : Inv 0 state) (each : ∀ i < n, ∀ state, Inv i state → Ensures P (Inv (i + 1)) (body i state)) :
    Ensures P (Inv n) (loop body 0 n state) := by
  have ran : Ensures P (Inv (0 + n)) (loop body 0 n state) :=
    ensures_loop (fun i state _ high holds => each i (by omega) state holds) start
  rwa [Nat.zero_add] at ran

theorem mem_log_bind {first : Traced ω α} {next : α → Traced ω β} {place : ω} :
    place ∈ (first >>= next).log ↔ place ∈ first.log ∨ place ∈ (next first.value).log := List.mem_append

/-- A place that one round accesses from every state is a place of the loop. -/
theorem mem_log_loop {body : Nat → σ → Traced ω σ} {place : ω} {i n j : Nat}
    (each : ∀ state, place ∈ (body j state).log) (low : i ≤ j) (high : j < i + n) (state : σ) :
    place ∈ (loop body i n state).log := by
  induction n generalizing i state with
  | zero => omega
  | succ n ih =>
      refine mem_log_bind.mpr ?_
      by_cases now : i = j
      · subst now
        exact Or.inl (each state)
      · exact Or.inr (ih (by omega) (by omega) _)

end Traced

end LinuxLikeOS
