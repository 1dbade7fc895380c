import LinuxLikeOS.Traced

/-!
# Loops that need not end

A computation that logs the places it accesses and may be cut off: `none` where the fuel of a loop
has run out. `Returns` is the total triple: the computation ends, and both its value and its places
are as stated.
-/

namespace LinuxLikeOS

abbrev Fueled (ω : Type) := OptionT (Traced ω)

namespace Fueled

variable {ω ω' α β σ : Type}

def access (place : ω) : Fueled ω Unit := OptionT.lift (Traced.access place)

/-- A computation that has none of its places in common with the rest. -/
def tagged (name : ω → ω') (run : Fueled ω α) : Fueled ω' α := OptionT.mk (Traced.tagged name run.run)

/-- `while (guard) body`. -/
def whileLoop (guard : σ → Fueled ω Bool) (body : σ → Fueled ω σ) : Nat → σ → Fueled ω σ
  | 0, _ => OptionT.mk (pure none)
  | fuel + 1, state => do
      if ← guard state then body state >>= whileLoop guard body fuel else pure state

/-- So many rounds of an endless loop. -/
def repeated (body : σ → Fueled ω σ) : Nat → σ → Fueled ω σ
  | 0, state => pure state
  | rounds + 1, state => body state >>= repeated body rounds

def Returns (P : ω → Prop) (Q : α → Prop) (run : Fueled ω α) : Prop :=
  Traced.Ensures P (fun value => ∃ result, value = some result ∧ Q result) run.run

theorem run_bind (first : Fueled ω α) (next : α → Fueled ω β) :
    (first >>= next).run = first.run >>= fun value => match value with
      | some result => (next result).run
      | none => pure none :=
  rfl

variable {P : ω → Prop} {Q : α → Prop} {R : β → Prop}

theorem returns_pure {value : α} (holds : Q value) : Returns P Q (pure value) :=
  ⟨nofun, value, rfl, holds⟩

theorem Returns.bind {first : Fueled ω α} {next : α → Fueled ω β} (before : Returns P Q first)
    (after : ∀ value, Q value → Returns P R (next value)) : Returns P R (first >>= next) := by
  unfold Returns
  rw [run_bind]
  refine Traced.Ensures.bind before ?_
  rintro _ ⟨result, rfl, holds⟩
  exact after result holds

theorem returns_access_bind {place : ω} {next : Unit → Fueled ω β} (good : P place)
    (ran : Returns P R (next ())) : Returns P R (access place >>= next) := by
  refine Returns.bind (Q := fun _ => True) ⟨fun other member => ?_, (), rfl, trivial⟩ fun _ _ => ran
  have same : other = place := List.mem_singleton.mp member
  exact same ▸ good

/-- What is so of a computation is so of its rest, from the value of its first part. -/
theorem Returns.rest {first : Fueled ω α} {next : α → Fueled ω β} {value : α} (whole : Returns P R (first >>= next))
    (ended : first.run.value = some value) : Returns P R (next value) := by
  obtain ⟨places, result, ends, holds⟩ := whole
  rw [run_bind, Traced.value_bind, ended] at ends
  refine ⟨fun place member => places place ?_, result, ends, holds⟩
  rw [run_bind, Traced.mem_log_bind, ended]
  exact Or.inr member

theorem Returns.imp {run : Fueled ω α} {S : α → Prop} (returns : Returns P Q run)
    (weaken : ∀ value, Q value → S value) : Returns P S run := by
  obtain ⟨places, result, ends, holds⟩ := returns
  exact ⟨places, result, ends, weaken result holds⟩

theorem Returns.and {run : Fueled ω α} {S : α → Prop} (first : Returns P Q run) (second : Returns P S run) :
    Returns P (fun result => Q result ∧ S result) run := by
  obtain ⟨places, result, ends, holds⟩ := first
  obtain ⟨-, other, ends', also⟩ := second
  obtain rfl : result = other := Option.some.inj (ends.symm.trans ends')
  exact ⟨places, result, ends, holds, also⟩

theorem Returns.mono {run : Fueled ω α} {S : ω → Prop} (returns : Returns P Q run)
    (weaken : ∀ place, P place → S place) : Returns S Q run :=
  Traced.Ensures.mono returns weaken

theorem Returns.tagged {name : ω → ω'} {S : ω' → Prop} {run : Fueled ω α}
    (returns : Returns (fun place => S (name place)) Q run) : Returns S Q (run.tagged name) :=
  Traced.Ensures.tagged returns

/-- The rule of the loop: an invariant, and a number that every round makes smaller. -/
theorem returns_while {guard : σ → Fueled ω Bool} {body : σ → Fueled ω σ} (Inv : σ → Prop) {End : σ → Prop}
    (variant : σ → Nat)
    (each : ∀ state, Inv state → Returns P (fun goes =>
      (goes = true → Returns P (fun next => Inv next ∧ variant next < variant state) (body state)) ∧
        (goes = false → End state)) (guard state))
    {state : σ} (start : Inv state) {fuel : Nat} (enough : variant state < fuel) :
    Returns P End (whileLoop guard body fuel state) := by
  induction fuel generalizing state with
  | zero => exact absurd enough (Nat.not_lt_zero _)
  | succ fuel ih =>
      refine (each state start).bind fun goes ⟨continues, stops⟩ => ?_
      cases goes with
      | true =>
          refine (continues rfl).bind fun next ⟨holds, less⟩ => ih holds ?_
          omega
      | false => exact returns_pure (stops rfl)

/-- The rule for a guard that accesses nothing. -/
theorem returns_while_pure (guard : σ → Bool) {body : σ → Fueled ω σ} (Inv End : σ → Prop) (variant : σ → Nat)
    (goes : ∀ state, Inv state → guard state = true →
      Returns P (fun next => Inv next ∧ variant next < variant state) (body state))
    (stops : ∀ state, Inv state → guard state = false → End state)
    {state : σ} (start : Inv state) {fuel : Nat} (enough : variant state < fuel) :
    Returns P End (whileLoop (fun state => pure (guard state)) body fuel state) :=
  returns_while Inv variant (fun state holds => returns_pure ⟨goes state holds, stops state holds⟩) start enough

/-- The rule of the endless loop: what holds before a round, by its number. -/
theorem returns_repeated {body : σ → Fueled ω σ} (Inv : Nat → σ → Prop)
    (each : ∀ k state, Inv k state → Returns P (Inv (k + 1)) (body state)) {k : Nat} {state : σ} (start : Inv k state)
    (rounds : Nat) : Returns P (Inv (k + rounds)) (repeated body rounds state) := by
  induction rounds generalizing k state with
  | zero => exact returns_pure start
  | succ rounds ih =>
      refine (each k state start).bind fun next holds => ?_
      rw [Nat.add_comm rounds, ← Nat.add_assoc]
      exact ih holds

theorem mem_log_bind {first : Fueled ω α} {next : α → Fueled ω β} {place : ω} {value : α}
    (returned : first.run.value = some value) :
    place ∈ (first >>= next).run.log ↔ place ∈ first.run.log ∨ place ∈ (next value).run.log := by
  rw [run_bind, Traced.mem_log_bind, returned]

theorem mem_log_bind_first {first : Fueled ω α} {next : α → Fueled ω β} {place : ω}
    (member : place ∈ first.run.log) : place ∈ (first >>= next).run.log := by
  rw [run_bind, Traced.mem_log_bind]
  exact Or.inl member

section

variable {guard : σ → Fueled ω Bool} {body : σ → Fueled ω σ} {state next : σ} {fuel : Nat} {place : ω}

/-- What the guard accesses, and what the rounds after this one do. -/
theorem mem_log_guard (member : place ∈ (guard state).run.log) :
    place ∈ (whileLoop guard body (fuel + 1) state).run.log :=
  mem_log_bind_first member

theorem mem_log_later (goes : (guard state).run.value = some true) (stepped : (body state).run.value = some next)
    (member : place ∈ (whileLoop guard body fuel next).run.log) :
    place ∈ (whileLoop guard body (fuel + 1) state).run.log := by
  rw [whileLoop, mem_log_bind goes]
  refine Or.inr ?_
  rw [if_pos rfl, mem_log_bind stepped]
  exact Or.inr member

end

end Fueled

end LinuxLikeOS
