import Mathlib.Data.List.Infix

/-!
# Runs of partial step functions

A step function answers `none` for an action that the state does not admit.
The rules below are what every result about whole runs is assembled from: an
invariant that may also speak about the history, and the exact condition under
which each step of a run, or each state it passes through, is good.
-/

namespace LinuxLikeOS.Transition

variable {σ α : Type*} (step : σ → α → Option σ)

/-- Take the actions in order; `none` as soon as one of them is not admitted. -/
def run : σ → List α → Option σ
  | state, [] => some state
  | state, action :: rest => (step state action).bind fun next => run next rest

@[simp] theorem run_nil (state : σ) : run step state [] = some state := rfl

@[simp] theorem run_cons (state : σ) (action : α) (rest : List α) :
    run step state (action :: rest) = (step state action).bind fun next => run step next rest :=
  rfl

theorem run_append (state : σ) (first second : List α) :
    run step state (first ++ second) =
        (run step state first).bind fun middle => run step middle second := by
  induction first generalizing state with
  | nil => rfl
  | cons action rest ih =>
      cases taken : step state action with
      | none => simp [taken]
      | some next => simp [taken, ih]

theorem run_concat {state final : σ} {past : List α} {action : α} :
    run step state (past ++ [action]) = some final ↔
      ∃ middle, run step state past = some middle ∧ step middle action = some final := by
  rw [run_append, Option.bind_eq_some_iff]
  simp

/-- A property of history and state that holds at the start and survives each
step holds at the end of every run. -/
theorem run_invariant {P : List α → σ → Prop} {start : σ} (initial : P [] start)
    (preserved : ∀ past state action next,
      P past state → step state action = some next → P (past ++ [action]) next)
    {actions : List α} {final : σ} (ran : run step start actions = some final) :
    P actions final := by
  induction actions using List.reverseRecOn generalizing final with
  | nil =>
      have same : start = final := Option.some.inj ran
      exact same ▸ initial
  | append_singleton past action ih =>
      obtain ⟨middle, before, taken⟩ := (run_concat step).mp ran
      exact preserved past middle action final (ih before) taken

/-- The history-free case. -/
theorem run_preserves {P : σ → Prop} {start : σ} (initial : P start)
    (preserved : ∀ state action next, P state → step state action = some next → P next)
    {actions : List α} {final : σ} (ran : run step start actions = some final) : P final :=
  run_invariant step (P := fun _ => P) initial
    (fun _ state action next holds taken => preserved state action next holds taken) ran

/-- `Q` holds of each action of the run in the state in which it is attempted. -/
def EachStep (Q : σ → α → Prop) : σ → List α → Prop
  | _, [] => True
  | state, action :: rest =>
      Q state action ∧ ∀ next, step state action = some next → EachStep Q next rest

@[simp] theorem eachStep_nil (Q : σ → α → Prop) (state : σ) : EachStep step Q state [] := trivial

@[simp] theorem eachStep_cons (Q : σ → α → Prop) (state : σ) (action : α) (rest : List α) :
    EachStep step Q state (action :: rest) ↔
      Q state action ∧ ∀ next, step state action = some next → EachStep step Q next rest :=
  Iff.rfl

instance decidableEachStep {Q : σ → α → Prop} [∀ state action, Decidable (Q state action)]
    (state : σ) (actions : List α) : Decidable (EachStep step Q state actions) :=
  match actions with
  | [] => isTrue trivial
  | action :: rest =>
      match taken : step state action with
      | none => decidable_of_iff (Q state action) (by simp [taken])
      | some next =>
          have : Decidable (EachStep step Q next rest) := decidableEachStep next rest
          decidable_of_iff (Q state action ∧ EachStep step Q next rest) (by simp [taken])

theorem EachStep.imp {Q R : σ → α → Prop} (weaken : ∀ state action, Q state action → R state action)
    {state : σ} {actions : List α} (holds : EachStep step Q state actions) : EachStep step R state actions := by
  induction actions generalizing state with
  | nil => trivial
  | cons action rest ih =>
      exact ⟨weaken state action holds.1, fun next taken => ih (holds.2 next taken)⟩

theorem EachStep.cons {Q : σ → α → Prop} {state next : σ} {action : α} {rest : List α}
    (taken : step state action = some next) (first : Q state action) (later : EachStep step Q next rest) :
    EachStep step Q state (action :: rest) := by
  refine ⟨first, fun other same => ?_⟩
  rw [Option.some.inj (same.symm.trans taken)]
  exact later

/-- What holds of each action of a run holds of the last one. -/
theorem eachStep_last {Q : σ → α → Prop} {start middle : σ} {past : List α} {action : α}
    (holds : EachStep step Q start (past ++ [action])) (ran : run step start past = some middle) :
    Q middle action := by
  induction past generalizing start with
  | nil =>
      have same : start = middle := Option.some.inj ran
      exact same ▸ holds.1
  | cons other past ih =>
      obtain ⟨next, taken, remaining⟩ := Option.bind_eq_some_iff.mp ran
      exact ih (holds.2 next taken) remaining

/-- A property that the steps under a condition preserve, in a run whose steps all meet it. -/
theorem run_preserves_of {P : σ → Prop} {Cond : σ → α → Prop} {start final : σ} (initial : P start)
    (preserved : ∀ state action next, P state → Cond state action → step state action = some next → P next)
    {actions : List α} (conditions : EachStep step Cond start actions)
    (ran : run step start actions = some final) : P final := by
  induction actions generalizing start with
  | nil =>
      obtain rfl := Option.some.inj ran
      exact initial
  | cons action rest ih =>
      obtain ⟨next, taken, remaining⟩ := Option.bind_eq_some_iff.mp ran
      obtain ⟨first, later⟩ := conditions
      exact ih (preserved start action next initial first taken) (later next taken) remaining

/-- Where `Good` and `Cond` agree in every state that meets the invariant, and the
steps that meet `Cond` keep the invariant, a run is good throughout exactly when each
of its steps meets the condition. -/
theorem eachStep_iff (Inv : σ → Prop) {Good Cond : σ → α → Prop}
    (exact : ∀ state action, Inv state → (Good state action ↔ Cond state action))
    (kept : ∀ state action next, Inv state → Cond state action →
      step state action = some next → Inv next)
    {start : σ} (initial : Inv start) (actions : List α) :
    EachStep step Good start actions ↔ EachStep step Cond start actions := by
  induction actions generalizing start with
  | nil => exact Iff.rfl
  | cons action rest ih =>
      rw [eachStep_cons, eachStep_cons, exact start action initial]
      refine and_congr_right fun cond => forall_congr' fun next => forall_congr' fun taken => ?_
      exact ih (kept start action next initial cond taken)

/-- `P` holds in every state the run passes through, its start included. -/
def Throughout (P : σ → Prop) (start : σ) (actions : List α) : Prop :=
  ∀ past, past <+: actions → ∀ state, run step start past = some state → P state

theorem throughout_cons {P : σ → Prop} {start : σ} {action : α} {rest : List α} :
    Throughout step P start (action :: rest) ↔
      P start ∧ ∀ next, step start action = some next → Throughout step P next rest := by
  constructor
  · intro holds
    refine ⟨holds [] (List.nil_prefix) start rfl, ?_⟩
    intro next taken past before state ran
    refine holds (action :: past) ((List.prefix_cons_inj action).mpr before) state ?_
    rw [run_cons, taken]
    exact ran
  · rintro ⟨first, later⟩ past before state ran
    cases past with
    | nil =>
        have same : start = state := Option.some.inj ran
        exact same ▸ first
    | cons other past =>
        obtain ⟨rfl, inner⟩ := List.cons_prefix_cons.mp before
        obtain ⟨next, taken, remaining⟩ := Option.bind_eq_some_iff.mp ran
        exact later next taken past inner state remaining

/-- A state property as a property of the steps that lead to the states. -/
theorem throughout_iff_eachStep {P : σ → Prop} {start : σ} (first : P start) (actions : List α) :
    Throughout step P start actions ↔
      EachStep step (fun state action => ∀ next, step state action = some next → P next)
        start actions := by
  induction actions generalizing start with
  | nil =>
      refine iff_of_true ?_ trivial
      intro past before state ran
      obtain rfl := List.prefix_nil.mp before
      have same : start = state := Option.some.inj ran
      exact same ▸ first
  | cons action rest ih =>
      rw [throughout_cons, eachStep_cons]
      constructor
      · rintro ⟨_, later⟩
        have reached : ∀ next, step start action = some next → P next := by
          intro next taken
          exact later next taken [] List.nil_prefix next rfl
        exact ⟨reached, fun next taken => (ih (reached next taken)).mp (later next taken)⟩
      · rintro ⟨reached, later⟩
        exact ⟨first, fun next taken => (ih (reached next taken)).mpr (later next taken)⟩

/-- In a run, where the steps that keep an invariant are those that meet a condition. -/
theorem throughout_iff_of_run {P : σ → Prop} {Cond : σ → α → Prop}
    (exact : ∀ state action next, P state → step state action = some next → (P next ↔ Cond state action))
    {start final : σ} (first : P start) {actions : List α} (ran : run step start actions = some final) :
    Throughout step P start actions ↔ EachStep step Cond start actions := by
  induction actions generalizing start with
  | nil => exact throughout_iff_eachStep step first []
  | cons action rest ih =>
      obtain ⟨next, taken, remaining⟩ := Option.bind_eq_some_iff.mp ran
      have same : ∀ other, step start action = some other → other = next :=
        fun other also => Option.some.inj (also.symm.trans taken)
      rw [throughout_cons, eachStep_cons]
      constructor
      · rintro ⟨_, later⟩
        have holds := later next taken
        have reached : P next := holds [] List.nil_prefix next rfl
        refine ⟨(exact start action next first taken).mp reached, fun other also => ?_⟩
        rw [same other also]
        exact (ih reached remaining).mp holds
      · rintro ⟨cond, later⟩
        have reached : P next := (exact start action next first taken).mpr cond
        refine ⟨first, fun other also => ?_⟩
        rw [same other also]
        exact (ih reached remaining).mpr (later next taken)

theorem EachStep.earlier {Q : σ → α → Prop} {start : σ} {past actions : List α} (before : past <+: actions)
    (holds : EachStep step Q start actions) : EachStep step Q start past := by
  induction past generalizing start actions with
  | nil => trivial
  | cons action past ih =>
      obtain ⟨rest, rfl⟩ := before
      exact ⟨holds.1, fun next taken => ih (List.prefix_append past rest) (holds.2 next taken)⟩

/-- Actions that always meet the condition may follow. -/
theorem EachStep.append_free {Q : σ → α → Prop} {later : List α} (free : ∀ action ∈ later, ∀ state, Q state action)
    {start : σ} {past : List α} (holds : EachStep step Q start past) : EachStep step Q start (past ++ later) := by
  induction past generalizing start with
  | nil =>
      induction later generalizing start with
      | nil => trivial
      | cons action rest ih =>
          refine ⟨free action List.mem_cons_self start, fun next _ => ih ?_ trivial⟩
          exact fun other member => free other (List.mem_cons_of_mem action member)
  | cons action past ih => exact ⟨holds.1, fun next taken => ih (holds.2 next taken)⟩

/-- Some actions are free: they always meet the condition, and after a step that does not meet it
they can lead to a bad state. Then each step of a run meets the condition exactly when the state
is good wherever free actions lead from any point of the run. -/
theorem eachStep_iff_free (Inv : σ → Prop) {P : σ → Prop} {Cond : σ → α → Prop} {Free : α → Prop}
    (sound : ∀ state, Inv state → P state)
    (kept : ∀ state action next, Inv state → Cond state action → step state action = some next → Inv next)
    (free : ∀ state action, Free action → Cond state action)
    (broken : ∀ state action, Inv state → ¬ Cond state action →
      ∃ later final, (∀ other ∈ later, Free other) ∧ run step state (action :: later) = some final ∧ ¬ P final)
    {start : σ} (initial : Inv start) (actions : List α) :
    EachStep step Cond start actions ↔
      ∀ past, past <+: actions → ∀ later, (∀ other ∈ later, Free other) →
        ∀ final, run step start (past ++ later) = some final → P final := by
  constructor
  · intro conditions past before later others final ran
    have all := (conditions.earlier step before).append_free step
      (fun action member state => free state action (others action member))
    exact sound final (run_preserves_of step initial kept all ran)
  · intro good
    induction actions generalizing start with
    | nil => trivial
    | cons action rest ih =>
        have first : Cond start action := by
          by_contra bad
          obtain ⟨later, final, others, ran, worse⟩ := broken start action initial bad
          exact worse (good [action] (List.prefix_append [action] rest) later others final ran)
        refine ⟨first, fun next taken => ih (kept start action next initial first taken) ?_⟩
        intro past before later others final ran
        refine good (action :: past) ((List.prefix_cons_inj action).mpr before) later others final ?_
        rw [List.cons_append, run_cons, taken]
        exact ran

/-! ## Two runs -/

section

variable {τ : Type*} (alone : τ → α → Option τ) (mine : σ → α → Bool)

/-- The actions of a run that are somebody's own in the state in which they are taken. -/
def ownActions : σ → List α → List α
  | _, [] => []
  | state, action :: rest =>
      match step state action with
      | none => []
      | some next => if mine state action then action :: ownActions next rest else ownActions next rest

/-- A relation that one's own actions keep on both sides, and those of the others on the side
where they are taken, relates a run with the run of one's own actions alone. -/
theorem run_ownActions (Related : σ → τ → Prop) {Good : σ → α → Prop}
    (own : ∀ state other action next, Related state other → Good state action → mine state action = true →
      step state action = some next → ∃ after, alone other action = some after ∧ Related next after)
    (others : ∀ state other action next, Related state other → mine state action = false →
      step state action = some next → Related next other)
    {start final : σ} {beside : τ} (related : Related start beside) {actions : List α}
    (good : EachStep step Good start actions) (ran : run step start actions = some final) :
    ∃ left, run alone beside (ownActions step mine start actions) = some left ∧ Related final left := by
  induction actions generalizing start beside with
  | nil =>
      obtain rfl := Option.some.inj ran
      exact ⟨beside, rfl, related⟩
  | cons action rest ih =>
      obtain ⟨next, taken, remaining⟩ := Option.bind_eq_some_iff.mp ran
      obtain ⟨first, later⟩ := good
      simp only [ownActions, taken]
      cases whose : mine start action with
      | false =>
          have kept := others start beside action next related whose taken
          exact ih kept (later next taken) remaining
      | true =>
          obtain ⟨after, answered, kept⟩ := own start beside action next related first whose taken
          obtain ⟨left, reached, final⟩ := ih kept (later next taken) remaining
          refine ⟨left, ?_, final⟩
          rw [if_pos rfl, run_cons, answered]
          exact reached

/-- A run seen through a map that the steps respect. -/
theorem run_map (view : σ → τ)
    (respects : ∀ state action, alone (view state) action = (step state action).map view)
    (start : σ) (actions : List α) :
    run alone (view start) actions = (run step start actions).map view := by
  induction actions generalizing start with
  | nil => rfl
  | cons action rest ih =>
      rw [run_cons, run_cons, respects]
      cases step start action with
      | none => rfl
      | some next => exact ih next

theorem ownActions_map (view : σ → τ) (whose : τ → α → Bool)
    (respects : ∀ state action, alone (view state) action = (step state action).map view)
    (start : σ) (actions : List α) :
    ownActions alone whose (view start) actions =
      ownActions step (fun state => whose (view state)) start actions := by
  induction actions generalizing start with
  | nil => rfl
  | cons action rest ih =>
      simp only [ownActions, respects]
      cases step start action with
      | none => rfl
      | some next => simp only [Option.map_some, ih]

end

/-- What a step is to bring about is said of its outcome, where that is known. -/
theorem outcome_iff {α β : Type*} {outcome : Option (α × β)} {first : α} {second : β} {P : α → β → Prop}
    (known : outcome = some (first, second)) :
    (∃ left right, outcome = some (left, right) ∧ P left right) ↔ P first second := by
  constructor
  · rintro ⟨left, right, same, holds⟩
    obtain ⟨rfl, rfl⟩ := Prod.mk.inj (Option.some.inj (known.symm.trans same))
    exact holds
  · exact fun holds => ⟨first, second, known, holds⟩

end LinuxLikeOS.Transition
