import LinuxLikeOS.RtcRate
import LinuxLikeOS.Transition

/-!
# Waiting for the RTC (`rtc.c`)

`rtc_read` waits for `rtc_interrupt_received` and then clears it. The flag is set by every
interrupt, whether or not anybody waits, and nobody clears it when a read begins. Interrupts,
and calls of the driver by any number of processes, are interleaved at the test of the flag and
at its assignment.
-/

namespace LinuxLikeOS.RtcRead

open Function Traced RtcRate Transition

/-- The statics and devices of the driver. -/
structure Clock where
  interruptReceived : Bool
  cmos : Cmos
  /-- The interrupt mask at `PIC2_DATA`. -/
  slaveMask : UInt8

/-- `send_eoi(RTC_IRQ)`: line 0 of the slave, then line 2 of the master. -/
def sendEoi : Traced Access Unit := do
  access (.outb (0x60 ||| 0) 0xA0)
  access (.outb (0x60 ||| 2) 0x20)

/-- `enable_irq(RTC_IRQ)`. -/
def enableIrq (clock : Clock) : Traced Access Clock := do
  access (.inb 0xA1)
  let value := clock.slaveMask &&& ~~~((1 : UInt8) <<< 0)
  access (.outb value 0xA1)
  return { clock with slaveMask := value }

def rtcIrqHandler (clock : Clock) : Traced Access Clock := do
  access .cli
  let cmos ← select 0x0C clock.cmos
  let (_, cmos) ← load cmos
  sendEoi
  access .sti
  return { clock with cmos := cmos, interruptReceived := true }

def rtcOpen (filename : Option CString) (clock : Clock) : Traced Access (Int32 × Clock) :=
  match filename with
  | none => pure (-1, clock)
  | some _ => do
      let cmos ← select 0x8A clock.cmos
      let (prev, cmos) ← load cmos
      let cmos ← select 0x8A cmos
      let cmos ← store ((prev &&& 0xF0) ||| 0x0F) cmos
      let clock ← enableIrq { clock with cmos := cmos }
      return (0, clock)

/-- Where a process is in `rtc_read`, with the number of interrupts that had been handled when the
call began and when its test found the flag set. -/
inductive Phase where
  | idle
  | waiting (began : Nat)
  | leaving (began saw : Nat)

/-- A call that has returned. The flag it found was set by interrupt number `saw`. -/
structure Returned where
  began : Nat
  saw : Nat
  returned : Nat

structure State (ι : Type*) where
  clock : Clock
  /-- How many interrupts have been handled. -/
  ticks : Nat
  call : ι → Phase
  /-- The calls that have returned, the latest at the end. -/
  done : List Returned

inductive Event (ι : Type*) where
  | interrupt
  | open (filename : Option CString)
  | write (buf : Option UInt32) (nbytes : Int32)
  | begin (who : ι)
  /-- `while(!rtc_interrupt_received);`, one test. -/
  | look (who : ι)
  /-- `rtc_interrupt_received = 0; return 0;` -/
  | finish (who : ι)

variable {ι : Type*}

/-- Before the first interrupt and the first call. -/
def start (cmos : Cmos) (slaveMask : UInt8) : State ι := ⟨⟨false, cmos, slaveMask⟩, 0, fun _ => .idle, []⟩

def State.step [DecidableEq ι] (state : State ι) : Event ι → Option (State ι)
  | .interrupt => some { state with clock := (rtcIrqHandler state.clock).value, ticks := state.ticks + 1 }
  | .open filename => some { state with clock := (rtcOpen filename state.clock).value.2 }
  | .write buf nbytes =>
      some { state with
        clock := { state.clock with cmos := (rtcWrite buf nbytes state.clock.cmos).value.2 } }
  | .begin who =>
      match state.call who with
      | .idle => some { state with call := update state.call who (.waiting state.ticks) }
      | _ => none
  | .look who =>
      match state.call who with
      | .waiting began =>
          if state.clock.interruptReceived then
            some { state with call := update state.call who (.leaving began state.ticks) }
          else some state
      | _ => none
  | .finish who =>
      match state.call who with
      | .leaving began saw =>
          some { state with
            clock := { state.clock with interruptReceived := false }
            call := update state.call who .idle
            done := state.done ++ [⟨began, saw, state.ticks⟩] }
      | _ => none

/-- Every call has waited for an interrupt of its own: one was handled after the call began and
before it returned, no two calls found the flag of the same interrupt, and `n` calls one after
the other span `n` interrupts that were handled after the first of them began. -/
structure Fresh (state : State ι) : Prop where
  later : ∀ read ∈ state.done, read.began < read.returned
  own : state.done.Pairwise fun first second => first.saw ≠ second.saw
  span : ∀ first calls, (first :: calls).Sublist state.done →
    ∀ last ∈ (first :: calls).getLast?, first.began + (calls.length + 1) ≤ last.returned

/-- A read is to begin with the flag clear and no other read under way. -/
def Prompt (state : State ι) : Event ι → Prop
  | .begin who =>
      state.call who = .idle → state.clock.interruptReceived = false ∧ ∀ other, state.call other = .idle
  | _ => True

/-- Everything but a new read. -/
def Goes : Event ι → Prop
  | .begin _ => False
  | _ => True

/-! ## One read at a time -/

/-- What is known of a read that is under way. -/
def Phase.Sound (state : State ι) : Phase → Prop
  | .idle => True
  | .waiting began =>
      began ≤ state.ticks ∧ (state.clock.interruptReceived = true → began < state.ticks) ∧
        ∀ read ∈ state.done, read.returned ≤ began
  | .leaving began saw =>
      state.clock.interruptReceived = true ∧ began < saw ∧ saw ≤ state.ticks ∧
        ∀ read ∈ state.done, read.returned ≤ began

/-- At most one read is under way, and the reads that have returned did so one after the other. -/
structure Orderly (state : State ι) : Prop where
  single : ∀ who other, state.call who ≠ .idle → state.call other ≠ .idle → who = other
  sound : ∀ who, (state.call who).Sound state
  past : ∀ read ∈ state.done, read.began < read.saw ∧ read.saw ≤ read.returned ∧ read.returned ≤ state.ticks
  ordered : state.done.Pairwise fun first second => first.returned ≤ second.began

theorem orderly_start (cmos : Cmos) (slaveMask : UInt8) : Orderly (start cmos slaveMask : State ι) where
  single := fun _ _ busy => absurd rfl busy
  sound := fun _ => trivial
  past := nofun
  ordered := List.Pairwise.nil

/-- Reads one after the other span as many interrupts. -/
theorem span_of_ordered {first : Returned} {calls : List Returned}
    (waited : ∀ read ∈ first :: calls, read.began < read.returned)
    (ordered : (first :: calls).Pairwise fun first second => first.returned ≤ second.began)
    {last : Returned} (ends : last ∈ (first :: calls).getLast?) :
    first.began + (calls.length + 1) ≤ last.returned := by
  induction calls generalizing first with
  | nil =>
      obtain rfl : first = last := by simpa using ends
      exact waited first List.mem_cons_self
  | cons second rest ih =>
      rw [List.getLast?_cons_cons] at ends
      have here := waited first List.mem_cons_self
      obtain ⟨after, remaining⟩ := List.pairwise_cons.mp ordered
      have next := after second List.mem_cons_self
      have all := ih (fun read member => waited read (List.mem_cons_of_mem first member)) remaining ends
      rw [List.length_cons]
      omega

theorem Orderly.waited {state : State ι} (orderly : Orderly state) :
    ∀ read ∈ state.done, read.began < read.returned := by
  intro read member
  obtain ⟨before, within, _⟩ := orderly.past read member
  exact Nat.lt_of_lt_of_le before within

theorem Orderly.fresh {state : State ι} (orderly : Orderly state) : Fresh state where
  later := orderly.waited
  own := by
    refine List.Pairwise.imp_of_mem ?_ orderly.ordered
    intro first second member also after same
    obtain ⟨_, within, _⟩ := orderly.past first member
    obtain ⟨before, _, _⟩ := orderly.past second also
    omega
  span := by
    intro first calls part last ends
    exact span_of_ordered (fun read member => orderly.waited read (part.subset member))
      (orderly.ordered.sublist part) ends

theorem Orderly.others_idle {state : State ι} (orderly : Orderly state) {who : ι} (busy : state.call who ≠ .idle)
    {other : ι} (apart : other ≠ who) : state.call other = .idle := by
  by_contra also
  exact apart (orderly.single other who also busy)

/-- The driver's other functions leave the flag as it is. -/
theorem Orderly.of_clock {state : State ι} (orderly : Orderly state) {clock : Clock}
    (flag : clock.interruptReceived = state.clock.interruptReceived) :
    Orderly { state with clock := clock } where
  single := orderly.single
  sound := by
    intro who
    have sound := orderly.sound who
    simp only []
    cases phase : state.call who with
    | idle => trivial
    | waiting began =>
        rw [phase] at sound
        exact ⟨sound.1, fun set => sound.2.1 (flag ▸ set), sound.2.2⟩
    | leaving began saw =>
        rw [phase] at sound
        exact ⟨flag ▸ sound.1, sound.2⟩
  past := orderly.past
  ordered := orderly.ordered

theorem Orderly.interrupt {state : State ι} (orderly : Orderly state) :
    Orderly { state with clock := (rtcIrqHandler state.clock).value, ticks := state.ticks + 1 } where
  single := orderly.single
  sound := by
    intro who
    have sound := orderly.sound who
    simp only []
    cases phase : state.call who with
    | idle => trivial
    | waiting began =>
        rw [phase] at sound
        exact ⟨Nat.le_succ_of_le sound.1, fun _ => Nat.lt_succ_of_le sound.1, sound.2.2⟩
    | leaving began saw =>
        rw [phase] at sound
        exact ⟨rfl, sound.2.1, Nat.le_succ_of_le sound.2.2.1, sound.2.2.2⟩
  past := by
    intro read member
    obtain ⟨before, within, by_now⟩ := orderly.past read member
    exact ⟨before, within, Nat.le_succ_of_le by_now⟩
  ordered := orderly.ordered

section

variable [DecidableEq ι]

/-- One reader goes on to its next phase while all others are idle. -/
theorem Orderly.advance {state : State ι} (orderly : Orderly state) {who : ι}
    (alone : ∀ other, other ≠ who → state.call other = .idle) {phase : Phase}
    (sound : phase.Sound { state with call := update state.call who phase }) :
    Orderly { state with call := update state.call who phase } where
  single := by
    have only : ∀ other, update state.call who phase other ≠ .idle → other = who := by
      intro other busy
      by_contra apart
      rw [update_of_ne apart] at busy
      exact busy (alone other apart)
    intro first second busy also
    rw [only first busy, only second also]
  sound := by
    intro other
    simp only []
    rcases eq_or_ne other who with rfl | apart
    · rw [update_self]
      exact sound
    · rw [update_of_ne apart, alone other apart]
      trivial
  past := orderly.past
  ordered := orderly.ordered

theorem Orderly.finish {state : State ι} (orderly : Orderly state) {who : ι} {began saw : Nat}
    (leaving : state.call who = .leaving began saw) :
    Orderly { state with
      clock := { state.clock with interruptReceived := false }
      call := update state.call who .idle
      done := state.done ++ [⟨began, saw, state.ticks⟩] } := by
  have busy : state.call who ≠ .idle := by
    rw [leaving]
    nofun
  have sound := orderly.sound who
  rw [leaving] at sound
  obtain ⟨_, before, within, after⟩ := sound
  have idle : ∀ other, update state.call who .idle other = .idle := by
    intro other
    rcases eq_or_ne other who with rfl | apart
    · rw [update_self]
    · rw [update_of_ne apart]
      exact orderly.others_idle busy apart
  refine ⟨fun first _ also => absurd (idle first) also, fun other => ?_, ?_, ?_⟩
  · simp only [idle]
    trivial
  · intro read member
    rcases List.mem_append.mp member with earlier | last
    · exact orderly.past read earlier
    · rw [List.mem_singleton.mp last]
      exact ⟨before, within, Nat.le_refl _⟩
  · refine List.pairwise_append.mpr ⟨orderly.ordered, List.pairwise_singleton _ _, ?_⟩
    intro first earlier second last
    rw [List.mem_singleton.mp last]
    exact after first earlier

/-- A step keeps the order, as long as no read begins too early. -/
theorem Orderly.step {state next : State ι} (orderly : Orderly state) {event : Event ι}
    (prompt : Prompt state event) (taken : state.step event = some next) : Orderly next := by
  cases event with
  | interrupt =>
      obtain rfl := Option.some.inj taken
      exact orderly.interrupt
  | «open» filename =>
      obtain rfl := Option.some.inj taken
      refine orderly.of_clock ?_
      cases filename <;> rfl
  | write buf nbytes =>
      obtain rfl := Option.some.inj taken
      exact orderly.of_clock rfl
  | begin who =>
      simp only [State.step] at taken
      split at taken
      · rename_i idle
        obtain rfl := Option.some.inj taken
        obtain ⟨clear, alone⟩ := prompt idle
        refine orderly.advance (fun other _ => alone other) ⟨Nat.le_refl _, fun set => ?_, ?_⟩
        · exact absurd (clear.symm.trans set) Bool.false_ne_true
        · exact fun read member => (orderly.past read member).2.2
      · cases taken
  | look who =>
      simp only [State.step] at taken
      split at taken
      · rename_i began waiting
        have sound := orderly.sound who
        rw [waiting] at sound
        split at taken
        · rename_i set
          obtain rfl := Option.some.inj taken
          have busy : state.call who ≠ .idle := by
            rw [waiting]
            nofun
          refine orderly.advance (fun other apart => orderly.others_idle busy apart) ?_
          exact ⟨set, sound.2.1 set, Nat.le_refl _, sound.2.2⟩
        · obtain rfl := Option.some.inj taken
          exact orderly
      · cases taken
  | finish who =>
      simp only [State.step] at taken
      split at taken
      · rename_i began saw leaving
        obtain rfl := Option.some.inj taken
        exact orderly.finish leaving
      · cases taken

/-! ## A read that begins too early -/

/-- One reader is in its next phase, all others where they were. -/
structure Advanced (state next : State ι) (who : ι) (phase : Phase) : Prop where
  here : next.call who = phase
  others : ∀ other, other ≠ who → next.call other = state.call other
  ticks : next.ticks = state.ticks

theorem step_begin {state : State ι} {who : ι} (idle : state.call who = .idle) :
    ∃ next, state.step (.begin who) = some next ∧ Advanced state next who (.waiting state.ticks) ∧
      next.clock = state.clock ∧ next.done = state.done := by
  refine ⟨{ state with call := update state.call who (.waiting state.ticks) }, ?_, ⟨?_, ?_, rfl⟩, rfl, rfl⟩
  · simp only [State.step, idle]
  · exact update_self ..
  · exact fun other apart => update_of_ne apart ..

theorem step_look {state : State ι} {who : ι} {began : Nat} (waiting : state.call who = .waiting began)
    (set : state.clock.interruptReceived = true) :
    ∃ next, state.step (.look who) = some next ∧ Advanced state next who (.leaving began state.ticks) ∧
      next.clock = state.clock ∧ next.done = state.done := by
  refine ⟨{ state with call := update state.call who (.leaving began state.ticks) }, ?_, ⟨?_, ?_, rfl⟩, rfl, rfl⟩
  · simp only [State.step, waiting, set, if_true]
  · exact update_self ..
  · exact fun other apart => update_of_ne apart ..

theorem step_finish {state : State ι} {who : ι} {began saw : Nat} (leaving : state.call who = .leaving began saw) :
    ∃ next, state.step (.finish who) = some next ∧ Advanced state next who .idle ∧
      next.done = state.done ++ [⟨began, saw, state.ticks⟩] := by
  refine ⟨{ state with
    clock := { state.clock with interruptReceived := false }
    call := update state.call who .idle
    done := state.done ++ [⟨began, saw, state.ticks⟩] }, ?_, ⟨?_, ?_, rfl⟩, rfl⟩
  · simp only [State.step, leaving]
  · exact update_self ..
  · exact fun other apart => update_of_ne apart ..

/-- With the flag set, a read can return at once. -/
theorem stale_read {state : State ι} {who : ι} (idle : state.call who = .idle)
    (set : state.clock.interruptReceived = true) :
    ∃ final, run State.step state [.begin who, .look who, .finish who] = some final ∧ ¬ Fresh final := by
  obtain ⟨begun, first, waits, clock, _⟩ := step_begin idle
  obtain ⟨looked, second, leaves, _, _⟩ := step_look waits.here (clock ▸ set)
  obtain ⟨final, third, _, done⟩ := step_finish leaves.here
  refine ⟨final, ?_, fun fresh => ?_⟩
  · simp only [run_cons, first, second, third, Option.bind_some, run_nil]
  · have now : looked.ticks = state.ticks := leaves.ticks.trans waits.ticks
    have last := fresh.later ⟨state.ticks, begun.ticks, looked.ticks⟩ (by
      rw [done]
      exact List.mem_append_right _ (List.mem_singleton_self _))
    exact absurd now (Nat.ne_of_gt last)

/-- While another read waits, both can return on the next interrupt. -/
theorem shared_interrupt {state : State ι} {who other : ι} (idle : state.call who = .idle) {began : Nat}
    (waiting : state.call other = .waiting began) :
    ∃ final, run State.step state
      [.begin who, .interrupt, .look other, .look who, .finish other, .finish who] = some final ∧ ¬ Fresh final := by
  have apart : other ≠ who := by
    rintro rfl
    rw [idle] at waiting
    cases waiting
  obtain ⟨begun, first, waits, _, _⟩ := step_begin idle
  obtain ⟨ticked, second, calls, flag⟩ : ∃ next, begun.step .interrupt = some next ∧ next.call = begun.call ∧
      next.clock.interruptReceived = true := ⟨_, rfl, rfl, rfl⟩
  have still : ticked.call other = .waiting began := by
    rw [calls, waits.others other apart]
    exact waiting
  obtain ⟨passed, third, leaves, clock, _⟩ := step_look still flag
  have also : passed.call who = .waiting state.ticks := by
    rw [leaves.others who apart.symm, calls]
    exact waits.here
  obtain ⟨both, fourth, leavesToo, _, _⟩ := step_look also (clock ▸ flag)
  have before : both.call other = .leaving began ticked.ticks := by
    rw [leavesToo.others other apart]
    exact leaves.here
  obtain ⟨one, fifth, gone, done⟩ := step_finish before
  have after : one.call who = .leaving state.ticks passed.ticks := by
    rw [gone.others who apart.symm]
    exact leavesToo.here
  obtain ⟨final, sixth, _, all⟩ := step_finish after
  refine ⟨final, ?_, fun fresh => ?_⟩
  · simp only [run_cons, first, second, third, fourth, fifth, sixth, Option.bind_some, run_nil]
  · have own := fresh.own
    rw [all, done, List.append_assoc] at own
    have pair := (List.pairwise_append.mp own).2.1
    exact (List.pairwise_cons.mp pair).1 _ (List.mem_singleton_self _) leaves.ticks.symm

/-- After a read that has begun too early, the calls under way can go wrong. -/
theorem Orderly.broken {state : State ι} (orderly : Orderly state) {event : Event ι} (early : ¬ Prompt state event) :
    ∃ later final, (∀ other ∈ later, Goes other) ∧ run State.step state (event :: later) = some final ∧
      ¬ Fresh final := by
  cases event with
  | begin who =>
      obtain ⟨idle, busy⟩ := Classical.not_imp.mp early
      cases flag : state.clock.interruptReceived with
      | true =>
          obtain ⟨final, ran, stale⟩ := stale_read idle flag
          refine ⟨[.look who, .finish who], final, ?_, ran, stale⟩
          simp [Goes]
      | false =>
          obtain ⟨other, occupied⟩ := not_forall.mp fun alone => busy ⟨flag, alone⟩
          have sound := orderly.sound other
          cases phase : state.call other with
          | idle => exact absurd phase occupied
          | waiting began =>
              obtain ⟨final, ran, shared⟩ := shared_interrupt idle phase
              refine ⟨[.interrupt, .look other, .look who, .finish other, .finish who], final, ?_, ran, shared⟩
              simp [Goes]
          | leaving began saw =>
              rw [phase] at sound
              exact absurd (flag.symm.trans sound.1) Bool.false_ne_true
  | interrupt => exact absurd trivial early
  | «open» filename => exact absurd trivial early
  | write buf nbytes => exact absurd trivial early
  | look who => exact absurd trivial early
  | finish who => exact absurd trivial early

/-- Every read of a run begins with the flag clear and no other read under way exactly if, at any
point of the run, the calls begun so far wait for interrupts of their own, whatever comes then. -/
theorem reads_are_fresh_iff (cmos : Cmos) (slaveMask : UInt8) (events : List (Event ι)) :
    (∀ past, past <+: events → ∀ later, (∀ event ∈ later, Goes event) →
      ∀ final, run State.step (start cmos slaveMask) (past ++ later) = some final → Fresh final) ↔
      EachStep State.step Prompt (start cmos slaveMask) events := by
  refine (eachStep_iff_free State.step Orderly (fun _ orderly => orderly.fresh) ?_ ?_ ?_
    (orderly_start cmos slaveMask) events).symm
  · exact fun _ _ _ orderly prompt taken => orderly.step prompt taken
  · intro state event goes
    cases event with
    | begin who => exact absurd goes id
    | interrupt | «open» | write | look | finish => trivial
  · exact fun _ _ orderly early => orderly.broken early

end

/-- An interrupt before the call lets the call return: it has not waited. -/
theorem stale_interrupt_returns :
    ¬ ∀ (events : List (Event Unit)) (final : State Unit),
      run State.step (start ⟨0, fun _ => 0⟩ 0) events = some final → Fresh final := by
  intro fresh
  have done := fresh [.interrupt, .begin (), .look (), .finish ()] _ rfl
  exact absurd (done.later ⟨1, 1, 1⟩ (List.mem_singleton_self _)) (by decide)

end LinuxLikeOS.RtcRead
