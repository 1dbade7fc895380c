import LinuxLikeOS.Bytes
import Mathlib.Data.List.Basic

/-!
# A small 32-bit machine

The registers, flags and instructions that string routines in assembly are made of. A program is a
list of lines, with the labels among them. Memory is addressed by a segment selector and an offset.
A repeated string instruction is one step for each repetition.
-/

namespace LinuxLikeOS.Machine

open Function

inductive Register where
  | eax
  | ecx
  | edx
  | esi
  | edi

inductive Segment where
  | ds
  | es

inductive Instruction (Label : Type) where
  | label (name : Label)
  | testl (r : Register)
  | testlImm (imm : UInt32) (r : Register)
  | jz (target : Label)
  | jmp (target : Label)
  | storeAl (base : Register)
  | loadAl (base : Register)
  | movwToDx (segment : Segment)
  | movwFromDx (segment : Segment)
  | movl (src dest : Register)
  | addl (imm : UInt32) (r : Register)
  | subl (imm : UInt32) (r : Register)
  | andl (imm : UInt32) (r : Register)
  | shrl (imm : UInt32) (r : Register)
  | cld
  | repStosl
  | repMovsl

structure State where
  eax : UInt32
  ecx : UInt32
  edx : UInt32
  esi : UInt32
  edi : UInt32
  ds : UInt16
  es : UInt16
  zf : Bool
  df : Bool
  memory : UInt16 → Memory
  pc : Nat

namespace State

def get (state : State) : Register → UInt32
  | .eax => state.eax
  | .ecx => state.ecx
  | .edx => state.edx
  | .esi => state.esi
  | .edi => state.edi

def set (state : State) (value : UInt32) : Register → State
  | .eax => { state with eax := value }
  | .ecx => { state with ecx := value }
  | .edx => { state with edx := value }
  | .esi => { state with esi := value }
  | .edi => { state with edi := value }

def selector (state : State) : Segment → UInt16
  | .ds => state.ds
  | .es => state.es

def setSelector (state : State) (value : UInt16) : Segment → State
  | .ds => { state with ds := value }
  | .es => { state with es := value }

/-- The lowest byte of `eax`. -/
def al (state : State) : UInt8 := UInt8.ofNat state.eax.toNat

def load (state : State) (segment : UInt16) (offset : UInt32) : UInt8 := state.memory segment offset.toNat

def store (state : State) (segment : UInt16) (offset : UInt32) (value : UInt8) : State :=
  { state with memory := update state.memory segment (update (state.memory segment) offset.toNat value) }

/-- Four bytes from an offset on, which wraps at the end of the address space. -/
def loadLong (state : State) (segment : UInt16) (offset : UInt32) : UInt32 :=
  UInt32.ofNat (word32 (fun k => state.memory segment ((offset.toNat + k) % 2 ^ 32)) 0)

def storeLong (state : State) (segment : UInt16) (offset value : UInt32) : State :=
  { state with memory := update state.memory segment ((List.range 4).foldl
      (fun memory k => update memory ((offset.toNat + k) % 2 ^ 32) (byteOf value.toNat k)) (state.memory segment)) }

/-- The result of an operation, with the zero flag set by it. -/
def result (state : State) (value : UInt32) (r : Register) : State :=
  { state.set value r with zf := value == 0 }

/-- `edi` or `esi` after a string operation on four bytes. -/
def next (state : State) (offset : UInt32) : UInt32 := if state.df then offset - 4 else offset + 4

def advance (state : State) : State := { state with pc := state.pc + 1 }

end State

/-! ## Parts of registers -/

/-- A selector that has gone through `dx`. -/
@[simp] theorem ofNat_movw (edx : UInt32) (selector : UInt16) :
    UInt16.ofNat ((edx.toNat / 65536 * 65536 + selector.toNat) % 4294967296) = selector := by
  have word := selector.toNat_lt
  apply UInt16.toNat_inj.mp
  rw [UInt16.toNat_ofNat']
  omega

/-- A byte that has gone through `al`. -/
@[simp] theorem ofNat_movb (eax : UInt32) (value : UInt8) :
    UInt8.ofNat ((eax.toNat / 256 * 256 + value.toNat) % 4294967296) = value := by
  have byte := value.toNat_lt
  apply UInt8.toNat_inj.mp
  rw [UInt8.toNat_ofNat']
  omega

namespace State

theorem memory_storeLong (state : State) (segment : UInt16) {offset : UInt32} (value : UInt32)
    (fits : offset.toNat + 4 ≤ 2 ^ 32) :
    (state.storeLong segment offset value).memory = update state.memory segment
      (update (update (update (update (state.memory segment) offset.toNat (byteOf value.toNat 0))
        (offset.toNat + 1) (byteOf value.toNat 1)) (offset.toNat + 2) (byteOf value.toNat 2))
        (offset.toNat + 3) (byteOf value.toNat 3)) := by
  have inside : ∀ k < 4, (offset.toNat + k) % 2 ^ 32 = offset.toNat + k :=
    fun k less => Nat.mod_eq_of_lt (by omega)
  have range : List.range 4 = [0, 1, 2, 3] := rfl
  simp only [storeLong, range, List.foldl_cons, List.foldl_nil]
  rw [inside 0 (by decide), inside 1 (by decide), inside 2 (by decide), inside 3 (by decide), Nat.add_zero]

theorem byteOf_loadLong (state : State) (segment : UInt16) {offset : UInt32} {k : Nat} (less : k < 4)
    (fits : offset.toNat + 4 ≤ 2 ^ 32) :
    byteOf (state.loadLong segment offset).toNat k = state.memory segment (offset.toNat + k) := by
  have value : (state.loadLong segment offset).toNat =
      word32 (fun k => state.memory segment ((offset.toNat + k) % 2 ^ 32)) 0 :=
    UInt32.toNat_ofNat_of_lt' (word32_lt _ _)
  rw [value, byteOf_word32 _ _ less, Nat.zero_add, Nat.mod_eq_of_lt (by omega)]

end State

section

variable {Label : Type} [DecidableEq Label]

/-- The line of a label. -/
def target (program : List (Instruction Label)) (name : Label) : Nat :=
  program.findIdx fun
    | .label other => other == name
    | _ => false

theorem target_label (other name : Label) (rest : List (Instruction Label)) :
    target (.label other :: rest) name = if other = name then 0 else target rest name + 1 := by
  unfold target
  rw [List.findIdx_cons]
  by_cases same : other = name
  · simp [same]
  · simp [same, beq_eq_false_iff_ne.mpr same]

/-- A line that is no label is passed over. -/
theorem target_cons {line : Instruction Label} (plain : ∀ other, line ≠ .label other) (name : Label)
    (rest : List (Instruction Label)) : target (line :: rest) name = target rest name + 1 := by
  unfold target
  rw [List.findIdx_cons]
  cases line with
  | label other => exact absurd rfl (plain other)
  | _ => rfl

def execute (program : List (Instruction Label)) (state : State) : Instruction Label → State
  | .label _ => state.advance
  | .testl r => { state with zf := state.get r &&& state.get r == 0 }.advance
  | .testlImm imm r => { state with zf := state.get r &&& imm == 0 }.advance
  | .jz name => if state.zf then { state with pc := target program name } else state.advance
  | .jmp name => { state with pc := target program name }
  | .storeAl base => (state.store state.ds (state.get base) state.al).advance
  | .loadAl base =>
      { state with
        eax := UInt32.ofNat (state.eax.toNat / 256 * 256 + (state.load state.ds (state.get base)).toNat) }.advance
  | .movwToDx segment =>
      { state with edx := UInt32.ofNat (state.edx.toNat / 2 ^ 16 * 2 ^ 16 + (state.selector segment).toNat) }.advance
  | .movwFromDx segment => (state.setSelector (UInt16.ofNat state.edx.toNat) segment).advance
  | .movl src dest => (state.set (state.get src) dest).advance
  | .addl imm r => (state.result (state.get r + imm) r).advance
  | .subl imm r => (state.result (state.get r - imm) r).advance
  | .andl imm r => (state.result (state.get r &&& imm) r).advance
  | .shrl imm r => (state.result (state.get r >>> imm) r).advance
  | .cld => { state with df := false }.advance
  | .repStosl =>
      if state.ecx = 0 then state.advance
      else { state.storeLong state.es state.edi state.eax with ecx := state.ecx - 1, edi := state.next state.edi }
  | .repMovsl =>
      if state.ecx = 0 then state.advance
      else
        { state.storeLong state.es state.edi (state.loadLong state.ds state.esi) with
          ecx := state.ecx - 1, edi := state.next state.edi, esi := state.next state.esi }

/-- One step; `none` behind the last line. -/
def step (program : List (Instruction Label)) (state : State) : Option State :=
  program[state.pc]?.map (execute program state)

def steps (program : List (Instruction Label)) : Nat → State → Option State
  | 0, state => some state
  | n + 1, state => (step program state).bind (steps program n)

/-- The program gets from one state to another. -/
def Reaches (program : List (Instruction Label)) (first last : State) : Prop :=
  ∃ n, steps program n first = some last

variable {program : List (Instruction Label)} {first middle last : State}

theorem steps_add (n m : Nat) (state : State) :
    steps program (n + m) state = (steps program n state).bind (steps program m) := by
  induction n generalizing state with
  | zero => rw [Nat.zero_add, steps, Option.bind_some]
  | succ n ih =>
      have shift : n + 1 + m = n + m + 1 := Nat.add_right_comm n 1 m
      rw [shift, steps, steps]
      cases stepped : step program state with
      | none => rfl
      | some next => exact ih next

theorem Reaches.refl (state : State) : Reaches program state state := ⟨0, rfl⟩

theorem Reaches.trans (before : Reaches program first middle) (after : Reaches program middle last) :
    Reaches program first last := by
  obtain ⟨n, ran⟩ := before
  obtain ⟨m, later⟩ := after
  exact ⟨n + m, by rw [steps_add, ran, Option.bind_some, later]⟩

/-- The program ends in a state: it gets there, and there is no step from there. -/
def EndsIn (program : List (Instruction Label)) (first last : State) : Prop :=
  Reaches program first last ∧ step program last = none

/-- The rule for a loop whose rounds are counted. -/
theorem reaches_rounds {P : Nat → State → Prop} {n i : Nat} {state : State}
    (each : ∀ i < n, ∀ state, P i state → ∃ next, Reaches program state next ∧ P (i + 1) next)
    (within : i ≤ n) (holds : P i state) : ∃ last, Reaches program state last ∧ P n last := by
  induction more : n - i generalizing i state with
  | zero =>
      obtain rfl : i = n := by omega
      exact ⟨state, .refl state, holds⟩
  | succ k ih =>
      obtain ⟨next, stepped, kept⟩ := each i (by omega) state holds
      obtain ⟨last, reached, final⟩ := ih (by omega) kept (by omega)
      exact ⟨last, stepped.trans reached, final⟩

/-- The rule for a loop that may be left before its last round. -/
theorem reaches_rounds_or {P Q : Nat → State → Prop} {n i : Nat} {state : State}
    (each : ∀ i < n, ∀ state, P i state → ∃ next, Reaches program state next ∧ (P (i + 1) next ∨ Q i next))
    (within : i ≤ n) (holds : P i state) :
    ∃ last, Reaches program state last ∧ (P n last ∨ ∃ j < n, Q j last) := by
  induction more : n - i generalizing i state with
  | zero =>
      obtain rfl : i = n := by omega
      exact ⟨state, .refl state, Or.inl holds⟩
  | succ k ih =>
      obtain ⟨next, stepped, kept | left⟩ := each i (by omega) state holds
      · obtain ⟨last, reached, final⟩ := ih (by omega) kept (by omega)
        exact ⟨last, stepped.trans reached, final⟩
      · exact ⟨next, stepped, Or.inr ⟨i, by omega, left⟩⟩

end

end LinuxLikeOS.Machine
