import LinuxLikeOS.DentryCopy
import LinuxLikeOS.Machine

/-!
# `memset` and `memcpy` (`lib.c`)

The two routines line by line. Each moves single bytes until the destination is aligned, then four
bytes at a time, and the rest again by the byte.
-/

namespace LinuxLikeOS.MemoryRoutines

open Function Blocks Machine

/-- `.memset_top` and so on. -/
inductive Label where
  | top
  | aligned
  | bottom
  | done
  deriving DecidableEq

def memset : List (Instruction Label) :=
  [.label .top,
    .testl .ecx,
    .jz .done,
    .testlImm 3 .edi,
    .jz .aligned,
    .storeAl .edi,
    .addl 1 .edi,
    .subl 1 .ecx,
    .jmp .top,
    .label .aligned,
    .movwToDx .ds,
    .movwFromDx .es,
    .movl .ecx .edx,
    .shrl 2 .ecx,
    .andl 3 .edx,
    .cld,
    .repStosl,
    .label .bottom,
    .testl .edx,
    .jz .done,
    .storeAl .edi,
    .addl 1 .edi,
    .subl 1 .edx,
    .jmp .bottom,
    .label .done]

def memcpy : List (Instruction Label) :=
  [.label .top,
    .testl .ecx,
    .jz .done,
    .testlImm 3 .edi,
    .jz .aligned,
    .loadAl .esi,
    .storeAl .edi,
    .addl 1 .edi,
    .addl 1 .esi,
    .subl 1 .ecx,
    .jmp .top,
    .label .aligned,
    .movwToDx .ds,
    .movwFromDx .es,
    .movl .ecx .edx,
    .shrl 2 .ecx,
    .andl 3 .edx,
    .cld,
    .repMovsl,
    .label .bottom,
    .testl .edx,
    .jz .done,
    .loadAl .esi,
    .storeAl .edi,
    .addl 1 .edi,
    .addl 1 .esi,
    .subl 1 .edx,
    .jmp .bottom,
    .label .done]

/-- The operands that the asm statement of `memset` starts from. -/
def memsetEntry (s c n : UInt32) (state : State) : State :=
  let c := c &&& 0xFF
  { state with eax := c <<< 24 ||| c <<< 16 ||| c <<< 8 ||| c, edi := s, ecx := n, pc := 0 }

/-- The operands that the asm statement of `memcpy` starts from. -/
def memcpyEntry (dest src n : UInt32) (state : State) : State :=
  { state with esi := src, edi := dest, ecx := n, pc := 0 }

/-! ## The loops -/

/-- How a routine moves `n` bytes: `Top i`, `Long i k` and `Bottom i` are the states at its three
loops with `i` bytes moved, `k` the repetitions of the string instruction that are left. -/
structure Routine (program : List (Instruction Label)) (n : Nat) where
  Top : Nat → State → Prop
  Long : Nat → Nat → State → Prop
  Bottom : Nat → State → Prop
  Done : State → Prop
  head : ∀ i < n, ∀ state, Top i state →
    ∃ next, Reaches program state next ∧ (Top (i + 1) next ∨ Long i ((n - i) / 4) next)
  finish : ∀ state, Top n state → ∃ next, Reaches program state next ∧ Done next
  long : ∀ i k state, Long i (k + 1) state → ∃ next, Reaches program state next ∧ Long (i + 4) k next
  leave : ∀ i state, Long i 0 state → ∃ next, Reaches program state next ∧ Bottom i next
  tail : ∀ i < n, ∀ state, Bottom i state → ∃ next, Reaches program state next ∧ Bottom (i + 1) next
  close : ∀ state, Bottom n state → ∃ next, Reaches program state next ∧ Done next

theorem Routine.longs {program : List (Instruction Label)} {n : Nat} (routine : Routine program n) {i k : Nat}
    {state : State} (holds : routine.Long i k state) :
    ∃ last, Reaches program state last ∧ routine.Long (i + 4 * k) 0 last := by
  induction k generalizing i state with
  | zero => exact ⟨state, .refl state, holds⟩
  | succ k ih =>
      obtain ⟨next, stepped, kept⟩ := routine.long i k state holds
      obtain ⟨last, reached, final⟩ := ih kept
      have count : i + 4 * (k + 1) = i + 4 + 4 * k := by omega
      exact ⟨last, stepped.trans reached, count ▸ final⟩

/-- Each of the three loops ends, and the routine with them. -/
theorem Routine.ends {program : List (Instruction Label)} {n : Nat} (routine : Routine program n) {state : State}
    (starts : routine.Top 0 state) : ∃ last, Reaches program state last ∧ routine.Done last := by
  obtain ⟨middle, reached, whole | ⟨i, inside, longs⟩⟩ := reaches_rounds_or routine.head (Nat.zero_le n) starts
  · obtain ⟨last, later, done⟩ := routine.finish middle whole
    exact ⟨last, reached.trans later, done⟩
  · obtain ⟨moved, second, none⟩ := routine.longs longs
    obtain ⟨left, third, bottom⟩ := routine.leave _ moved none
    obtain ⟨whole, fourth, all⟩ := reaches_rounds routine.tail (by omega) bottom
    obtain ⟨last, fifth, done⟩ := routine.close whole all
    exact ⟨last, ((reached.trans second).trans (third.trans fourth)).trans fifth, done⟩

/-! ## The lines of `memset` -/

section

variable (state : State)

theorem memset_head (pc : state.pc = 0) (some : state.ecx ≠ 0) (unaligned : state.edi &&& 3 ≠ 0) :
    steps memset 9 state = Option.some { state.store state.ds state.edi state.al with
      edi := state.edi + 1, ecx := state.ecx - 1, zf := state.ecx - 1 == 0, pc := 0 } := by
  simp [steps, step, memset, pc, execute, State.advance, State.get, State.set, State.result, State.store, State.al,
    target_label, some, unaligned]

theorem memset_finish (pc : state.pc = 0) (none : state.ecx = 0) :
    steps memset 4 state = some { state with zf := true, pc := 25 } := by
  simp [steps, step, memset, pc, execute, State.advance, State.get, target_label, target_cons, none]

/-- `es` is set from `ds`, and the count is divided. -/
theorem memset_align (pc : state.pc = 0) (some : state.ecx ≠ 0) (aligned : state.edi &&& 3 = 0) :
    steps memset 12 state = Option.some { state with
      ecx := state.ecx >>> 2, edx := state.ecx &&& 3, es := state.ds, df := false,
      zf := state.ecx &&& 3 == 0, pc := 16 } := by
  simp [steps, step, memset, pc, execute, State.advance, State.get, State.set, State.result, State.selector,
    State.setSelector, target_label, target_cons, some, aligned]

theorem memset_long (pc : state.pc = 16) (some : state.ecx ≠ 0) :
    steps memset 1 state = Option.some { state.storeLong state.es state.edi state.eax with
      ecx := state.ecx - 1, edi := state.next state.edi } := by
  simp [steps, step, memset, pc, execute, some]

theorem memset_leave (pc : state.pc = 16) (none : state.ecx = 0) :
    steps memset 1 state = some { state with pc := 17 } := by
  simp [steps, step, memset, pc, execute, State.advance, none]

theorem memset_tail (pc : state.pc = 17) (some : state.edx ≠ 0) :
    steps memset 7 state = Option.some { state.store state.ds state.edi state.al with
      edi := state.edi + 1, edx := state.edx - 1, zf := state.edx - 1 == 0, pc := 17 } := by
  simp [steps, step, memset, pc, execute, State.advance, State.get, State.set, State.result, State.store, State.al,
    target_label, target_cons, some]

theorem memset_close (pc : state.pc = 17) (none : state.edx = 0) :
    steps memset 4 state = some { state with zf := true, pc := 25 } := by
  simp [steps, step, memset, pc, execute, State.advance, State.get, target_label, target_cons, none]

/-! ## The lines of `memcpy` -/

theorem memcpy_head (pc : state.pc = 0) (some : state.ecx ≠ 0) (unaligned : state.edi &&& 3 ≠ 0) :
    ∃ eax, steps memcpy 11 state =
      Option.some { state.store state.ds state.edi (state.load state.ds state.esi) with
        eax := eax, edi := state.edi + 1, esi := state.esi + 1, ecx := state.ecx - 1, zf := state.ecx - 1 == 0,
        pc := 0 } := by
  refine ⟨UInt32.ofNat (state.eax.toNat / 256 * 256 + (state.load state.ds state.esi).toNat), ?_⟩
  simp [steps, step, memcpy, pc, execute, State.advance, State.get, State.set, State.result, State.store, State.load,
    State.al, target_label, some, unaligned]

theorem memcpy_finish (pc : state.pc = 0) (none : state.ecx = 0) :
    steps memcpy 4 state = some { state with zf := true, pc := 29 } := by
  simp [steps, step, memcpy, pc, execute, State.advance, State.get, target_label, target_cons, none]

theorem memcpy_align (pc : state.pc = 0) (some : state.ecx ≠ 0) (aligned : state.edi &&& 3 = 0) :
    steps memcpy 12 state = Option.some { state with
      ecx := state.ecx >>> 2, edx := state.ecx &&& 3, es := state.ds, df := false,
      zf := state.ecx &&& 3 == 0, pc := 18 } := by
  simp [steps, step, memcpy, pc, execute, State.advance, State.get, State.set, State.result, State.selector,
    State.setSelector, target_label, target_cons, some, aligned]

theorem memcpy_long (pc : state.pc = 18) (some : state.ecx ≠ 0) :
    steps memcpy 1 state =
      Option.some { state.storeLong state.es state.edi (state.loadLong state.ds state.esi) with
        ecx := state.ecx - 1, edi := state.next state.edi, esi := state.next state.esi } := by
  simp [steps, step, memcpy, pc, execute, some]

theorem memcpy_leave (pc : state.pc = 18) (none : state.ecx = 0) :
    steps memcpy 1 state = some { state with pc := 19 } := by
  simp [steps, step, memcpy, pc, execute, State.advance, none]

theorem memcpy_tail (pc : state.pc = 19) (some : state.edx ≠ 0) :
    ∃ eax, steps memcpy 9 state =
      Option.some { state.store state.ds state.edi (state.load state.ds state.esi) with
        eax := eax, edi := state.edi + 1, esi := state.esi + 1, edx := state.edx - 1, zf := state.edx - 1 == 0,
        pc := 19 } := by
  refine ⟨UInt32.ofNat (state.eax.toNat / 256 * 256 + (state.load state.ds state.esi).toNat), ?_⟩
  simp [steps, step, memcpy, pc, execute, State.advance, State.get, State.set, State.result, State.store, State.load,
    State.al, target_label, target_cons, some]

theorem memcpy_close (pc : state.pc = 19) (none : state.edx = 0) :
    steps memcpy 4 state = some { state with zf := true, pc := 29 } := by
  simp [steps, step, memcpy, pc, execute, State.advance, State.get, target_label, target_cons, none]

end

/-! ## Counters and addresses -/

theorem toNat_sub_one {count : UInt32} (some : count ≠ 0) : (count - 1).toNat = count.toNat - 1 := by
  have positive : count.toNat ≠ 0 := fun zero => some (UInt32.toNat_inj.mp zero)
  exact UInt32.toNat_sub_of_le _ _ (Nat.one_le_iff_ne_zero.mpr positive)

/-- A counter of the bytes that are left. -/
theorem left_ne_zero {count : UInt32} {n i : Nat} (left : count.toNat = n - i) (inside : i < n) : count ≠ 0 := by
  rintro rfl
  exact absurd left.symm (Nat.sub_ne_zero_of_lt inside)

theorem left_eq_zero {count : UInt32} {n : Nat} (left : count.toNat = n - n) : count = 0 :=
  UInt32.toNat_inj.mp (left.trans (Nat.sub_self n))

theorem left_pred {count : UInt32} {n i : Nat} (left : count.toNat = n - i) (inside : i < n) :
    (count - 1).toNat = n - (i + 1) := by
  rw [toNat_sub_one (left_ne_zero left inside), left, Nat.sub_sub]

/-- A counter of repetitions. -/
theorem repetition_ne_zero {count : UInt32} {k : Nat} (left : count.toNat = k + 1) : count ≠ 0 := by
  rintro rfl
  cases left

theorem repetition_pred {count : UInt32} {k : Nat} (left : count.toNat = k + 1) : (count - 1).toNat = k := by
  rw [toNat_sub_one (repetition_ne_zero left), left, Nat.add_sub_cancel]

/-- With the direction flag clear. -/
theorem next_eq {state : State} (df : state.df = false) (offset : UInt32) : state.next offset = offset + 4 := by
  rw [State.next, df]
  rfl

theorem toNat_shiftRight_two (count : UInt32) : (count >>> 2).toNat = count.toNat / 4 := by
  rw [UInt32.toNat_shiftRight]
  exact Nat.shiftRight_eq_div_pow _ _

theorem toNat_and_three (count : UInt32) : (count &&& 3).toNat = count.toNat % 4 := by
  rw [UInt32.toNat_and]
  exact Nat.and_two_pow_sub_one_eq_mod _ 2

/-- A pointer that has moved on. -/
theorem toNat_pointer {pointer step : UInt32} {base i : Nat} (moved : pointer.toNat = (base + i) % 2 ^ 32) :
    (pointer + step).toNat = (base + (i + step.toNat)) % 2 ^ 32 := by
  rw [UInt32.toNat_add, moved]
  omega

/-! ## `memset` -/

/-- The state when `i` bytes have been set. -/
structure Filling (start : State) (s : UInt32) (c : UInt8) (i : Nat) (state : State) : Prop where
  value : ∀ k < 4, byteOf state.eax.toNat k = c
  ds : state.ds = start.ds
  edi : state.edi.toNat = (s.toNat + i) % 2 ^ 32
  memory : state.memory = update start.memory start.ds (filled (start.memory start.ds) s.toNat i c)

section

variable {start state : State} {s : UInt32} {c : UInt8} {i n : Nat}

theorem Filling.byte (filling : Filling start s c i state) (inside : s.toNat + i < 2 ^ 32) :
    (state.store state.ds state.edi state.al).memory =
      update start.memory start.ds (filled (start.memory start.ds) s.toNat (i + 1) c) := by
  obtain ⟨value, ds, edi, memory⟩ := filling
  have al : state.al = c := by
    rw [← value 0 (by decide), byteOf, State.al, Nat.mul_zero, Nat.pow_zero, Nat.div_one]
  rw [Nat.mod_eq_of_lt inside] at edi
  rw [State.store, ds, edi, al, memory, update_self, update_idem, filled_succ]

theorem Filling.long (filling : Filling start s c i state) (inside : s.toNat + i + 4 ≤ 2 ^ 32) :
    (state.storeLong state.ds state.edi state.eax).memory =
      update start.memory start.ds (filled (start.memory start.ds) s.toNat (i + 4) c) := by
  obtain ⟨value, ds, edi, memory⟩ := filling
  rw [Nat.mod_eq_of_lt (by omega)] at edi
  rw [State.memory_storeLong _ _ _ (by omega), value 0 (by decide), value 1 (by decide), value 2 (by decide),
    value 3 (by decide), ds, edi, memory, update_self, update_idem, filled_four]

/-- The states at the loops of `memset`. -/
def memsetRoutine (start : State) (s : UInt32) (c : UInt8) {n : Nat} (fits : s.toNat + n ≤ 2 ^ 32) :
    Routine memset n where
  Top i state := Filling start s c i state ∧ state.pc = 0 ∧ state.ecx.toNat = n - i
  Long i k state := Filling start s c i state ∧ state.pc = 16 ∧ state.es = state.ds ∧ state.df = false ∧
    state.ecx.toNat = k ∧ i + 4 * k + state.edx.toNat = n
  Bottom i state := Filling start s c i state ∧ state.pc = 17 ∧ state.edx.toNat = n - i
  Done state := Filling start s c n state ∧ state.pc = 25
  head := by
    rintro i inside state ⟨filling, pc, count⟩
    have some : state.ecx ≠ 0 := left_ne_zero count inside
    by_cases aligned : state.edi &&& 3 = 0
    · refine ⟨_, ⟨12, memset_align state pc some aligned⟩, Or.inr
        ⟨⟨filling.value, filling.ds, filling.edi, filling.memory⟩, rfl, rfl, rfl, ?_, ?_⟩⟩
      · show (state.ecx >>> 2).toNat = _
        rw [toNat_shiftRight_two, count]
      · show i + 4 * ((n - i) / 4) + (state.ecx &&& 3).toNat = n
        rw [toNat_and_three, count]
        omega
    · refine ⟨_, ⟨9, memset_head state pc some aligned⟩, Or.inl
        ⟨⟨filling.value, filling.ds, toNat_pointer filling.edi, filling.byte (by omega)⟩, rfl, ?_⟩⟩
      exact left_pred count inside
  finish := by
    rintro state ⟨filling, pc, count⟩
    have none : state.ecx = 0 := left_eq_zero count
    exact ⟨_, ⟨4, memset_finish state pc none⟩, ⟨filling.value, filling.ds, filling.edi, filling.memory⟩, rfl⟩
  long := by
    rintro i k state ⟨filling, pc, es, df, count, rest⟩
    have some : state.ecx ≠ 0 := repetition_ne_zero count
    refine ⟨_, ⟨1, memset_long state pc some⟩, ⟨filling.value, filling.ds, ?_, ?_⟩, pc, es, df, ?_, ?_⟩
    · exact (congrArg UInt32.toNat (next_eq df _)).trans (toNat_pointer filling.edi)
    · show (state.storeLong state.es state.edi state.eax).memory = _
      rw [es, filling.long (by omega)]
    · exact repetition_pred count
    · show i + 4 + 4 * k + state.edx.toNat = n
      omega
  leave := by
    rintro i state ⟨filling, pc, -, -, count, rest⟩
    refine ⟨_, ⟨1, memset_leave state pc (UInt32.toNat_inj.mp count)⟩,
      ⟨filling.value, filling.ds, filling.edi, filling.memory⟩, rfl, ?_⟩
    show state.edx.toNat = n - i
    omega
  tail := by
    rintro i inside state ⟨filling, pc, count⟩
    have some : state.edx ≠ 0 := left_ne_zero count inside
    refine ⟨_, ⟨7, memset_tail state pc some⟩,
      ⟨filling.value, filling.ds, toNat_pointer filling.edi, filling.byte (by omega)⟩, rfl, ?_⟩
    exact left_pred count inside
  close := by
    rintro state ⟨filling, pc, count⟩
    have none : state.edx = 0 := left_eq_zero count
    exact ⟨_, ⟨4, memset_close state pc none⟩, ⟨filling.value, filling.ds, filling.edi, filling.memory⟩, rfl⟩

end

/-- The byte in all four places of `eax`. -/
theorem byteOf_entry (c : UInt32) {k : Nat} (less : k < 4) (start : State) (s n : UInt32) :
    byteOf (memsetEntry s c n start).eax.toNat k = c.toUInt8 := by
  have each : ∀ byte : Fin 256, ∀ k : Fin 4,
      byteOf (UInt32.ofNat byte <<< 24 ||| UInt32.ofNat byte <<< 16 ||| UInt32.ofNat byte <<< 8 |||
        UInt32.ofNat byte).toNat k = UInt8.ofNat byte := by
    decide +kernel
  have low : (c &&& 0xFF).toNat = c.toNat % 256 := by
    rw [UInt32.toNat_and]
    exact Nat.and_two_pow_sub_one_eq_mod _ 8
  have masked : c &&& 0xFF = UInt32.ofNat (c.toNat % 256) := by
    apply UInt32.toNat_inj.mp
    rw [low, UInt32.toNat_ofNat']
    omega
  have value : c.toUInt8 = UInt8.ofNat (c.toNat % 256) := by
    apply UInt8.toNat_inj.mp
    rw [UInt8.toNat_ofNat', UInt32.toNat_toUInt8]
    omega
  rw [value, ← each ⟨c.toNat % 256, Nat.mod_lt _ (by decide)⟩ ⟨k, less⟩, ← masked]
  rfl

theorem memset_fills (start : State) (s c n : UInt32) (fits : s.toNat + n.toNat ≤ 2 ^ 32) :
    ∃ last, EndsIn memset (memsetEntry s c n start) last ∧
      last.memory = update start.memory start.ds
        (filled (start.memory start.ds) s.toNat n.toNat c.toUInt8) := by
  have small := s.toNat_lt
  have starts : (memsetRoutine start s c.toUInt8 fits).Top 0 (memsetEntry s c n start) := by
    refine ⟨⟨fun k less => byteOf_entry c less start s n, rfl, ?_, ?_⟩, rfl, rfl⟩
    · show s.toNat = (s.toNat + 0) % 2 ^ 32
      omega
    · rw [filled_zero, update_eq_self]
      rfl
  obtain ⟨last, reached, filling, pc⟩ := (memsetRoutine start s c.toUInt8 fits).ends starts
  refine ⟨last, ⟨reached, ?_⟩, filling.memory⟩
  rw [step, pc]
  rfl

/-! ## `memcpy` -/

/-- The state when `i` bytes have been copied. -/
structure Copying (start : State) (dest src : UInt32) (i : Nat) (state : State) : Prop where
  ds : state.ds = start.ds
  edi : state.edi.toNat = (dest.toNat + i) % 2 ^ 32
  esi : state.esi.toNat = (src.toNat + i) % 2 ^ 32
  memory : state.memory = update start.memory start.ds (copied (start.memory start.ds) dest.toNat src.toNat i)

/-- Two regions of `n` bytes without an address in common, which do not wrap. -/
structure Regions (dest src : UInt32) (n : Nat) : Prop where
  room : dest.toNat + n ≤ 2 ^ 32
  source : src.toNat + n ≤ 2 ^ 32
  apart : Apart dest.toNat n src.toNat n

section

variable {start state : State} {dest src : UInt32} {i n : Nat}

theorem Copying.byte (copying : Copying start dest src i state) (regions : Regions dest src n) (inside : i < n) :
    (state.store state.ds state.edi (state.load state.ds state.esi)).memory =
      update start.memory start.ds (copied (start.memory start.ds) dest.toNat src.toNat (i + 1)) := by
  obtain ⟨ds, edi, esi, memory⟩ := copying
  obtain ⟨room, source, apart⟩ := regions
  rw [Nat.mod_eq_of_lt (by omega)] at edi esi
  rw [State.store, State.load, ds, edi, esi, memory, update_self, update_idem, copied_succ _ (apart.mono inside inside)]

theorem Copying.long (copying : Copying start dest src i state) (regions : Regions dest src n) (inside : i + 4 ≤ n) :
    (state.storeLong state.ds state.edi (state.loadLong state.ds state.esi)).memory =
      update start.memory start.ds (copied (start.memory start.ds) dest.toNat src.toNat (i + 4)) := by
  obtain ⟨ds, edi, esi, memory⟩ := copying
  obtain ⟨room, source, apart⟩ := regions
  rw [Nat.mod_eq_of_lt (by omega)] at edi esi
  have bytes : ∀ k < 4, byteOf (state.loadLong state.ds state.esi).toNat k =
      copied (start.memory start.ds) dest.toNat src.toNat i (src.toNat + i + k) := by
    intro k less
    rw [State.byteOf_loadLong _ _ less (by omega), ds, esi, memory, update_self]
  rw [State.memory_storeLong _ _ _ (by omega), bytes 0 (by decide), bytes 1 (by decide), bytes 2 (by decide),
    bytes 3 (by decide), ds, edi, memory, update_self, update_idem, Nat.add_zero,
    copied_four _ (apart.mono inside inside)]

/-- The states at the loops of `memcpy`. -/
def memcpyRoutine (start : State) {dest src : UInt32} {n : Nat} (regions : Regions dest src n) :
    Routine memcpy n where
  Top i state := Copying start dest src i state ∧ state.pc = 0 ∧ state.ecx.toNat = n - i
  Long i k state := Copying start dest src i state ∧ state.pc = 18 ∧ state.es = state.ds ∧ state.df = false ∧
    state.ecx.toNat = k ∧ i + 4 * k + state.edx.toNat = n
  Bottom i state := Copying start dest src i state ∧ state.pc = 19 ∧ state.edx.toNat = n - i
  Done state := Copying start dest src n state ∧ state.pc = 29
  head := by
    rintro i inside state ⟨copying, pc, count⟩
    have some : state.ecx ≠ 0 := left_ne_zero count inside
    by_cases aligned : state.edi &&& 3 = 0
    · refine ⟨_, ⟨12, memcpy_align state pc some aligned⟩, Or.inr
        ⟨⟨copying.ds, copying.edi, copying.esi, copying.memory⟩, rfl, rfl, rfl, ?_, ?_⟩⟩
      · show (state.ecx >>> 2).toNat = _
        rw [toNat_shiftRight_two, count]
      · show i + 4 * ((n - i) / 4) + (state.ecx &&& 3).toNat = n
        rw [toNat_and_three, count]
        omega
    · obtain ⟨eax, ran⟩ := memcpy_head state pc some aligned
      refine ⟨_, ⟨11, ran⟩, Or.inl ⟨⟨copying.ds, toNat_pointer copying.edi, toNat_pointer copying.esi,
        copying.byte regions inside⟩, rfl, ?_⟩⟩
      exact left_pred count inside
  finish := by
    rintro state ⟨copying, pc, count⟩
    have none : state.ecx = 0 := left_eq_zero count
    exact ⟨_, ⟨4, memcpy_finish state pc none⟩, ⟨copying.ds, copying.edi, copying.esi, copying.memory⟩, rfl⟩
  long := by
    rintro i k state ⟨copying, pc, es, df, count, rest⟩
    have some : state.ecx ≠ 0 := repetition_ne_zero count
    refine ⟨_, ⟨1, memcpy_long state pc some⟩, ⟨copying.ds, ?_, ?_, ?_⟩, pc, es, df, ?_, ?_⟩
    · exact (congrArg UInt32.toNat (next_eq df _)).trans (toNat_pointer copying.edi)
    · exact (congrArg UInt32.toNat (next_eq df _)).trans (toNat_pointer copying.esi)
    · show (state.storeLong state.es state.edi (state.loadLong state.ds state.esi)).memory = _
      rw [es, copying.long regions (by omega)]
    · exact repetition_pred count
    · show i + 4 + 4 * k + state.edx.toNat = n
      omega
  leave := by
    rintro i state ⟨copying, pc, -, -, count, rest⟩
    refine ⟨_, ⟨1, memcpy_leave state pc (UInt32.toNat_inj.mp count)⟩,
      ⟨copying.ds, copying.edi, copying.esi, copying.memory⟩, rfl, ?_⟩
    show state.edx.toNat = n - i
    omega
  tail := by
    rintro i inside state ⟨copying, pc, count⟩
    have some : state.edx ≠ 0 := left_ne_zero count inside
    obtain ⟨eax, ran⟩ := memcpy_tail state pc some
    refine ⟨_, ⟨9, ran⟩, ⟨copying.ds, toNat_pointer copying.edi, toNat_pointer copying.esi,
      copying.byte regions inside⟩, rfl, ?_⟩
    exact left_pred count inside
  close := by
    rintro state ⟨copying, pc, count⟩
    have none : state.edx = 0 := left_eq_zero count
    exact ⟨_, ⟨4, memcpy_close state pc none⟩, ⟨copying.ds, copying.edi, copying.esi, copying.memory⟩, rfl⟩

end

theorem memcpy_copies (start : State) (dest src n : UInt32) (regions : Regions dest src n.toNat) :
    ∃ last, EndsIn memcpy (memcpyEntry dest src n start) last ∧
      last.memory = update start.memory start.ds
        (copied (start.memory start.ds) dest.toNat src.toNat n.toNat) := by
  have starts : (memcpyRoutine start regions).Top 0 (memcpyEntry dest src n start) := by
    refine ⟨⟨rfl, ?_, ?_, ?_⟩, rfl, rfl⟩
    · exact (Nat.mod_eq_of_lt dest.toNat_lt).symm
    · exact (Nat.mod_eq_of_lt src.toNat_lt).symm
    · rw [copied_zero, update_eq_self]
      rfl
  obtain ⟨last, reached, copying, pc⟩ := (memcpyRoutine start regions).ends starts
  refine ⟨last, ⟨reached, ?_⟩, copying.memory⟩
  rw [step, pc]
  rfl

/-- What the drivers' buffers hold after `memset`. -/
theorem memset_fill (start : State) (s c n : UInt32) (fits : s.toNat + n.toNat ≤ 2 ^ 32) :
    ∃ last, EndsIn memset (memsetEntry s c n start) last ∧ ∀ index, last.memory start.ds (s.toNat + index) =
      (Writes.fill n.toNat c.toUInt8).apply (fun index => start.memory start.ds (s.toNat + index)) index := by
  obtain ⟨last, ends, memory⟩ := memset_fills start s c n fits
  refine ⟨last, ends, fun index => ?_⟩
  rw [memory, update_self]
  by_cases inside : index < n.toNat
  · rw [filled_inside _ _ (within_add _ inside)]
    simp [Writes.fill, Writes.apply, inside]
  · rw [filled_outside _ _ (by unfold Within; omega)]
    simp [Writes.fill, Writes.apply, inside]

/-- `memcpy` leaves what the copy of one byte after the other leaves. -/
theorem memcpy_copyBytes (start : State) (dest src n : UInt32) (regions : Regions dest src n.toNat) :
    ∃ last, EndsIn memcpy (memcpyEntry dest src n start) last ∧ last.memory start.ds =
      (DentryCopy.copyBytes dest.toNat src.toNat n.toNat (start.memory start.ds)).value := by
  obtain ⟨last, ends, memory⟩ := memcpy_copies start dest src n regions
  have bytes := (DentryCopy.copyBytes_ensures (start.memory start.ds) regions.apart).2
  refine ⟨last, ends, ?_⟩
  rw [memory, update_self, bytes]

/-- Both routines end, from every state of the machine: `memset` has set the bytes from `s` on to the
lowest byte of `c`, `memcpy` has copied those of the source, and every other byte of memory is as it
was. -/
theorem routines_are_bytewise :
    (∀ (start : State) (s c n : UInt32), s.toNat + n.toNat ≤ 2 ^ 32 →
      ∃ last, EndsIn memset (memsetEntry s c n start) last ∧
        last.memory = update start.memory start.ds
          (filled (start.memory start.ds) s.toNat n.toNat c.toUInt8)) ∧
    ∀ (start : State) (dest src n : UInt32), Regions dest src n.toNat →
      ∃ last, EndsIn memcpy (memcpyEntry dest src n start) last ∧
        last.memory = update start.memory start.ds
          (copied (start.memory start.ds) dest.toNat src.toNat n.toNat) :=
  ⟨memset_fills, memcpy_copies⟩

/-- A machine whose memory holds the low byte of each address. -/
def sampleState : State := ⟨0, 0, 0, 0, 0, 0x18, 0, false, true, fun _ address => UInt8.ofNat address, 0⟩

/-- Unaligned destinations, with bytes in front of and behind the words. -/
theorem routines_are_bytewise_sample :
    (∃ last, EndsIn memset (memsetEntry 0x1001 0x141 11 sampleState) last ∧
      last.memory = update sampleState.memory 0x18 (filled (sampleState.memory 0x18) 0x1001 11 0x41)) ∧
    ∃ last, EndsIn memcpy (memcpyEntry 0x1003 0x2000 14 sampleState) last ∧
      last.memory = update sampleState.memory 0x18 (copied (sampleState.memory 0x18) 0x1003 0x2000 14) :=
  ⟨routines_are_bytewise.1 sampleState 0x1001 0x141 11 (by decide),
    routines_are_bytewise.2 sampleState 0x1003 0x2000 14 ⟨by decide, by decide, Or.inl (by decide)⟩⟩

end LinuxLikeOS.MemoryRoutines
