import LinuxLikeOS.Descriptors
import LinuxLikeOS.Traced

/-!
# Programming the rate of the RTC (`rtc.c`)

The driver reaches the registers of the clock through two ports: an index goes to the first, and
the second then stands for the register with that index. `rtc_write` looks for the one set bit of
the rate, takes the divider from a table and puts it into the low half of register A.
-/

namespace LinuxLikeOS.RtcRate

open Function Traced

/-- What the driver does besides computing: port accesses, the interrupt flag, and the table. -/
inductive Access where
  | outb (value : UInt8) (port : UInt16)
  | inb (port : UInt16)
  | cli
  | sti
  | freqValues (index : Int)

/-- The index last written to `CMOS_PORT`, and the registers. -/
structure Cmos where
  selected : UInt8
  register : UInt8 → UInt8

/-- `outb(value, CMOS_PORT)`; the highest bit of the index masks the NMI. -/
def select (value : UInt8) (cmos : Cmos) : Traced Access Cmos := do
  access (.outb value 0x70)
  return { cmos with selected := value }

/-- `outb(value, CMOS_DATA_PORT)`. -/
def store (value : UInt8) (cmos : Cmos) : Traced Access Cmos := do
  access (.outb value 0x71)
  return { cmos with register := update cmos.register (cmos.selected &&& 0x7F) value }

/-- `inb(CMOS_DATA_PORT)`: a read resets the index to register D. -/
def load (cmos : Cmos) : Traced Access (UInt8 × Cmos) := do
  access (.inb 0x71)
  return (cmos.register (cmos.selected &&& 0x7F), { cmos with selected := 0x0D })

/-- The first `n` rounds of the loop over the bits of the rate: `exponent_2` and `index`. -/
def scan (rate : UInt32) : Nat → Int × Int
  | 0 => (0, 0)
  | i + 1 =>
      let (exponent2, index) := scan rate i
      if (rate >>> UInt32.ofNat i) &&& 1 ≠ 0 then (exponent2 + 1, i) else (exponent2, index)

def freqValues : List UInt8 := [0x0F, 0x0E, 0x0D, 0x0C, 0x0B, 0x0A, 0x09, 0x08, 0x07, 0x06]

/-- `rtc_write`; the buffer is NULL or holds a rate. -/
def rtcWrite (buf : Option UInt32) (nbytes : Int32) (cmos : Cmos) : Traced Access (Int32 × Cmos) :=
  match buf with
  | none => pure (-1, cmos)
  | some rate =>
      if nbytes ≠ 4 then pure (-1, cmos)
      else
        let (exponent2, index) := scan rate 32
        let index := index - 1
        if rate < 2 ∨ rate > 1024 ∨ exponent2 ≠ 1 then pure (-1, cmos)
        else do
          access (.freqValues index)
          let freq := freqValues.getD index.toNat 0
          access .cli
          let cmos ← select 0x8A cmos
          let (value, cmos) ← load cmos
          let prev := value &&& 0xF0
          let cmos ← select 0x8A cmos
          let cmos ← store (prev ||| freq) cmos
          access .sti
          return (0, cmos)

/-- The rates of the clock: 2Hz to 1024Hz, in powers of two. -/
def Rate (rate : UInt32) : Prop := ∃ k, 1 ≤ k ∧ k ≤ 10 ∧ rate.toNat = 2 ^ k

/-- A call that is to succeed. -/
def Acceptable (buf : Option UInt32) (nbytes : Int32) : Prop := nbytes = 4 ∧ ∃ rate, buf = some rate ∧ Rate rate

/-! ## The bit that is set -/

theorem bit_iff (rate : UInt32) {i : Nat} (inside : i < 32) :
    (rate >>> UInt32.ofNat i) &&& 1 ≠ 0 ↔ rate.toNat.testBit i = true := by
  have shift : (UInt32.ofNat i).toNat = i := UInt32.toNat_ofNat_of_lt' (Nat.lt_trans inside (by decide))
  rw [ne_eq, ← UInt32.toNat_inj, UInt32.toNat_and, UInt32.toNat_shiftRight, shift, Nat.mod_eq_of_lt inside]
  simp [Nat.testBit, Nat.and_comm]

/-- The loop counts the set bits and keeps the highest. -/
theorem scan_eq (rate : UInt32) {n : Nat} (inside : n ≤ 32) :
    scan rate n = ((((List.range n).countP fun i => rate.toNat.testBit i : Nat) : Int),
      ((((List.range n).reverse.find? fun i => rate.toNat.testBit i).getD 0 : Nat) : Int)) := by
  induction n with
  | zero => rfl
  | succ i ih =>
      simp only [scan, ih (Nat.le_of_succ_le inside), bit_iff rate inside, List.range_succ, List.countP_append,
        List.reverse_append, List.reverse_singleton, List.singleton_append, List.countP_singleton, List.find?_cons]
      cases rate.toNat.testBit i with
      | true => rfl
      | false => rfl

/-- A number has one set bit exactly if it is a power of two. -/
theorem countP_testBit_eq_one {rate : Nat} (small : rate < 2 ^ 32) :
    ((List.range 32).countP fun i => rate.testBit i) = 1 ↔ ∃ k < 32, rate = 2 ^ k := by
  constructor
  · intro one
    rw [List.countP_eq_length_filter] at one
    obtain ⟨k, only⟩ := List.length_eq_one_iff.mp one
    have bits : ∀ i < 32, rate.testBit i = true ↔ i = k := by
      intro i inside
      have listed : i ∈ (List.range 32).filter (fun i => rate.testBit i) ↔ i ∈ [k] := by rw [only]
      rw [List.mem_filter, List.mem_range, List.mem_singleton, and_iff_right inside] at listed
      exact listed
    have member : k ∈ (List.range 32).filter (fun i => rate.testBit i) := only ▸ List.mem_singleton_self k
    have inside : k < 32 := List.mem_range.mp (List.mem_filter.mp member).1
    refine ⟨k, inside, Nat.eq_of_testBit_eq fun i => ?_⟩
    rw [Nat.testBit_two_pow]
    rcases Nat.lt_or_ge i 32 with below | past
    · rw [Bool.eq_iff_iff, bits i below, decide_eq_true_iff]
      exact eq_comm
    · have high : rate < 2 ^ i := Nat.lt_of_lt_of_le small (Nat.pow_le_pow_right (by decide) past)
      rw [Nat.testBit_lt_two_pow high, eq_comm, decide_eq_false_iff_not]
      omega
  · rintro ⟨k, inside, rfl⟩
    have each : ∀ k : Fin 32, (List.range 32).countP (fun i => decide (k.val = i)) = 1 := by decide
    simp only [Nat.testBit_two_pow]
    exact each ⟨k, inside⟩

theorem highest_two_pow {k : Nat} (inside : k < 32) :
    ((List.range 32).reverse.find? fun i => (2 ^ k).testBit i) = some k := by
  have each : ∀ k : Fin 32, (List.range 32).reverse.find? (fun i => decide (k.val = i)) = some k.val := by decide
  simp only [Nat.testBit_two_pow]
  exact each ⟨k, inside⟩

theorem accepted_nat {rate : Nat} (small : rate < 2 ^ 32) :
    ¬ (rate < 2 ∨ rate > 1024 ∨ ((List.range 32).countP fun i => rate.testBit i) ≠ 1) ↔
      ∃ k, 1 ≤ k ∧ k ≤ 10 ∧ rate = 2 ^ k := by
  simp only [ne_eq, countP_testBit_eq_one small, not_or, Nat.not_lt, not_not]
  constructor
  · rintro ⟨least, most, k, _, rfl⟩
    refine ⟨k, ?_, (Nat.pow_le_pow_iff_right (by decide : 1 < 2)).mp most, rfl⟩
    by_contra below
    obtain rfl : k = 0 := by omega
    exact absurd least (by decide)
  · rintro ⟨k, least, most, rfl⟩
    exact ⟨Nat.pow_le_pow_right (by decide : 0 < 2) least, Nat.pow_le_pow_right (by decide : 0 < 2) most, k,
      by omega, rfl⟩

/-- The test of `rtc_write` accepts the rates of the clock. -/
theorem accepted_iff (rate : UInt32) :
    ¬ (rate < 2 ∨ rate > 1024 ∨ (scan rate 32).1 ≠ 1) ↔ Rate rate := by
  have low : rate < 2 ↔ rate.toNat < 2 := UInt32.lt_iff_toNat_lt
  have high : rate > 1024 ↔ rate.toNat > 1024 := UInt32.lt_iff_toNat_lt
  have one : ∀ n : Nat, (n : Int) ≠ 1 ↔ n ≠ 1 := by omega
  simp only [scan_eq rate (Nat.le_refl 32), low, high, one]
  exact accepted_nat rate.toNat_lt

/-- The index after the loop has been decremented is the row of the table. -/
theorem scan_index {rate : UInt32} {k : Nat} (power : rate.toNat = 2 ^ k) (inside : k < 32) :
    (scan rate 32).2 - 1 = (k : Int) - 1 := by
  rw [scan_eq rate (Nat.le_refl 32), power, highest_two_pow inside]
  rfl

/-! ## The register -/

/-- The clock has been set to a rate: register A alone is written, its high half stays, and the
low half is the divider of the rate. -/
structure Programmed (before after : Cmos) (rate : UInt32) (log : List Access) : Prop where
  writes : ∃ value, log.filter (fun place => place matches .outb _ _) =
      [.outb 0x8A 0x70, .outb 0x8A 0x70, .outb value 0x71] ∧
    after.register = update before.register 0x0A value ∧ value &&& 0xF0 = before.register 0x0A &&& 0xF0 ∧
    1 ≤ (value &&& 0x0F).toNat ∧ 32768 >>> ((value &&& 0x0F).toNat - 1) = rate.toNat

/-- No port has been written and nothing changed. -/
structure Refused (before after : Cmos) (log : List Access) : Prop where
  same : after = before
  silent : ∀ value port, .outb value port ∉ log

theorem rtcWrite_refused {buf : Option UInt32} {nbytes : Int32} (cmos : Cmos)
    (refused : ¬ Acceptable buf nbytes) : rtcWrite buf nbytes cmos = pure (-1, cmos) := by
  unfold rtcWrite
  cases buf with
  | none => rfl
  | some rate =>
      simp only []
      split
      · rfl
      · rename_i size
        have invalid : ¬ Rate rate := fun valid => refused ⟨not_not.mp size, rate, rfl, valid⟩
        rw [if_pos (not_not.mp fun accepted => invalid ((accepted_iff rate).mp accepted))]

/-- A rate 2^k is accepted, and row k - 1 of the table goes into register A. -/
theorem rtcWrite_accepted {rate : UInt32} {k : Nat} (least : 1 ≤ k) (most : k ≤ 10) (power : rate.toNat = 2 ^ k)
    (cmos : Cmos) :
    rtcWrite (some rate) 4 cmos =
      ⟨(0, ⟨0x8A, update cmos.register 0x0A ((cmos.register 0x0A &&& 0xF0) ||| UInt8.ofNat (16 - k))⟩),
        [.freqValues ((k : Int) - 1), .cli, .outb 0x8A 0x70, .inb 0x71, .outb 0x8A 0x70,
          .outb ((cmos.register 0x0A &&& 0xF0) ||| UInt8.ofNat (16 - k)) 0x71, .sti]⟩ := by
  have accepted := (accepted_iff rate).mpr ⟨k, least, most, power⟩
  have index := scan_index power (by omega)
  have row : ∀ k : Fin 11, 1 ≤ k.val → freqValues.getD ((k.val : Int) - 1).toNat 0 = UInt8.ofNat (16 - k.val) := by
    decide
  have frequency := row ⟨k, by omega⟩ least
  simp only [] at frequency
  unfold rtcWrite
  simp only [ne_eq, not_true_eq_false, if_false, if_neg accepted, index, frequency]
  have place : (0x8A &&& 0x7F : UInt8) = 0x0A := rfl
  simp only [select, load, store, pure_eq, access_eq, bind_mk, place, List.append_nil, List.cons_append,
    List.nil_append]

/-- The divider of each rate is in the low half of a byte. -/
theorem divider : ∀ k : Fin 11, 1 ≤ k.val →
    UInt8.ofNat (16 - k.val) &&& 0xF0 = 0 ∧ UInt8.ofNat (16 - k.val) &&& 0x0F = UInt8.ofNat (16 - k.val) ∧
      1 ≤ (UInt8.ofNat (16 - k.val)).toNat ∧
      32768 >>> ((UInt8.ofNat (16 - k.val)).toNat - 1) = 2 ^ k.val := by
  decide

/-- The halves of what is put together from the high half of one byte and the low half of another. -/
theorem halves {freq : UInt8} (high : freq &&& 0xF0 = 0) (low : freq &&& 0x0F = freq) (value : UInt8) :
    ((value &&& 0xF0) ||| freq) &&& 0xF0 = value &&& 0xF0 ∧ ((value &&& 0xF0) ||| freq) &&& 0x0F = freq := by
  have apart : (0xF0 &&& 0x0F : UInt8) = 0 := rfl
  have distrib : ∀ a b c : UInt8, (a ||| b) &&& c = (a &&& c) ||| (b &&& c) := fun a b c =>
    UInt8.toBitVec_inj.mp BitVec.and_or_distrib_right
  constructor
  · rw [distrib, UInt8.and_assoc, UInt8.and_self, high, UInt8.or_zero]
  · rw [distrib, UInt8.and_assoc, apart, low, UInt8.and_zero, UInt8.zero_or]

theorem programmed {rate : UInt32} {k : Nat} (least : 1 ≤ k) (most : k ≤ 10) (power : rate.toNat = 2 ^ k)
    (cmos : Cmos) :
    Programmed cmos (rtcWrite (some rate) 4 cmos).value.2 rate (rtcWrite (some rate) 4 cmos).log := by
  obtain ⟨high, low, positive, rateOf⟩ := divider ⟨k, by omega⟩ least
  obtain ⟨kept, set⟩ := halves high low (cmos.register 0x0A)
  rw [rtcWrite_accepted least most power]
  refine ⟨_, rfl, rfl, kept, ?_, ?_⟩
  · rw [set]
    exact positive
  · rw [set, power]
    exact rateOf

/-- `rtc_write` returns 0 exactly for a buffer with a rate of the clock, and then programs that
rate; else it returns -1 and writes no port. The table is indexed within its ten rows. -/
theorem rtc_write_programs_exactly (buf : Option UInt32) (nbytes : Int32) (cmos : Cmos) :
    ((rtcWrite buf nbytes cmos).value.1 = 0 ↔ Acceptable buf nbytes) ∧
    (∀ rate, buf = some rate → (rtcWrite buf nbytes cmos).value.1 = 0 →
      Programmed cmos (rtcWrite buf nbytes cmos).value.2 rate (rtcWrite buf nbytes cmos).log) ∧
    ((rtcWrite buf nbytes cmos).value.1 ≠ 0 → (rtcWrite buf nbytes cmos).value.1 = -1 ∧
      Refused cmos (rtcWrite buf nbytes cmos).value.2 (rtcWrite buf nbytes cmos).log) ∧
    ∀ index, .freqValues index ∈ (rtcWrite buf nbytes cmos).log → 0 ≤ index ∧ index ≤ 9 := by
  by_cases acceptable : Acceptable buf nbytes
  · obtain ⟨rfl, rate, rfl, k, least, most, power⟩ := id acceptable
    have ran := rtcWrite_accepted least most power cmos
    have returned : (rtcWrite (some rate) 4 cmos).value.1 = 0 := by rw [ran]
    refine ⟨iff_of_true returned acceptable, ?_, fun failed => absurd returned failed, ?_⟩
    · intro other same _
      obtain rfl := Option.some.inj same
      exact programmed least most power cmos
    · intro index member
      rw [ran] at member
      have row : index = (k : Int) - 1 := by simpa using member
      omega
  · have ran := rtcWrite_refused cmos acceptable
    have returned : (rtcWrite buf nbytes cmos).value.1 = -1 := by rw [ran]; rfl
    have failed : (rtcWrite buf nbytes cmos).value.1 ≠ 0 := by
      rw [returned]
      decide
    refine ⟨iff_of_false failed acceptable, fun _ _ succeeded => absurd succeeded failed, fun _ => ⟨returned, ?_⟩, ?_⟩
    · rw [ran]
      exact ⟨rfl, nofun⟩
    · rw [ran]
      exact nofun

/-- The `rtc_write` of the descriptor calls returns the same and leaves the same register A. -/
theorem task_rtcWrite (task : Task) (buf : Memory) (nbytes : Int32) (cmos : Cmos)
    (same : cmos.register 0x0A = task.rtc.registerA) :
    task.rtcWrite buf nbytes.toInt =
      ((rtcWrite (some (UInt32.ofNat (word32 buf 0))) nbytes cmos).value.1.toInt,
        { task with rtc := { task.rtc with
            registerA :=
              (rtcWrite (some (UInt32.ofNat (word32 buf 0))) nbytes cmos).value.2.register 0x0A } }) := by
  have size : nbytes.toInt = 4 ↔ nbytes = 4 := Int32.toInt_inj (y := 4)
  have small := word32_lt buf 0
  have value : (UInt32.ofNat (word32 buf 0)).toNat = word32 buf 0 := UInt32.toNat_ofNat_of_lt' small
  by_cases acceptable : Acceptable (some (UInt32.ofNat (word32 buf 0))) nbytes
  · obtain ⟨rfl, rate, given, k, least, most, power⟩ := acceptable
    obtain rfl := Option.some.inj given
    rw [rtcWrite_accepted least most power]
    rw [value] at power
    have accepted := (accepted_nat small).mpr ⟨k, least, most, power⟩
    have rows : ∀ k : Fin 11, 1 ≤ k.val → freqValues.getD (k.val - 1) 0 = UInt8.ofNat (16 - k.val) := by decide
    have row := rows ⟨k, by omega⟩ least
    have index : (((List.range 32).reverse.find? fun i => (word32 buf 0).testBit i).getD 0) = k := by
      rw [power, highest_two_pow (by omega)]
      rfl
    unfold Task.rtcWrite
    simp only [size.mpr rfl, ne_eq, not_true_eq_false, if_false, if_neg accepted, index, ← same]
    rw [← row]
    rfl
  · rw [rtcWrite_refused cmos acceptable]
    have kept : (-1, task) = ((-1 : Int32).toInt, { task with
        rtc := { task.rtc with registerA := cmos.register 0x0A } }) := by
      rw [same]
      rfl
    refine Eq.trans ?_ kept
    unfold Task.rtcWrite
    split
    · rfl
    · rename_i four
      have invalid : ¬ ∃ k, 1 ≤ k ∧ k ≤ 10 ∧ word32 buf 0 = 2 ^ k := by
        rintro ⟨k, least, most, power⟩
        exact acceptable ⟨size.mp (not_not.mp four), _, rfl, k, least, most, value.trans power⟩
      exact if_pos (not_not.mp fun accepted => invalid ((accepted_nat small).mp accepted))

end LinuxLikeOS.RtcRate
