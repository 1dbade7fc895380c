import LinuxLikeOS.BitFields
import LinuxLikeOS.SystemCallEntry

/-!
# Descriptor tables (`x86_desc.h`, `x86_desc.S`, `idt.c`, `kernel.c`)

The entries as the kernel packs them, and as the processor reads them: where each interrupt leads, which of them
a program can raise itself, and what the segments are.
-/

namespace LinuxLikeOS.InterruptTables

open BitFields Function

/-- The numerals of vectors and of privilege levels. -/
instance neZero_256 : NeZero 256 := ⟨by decide⟩

instance neZero_four : NeZero 4 := ⟨by decide⟩

/-! ## Entries of the interrupt table -/

/-- `idt_desc_t`. -/
structure IdtDesc where
  offset15_00 : UInt16
  segSelector : UInt16
  reserved4 : UInt8
  reserved3 : Bool
  reserved2 : Bool
  reserved1 : Bool
  size : Bool
  reserved0 : Bool
  dpl : Fin 4
  present : Bool
  offset31_16 : UInt16

def IdtDesc.zeros : IdtDesc := ⟨0, 0, 0, false, false, false, false, false, 0, false, 0⟩

/-- The two words of the union. -/
def IdtDesc.val (desc : IdtDesc) : Nat :=
  pack [(16, desc.offset15_00.toNat), (16, desc.segSelector.toNat), (8, desc.reserved4.toNat),
    (1, desc.reserved3.toNat), (1, desc.reserved2.toNat), (1, desc.reserved1.toNat), (1, desc.size.toNat),
    (1, desc.reserved0.toNat), (2, desc.dpl.val), (1, desc.present.toNat), (16, desc.offset31_16.toNat)]

/-- `SET_IDT_ENTRY`. -/
def setIdtEntry (desc : IdtDesc) (handler : UInt32) : IdtDesc :=
  { desc with
    offset31_16 := ((handler &&& 0xFFFF0000) >>> 16).toUInt16
    offset15_00 := (handler &&& 0xFFFF).toUInt16 }

/-- What the processor finds in an entry. -/
structure Gate where
  offset : Nat
  selector : Nat
  /-- 14 for a gate that turns interrupts off, 15 for one that does not. -/
  type : Nat
  /-- Set in the descriptors of segments of memory. -/
  segment : Nat
  dpl : Nat
  present : Nat
  deriving DecidableEq

def Gate.read (word : Nat) : Gate where
  offset := bits word 0 16 + 2 ^ 16 * bits word 48 16
  selector := bits word 16 16
  type := bits word 40 4
  segment := bits word 44 1
  dpl := bits word 45 2
  present := bits word 47 1

/-- A run of bits, masked and shifted down. -/
theorem toNat_masked {mask shift : UInt32} {low width : Nat} (run : mask.toNat >>> low = 2 ^ width - 1)
    (shifted : shift.toNat % 32 = low) (word : UInt32) :
    ((word &&& mask) >>> shift).toNat = word.toNat / 2 ^ low % 2 ^ width := by
  rw [UInt32.toNat_shiftRight, UInt32.toNat_and, shifted, Nat.shiftRight_and_distrib, run,
    Nat.and_two_pow_sub_one_eq_mod, Nat.shiftRight_eq_div_pow]

/-- The two halves of an address that `SET_IDT_ENTRY` cuts out. -/
theorem high_half (word : UInt32) : ((word &&& 0xFFFF0000) >>> 16).toUInt16.toNat = word.toNat / 2 ^ 16 := by
  rw [UInt32.toNat_toUInt16, toNat_masked (by decide : _ = 2 ^ 16 - 1) (by decide : _ = 16)]
  have := word.toNat_lt
  omega

theorem low_half (word : UInt32) : (word &&& 0xFFFF).toUInt16.toNat = word.toNat % 2 ^ 16 := by
  rw [UInt32.toNat_toUInt16, UInt32.toNat_and]
  exact (congrArg (· % 2 ^ 16) (Nat.and_two_pow_sub_one_eq_mod _ 16)).trans (Nat.mod_mod _ _)

/-- The four flags below `reserved0` are the type of the gate. -/
theorem read_val (desc : IdtDesc) :
    Gate.read desc.val =
      { offset := desc.offset15_00.toNat + 2 ^ 16 * desc.offset31_16.toNat
        selector := desc.segSelector.toNat
        type := desc.reserved3.toNat + 2 * (desc.reserved2.toNat + 2 * (desc.reserved1.toNat + 2 * desc.size.toNat))
        segment := desc.reserved0.toNat
        dpl := desc.dpl.val
        present := desc.present.toNat } := by
  have low : bits desc.val 0 16 = desc.offset15_00.toNat :=
    (bits_pack 0 1 (by simp [widths]) (by simp [widths])).trans (pack_single desc.offset15_00.toNat_lt)
  have selector : bits desc.val 16 16 = desc.segSelector.toNat :=
    (bits_pack 1 1 (by simp [widths]) (by simp [widths])).trans (pack_single desc.segSelector.toNat_lt)
  have type : bits desc.val 40 4 =
      desc.reserved3.toNat + 2 * (desc.reserved2.toNat + 2 * (desc.reserved1.toNat + 2 * desc.size.toNat)) := by
    have group : bits desc.val 40 4 = pack [(1, desc.reserved3.toNat), (1, desc.reserved2.toNat),
        (1, desc.reserved1.toNat), (1, desc.size.toNat)] := bits_pack 3 4 (by simp [widths]) (by simp [widths])
    rw [group, pack_bit, pack_bit, pack_bit, pack_single (by cases desc.size <;> decide)]
  have segment : bits desc.val 44 1 = desc.reserved0.toNat :=
    (bits_pack 7 1 (by simp [widths]) (by simp [widths])).trans (pack_bit _ [])
  have dpl : bits desc.val 45 2 = desc.dpl.val :=
    (bits_pack 8 1 (by simp [widths]) (by simp [widths])).trans (pack_single desc.dpl.isLt)
  have present : bits desc.val 47 1 = desc.present.toNat :=
    (bits_pack 9 1 (by simp [widths]) (by simp [widths])).trans (pack_bit _ [])
  have high : bits desc.val 48 16 = desc.offset31_16.toNat :=
    (bits_pack 10 1 (by simp [widths]) (by simp [widths])).trans (pack_single desc.offset31_16.toNat_lt)
  rw [Gate.read, low, selector, type, segment, dpl, present, high]

theorem setIdtEntry_offset (desc : IdtDesc) (handler : UInt32) :
    (setIdtEntry desc handler).offset15_00.toNat + 2 ^ 16 * (setIdtEntry desc handler).offset31_16.toNat =
      handler.toNat := by
  show (handler &&& 0xFFFF).toUInt16.toNat + 2 ^ 16 * ((handler &&& 0xFFFF0000) >>> 16).toUInt16.toNat = _
  rw [low_half, high_half]
  exact Nat.mod_add_div _ _

/-! ## The interrupt table -/

/-- The functions that `init_idt` enters. -/
inductive Symbol where
  | exception (number : Fin 20)
  | systemcallWrapper
  | kbWrapper
  | rtcWrapper
  | pitWrapper
  deriving DecidableEq

/-- The round of the first loop for one vector. -/
def defaults (vector : Fin 256) (desc : IdtDesc) : IdtDesc :=
  { desc with
    segSelector := 0x0010
    present := true
    reserved0 := false
    size := true
    reserved1 := true
    reserved2 := true
    reserved3 := decide (vector.val < 32 ∨ vector.val = 0x80)
    reserved4 := 0
    dpl := if vector.val = 0x80 then 3 else 0 }

/-- The entries in the order of `init_idt`; `none` is NULL. -/
def handlers : List (Fin 256 × Option Symbol) :=
  (List.finRange 20).map (fun number => (number.castLE (by decide), some (.exception number))) ++
    (List.finRange 12).map (fun i => (⟨0x14 + i.val, by omega⟩, none)) ++
    [(0x80, some .systemcallWrapper), (0x21, some .kbWrapper), (0x28, some .rtcWrapper), (0x20, some .pitWrapper)]

def handlerAddress (address : Symbol → UInt32) (symbol : Option Symbol) : UInt32 := (symbol.map address).getD 0

/-- `init_idt`, with the functions at their addresses. -/
def initIdt (address : Symbol → UInt32) (idt : Fin 256 → IdtDesc) : Fin 256 → IdtDesc :=
  handlers.foldl (fun idt entry => update idt entry.1 (setIdtEntry (idt entry.1) (handlerAddress address entry.2)))
    fun vector => defaults vector (idt vector)

/-- What is entered for a vector: the last entry counts. -/
def lastEntry (entries : List (Fin 256 × Option Symbol)) (vector : Fin 256) : Option (Option Symbol) :=
  (entries.reverse.find? fun entry => entry.1 == vector).map Prod.snd

def enterLast (address : Symbol → UInt32) (desc : IdtDesc) : Option (Option Symbol) → IdtDesc
  | none => desc
  | some symbol => setIdtEntry desc (handlerAddress address symbol)

theorem foldl_entries (address : Symbol → UInt32) (entries : List (Fin 256 × Option Symbol))
    (idt : Fin 256 → IdtDesc) (vector : Fin 256) :
    entries.foldl (fun idt entry => update idt entry.1 (setIdtEntry (idt entry.1) (handlerAddress address entry.2)))
        idt vector = enterLast address (idt vector) (lastEntry entries vector) := by
  induction entries generalizing idt with
  | nil => rfl
  | cons entry rest ih =>
      rw [List.foldl_cons, ih, lastEntry, lastEntry, List.reverse_cons, List.find?_append, Option.map_or]
      rcases eq_or_ne entry.1 vector with rfl | other
      · rw [update_self, List.find?_singleton, if_pos (by simp)]
        cases rest.reverse.find? fun later => later.1 == entry.1 <;> rfl
      · rw [update_of_ne other.symm, List.find?_singleton, if_neg (by simpa using other), Option.map_none,
          Option.or_none]

/-- Where the interrupts of a vector are to go; the table holds NULL where nothing is entered. -/
def destination (vector : Fin 256) : Option Symbol :=
  if small : vector.val < 20 then some (.exception ⟨vector.val, small⟩)
  else if vector.val = 0x20 then some .pitWrapper
  else if vector.val = 0x21 then some .kbWrapper
  else if vector.val = 0x28 then some .rtcWrapper
  else if vector.val = 0x80 then some .systemcallWrapper
  else none

theorem lastEntry_handlers (vector : Fin 256) : (lastEntry handlers vector).getD none = destination vector := by
  revert vector
  decide +kernel

theorem read_defaults (vector : Fin 256) (handler : UInt32) :
    Gate.read (setIdtEntry (defaults vector .zeros) handler).val =
      { offset := handler.toNat
        selector := 0x0010
        type := if vector.val < 32 ∨ vector.val = 0x80 then 15 else 14
        segment := 0
        dpl := if vector.val = 0x80 then 3 else 0
        present := 1 } := by
  rw [read_val, setIdtEntry_offset]
  simp only [setIdtEntry, defaults, Gate.mk.injEq, true_and]
  refine ⟨by decide, ?_, rfl, ?_, rfl⟩
  · split <;> rename_i system
    · rw [decide_eq_true system]
      rfl
    · rw [decide_eq_false system]
      rfl
  · split <;> rfl

/-- NULL is what an entry of zeros leads to already. -/
theorem setIdtEntry_null (vector : Fin 256) : setIdtEntry (defaults vector .zeros) 0 = defaults vector .zeros := by
  have high : (((0 : UInt32) &&& 0xFFFF0000) >>> 16).toUInt16 = 0 := by decide
  have low : ((0 : UInt32) &&& 0xFFFF).toUInt16 = 0 := by decide
  rw [setIdtEntry, high, low]
  rfl

theorem enterLast_zeros (address : Symbol → UInt32) (vector : Fin 256) (last : Option (Option Symbol)) :
    enterLast address (defaults vector .zeros) last =
      setIdtEntry (defaults vector .zeros) (handlerAddress address (last.getD none)) := by
  cases last with
  | none => exact (setIdtEntry_null vector).symm
  | some symbol => rfl

theorem read_initIdt (address : Symbol → UInt32) (vector : Fin 256) :
    Gate.read (initIdt address (fun _ => .zeros) vector).val =
      { offset := (handlerAddress address (destination vector)).toNat
        selector := 0x0010
        type := if vector.val < 32 ∨ vector.val = 0x80 then 15 else 14
        segment := 0
        dpl := if vector.val = 0x80 then 3 else 0
        present := 1 } := by
  rw [initIdt, foldl_entries, enterLast_zeros, lastEntry_handlers, read_defaults]

/-! ## Raising an interrupt -/

/-- `int` with a vector, by code at a privilege level: the place it leads to, and whether interrupts stay as they
are. A gate that is not for this level raises a general protection fault instead. -/
def softwareInterrupt (idt : Fin 256 → IdtDesc) (cpl : Nat) (vector : Fin 256) : Option (Nat × Bool) :=
  let gate := Gate.read (idt vector).val
  if gate.present = 1 ∧ cpl ≤ gate.dpl then some (gate.offset, gate.type == 15) else none

/-- An interrupt of a device is not held to a level. -/
def deviceInterrupt (idt : Fin 256 → IdtDesc) (vector : Fin 256) : Option (Nat × Bool) :=
  softwareInterrupt idt 0 vector

theorem deviceInterrupt_initIdt (address : Symbol → UInt32) (vector : Fin 256) :
    deviceInterrupt (initIdt address fun _ => .zeros) vector =
      some ((handlerAddress address (destination vector)).toNat, decide (vector.val < 32 ∨ vector.val = 0x80)) := by
  simp only [deviceInterrupt, softwareInterrupt, read_initIdt]
  rcases Decidable.em (vector.val < 32 ∨ vector.val = 0x80) with trap | device
  · simp [trap]
  · simp [device]

/-- The table leads every vector where it should and nowhere else, and all that a program can raise of its own
accord is a system call, during which interrupts stay as they are. -/
theorem interrupts_lead (address : Symbol → UInt32) (vector : Fin 256) :
    softwareInterrupt (initIdt address fun _ => .zeros) 3 vector =
        (if vector.val = 0x80 then some ((address .systemcallWrapper).toNat, true) else none) ∧
    deviceInterrupt (initIdt address fun _ => .zeros) vector =
      some ((handlerAddress address (destination vector)).toNat, decide (vector.val < 32 ∨ vector.val = 0x80)) := by
  refine ⟨?_, deviceInterrupt_initIdt address vector⟩
  simp only [softwareInterrupt, read_initIdt]
  rcases Decidable.em (vector.val = 0x80) with systemCall | other
  · have leads : destination vector = some .systemcallWrapper := by simp [destination, systemCall]
    simp [systemCall, leads, handlerAddress]
  · simp [other]

/-! ## The segments -/

/-- `seg_desc_t`. -/
structure SegDesc where
  segLim15_00 : UInt16
  base15_00 : UInt16
  base23_16 : UInt8
  type : Fin 16
  sys : Bool
  dpl : Fin 4
  present : Bool
  segLim19_16 : Fin 16
  avail : Bool
  reserved : Bool
  opsize : Bool
  granularity : Bool
  base31_24 : UInt8

def SegDesc.val (desc : SegDesc) : Nat :=
  pack [(16, desc.segLim15_00.toNat), (16, desc.base15_00.toNat), (8, desc.base23_16.toNat), (4, desc.type.val),
    (1, desc.sys.toNat), (2, desc.dpl.val), (1, desc.present.toNat), (4, desc.segLim19_16.val),
    (1, desc.avail.toNat), (1, desc.reserved.toNat), (1, desc.opsize.toNat), (1, desc.granularity.toNat),
    (8, desc.base31_24.toNat)]

/-- `SET_LDT_PARAMS` and `SET_TSS_PARAMS`. -/
def setParams (desc : SegDesc) (addr lim : UInt32) : SegDesc :=
  { desc with
    base31_24 := ((addr &&& 0xFF000000) >>> 24).toUInt8
    base23_16 := ((addr &&& 0x00FF0000) >>> 16).toUInt8
    base15_00 := (addr &&& 0x0000FFFF).toUInt16
    segLim19_16 := ⟨((lim &&& 0x000F0000) >>> 16).toNat % 16, Nat.mod_lt _ (by decide)⟩
    segLim15_00 := (lim &&& 0x0000FFFF).toUInt16 }

/-- What the processor finds in a descriptor. -/
structure Segment where
  base : Nat
  limit : Nat
  type : Nat
  memory : Nat
  dpl : Nat
  present : Nat
  /-- Limits in pages. -/
  granularity : Nat
  deriving DecidableEq

def Segment.read (word : Nat) : Segment where
  base := bits word 16 16 + 2 ^ 16 * bits word 32 8 + 2 ^ 24 * bits word 56 8
  limit := bits word 0 16 + 2 ^ 16 * bits word 48 4
  type := bits word 40 4
  memory := bits word 44 1
  dpl := bits word 45 2
  present := bits word 47 1
  granularity := bits word 55 1

theorem read_segment (desc : SegDesc) :
    Segment.read desc.val =
      { base := desc.base15_00.toNat + 2 ^ 16 * desc.base23_16.toNat + 2 ^ 24 * desc.base31_24.toNat
        limit := desc.segLim15_00.toNat + 2 ^ 16 * desc.segLim19_16.val
        type := desc.type.val
        memory := desc.sys.toNat
        dpl := desc.dpl.val
        present := desc.present.toNat
        granularity := desc.granularity.toNat } := by
  have limitLow : bits desc.val 0 16 = desc.segLim15_00.toNat :=
    (bits_pack 0 1 (by simp [widths]) (by simp [widths])).trans (pack_single desc.segLim15_00.toNat_lt)
  have baseLow : bits desc.val 16 16 = desc.base15_00.toNat :=
    (bits_pack 1 1 (by simp [widths]) (by simp [widths])).trans (pack_single desc.base15_00.toNat_lt)
  have baseMiddle : bits desc.val 32 8 = desc.base23_16.toNat :=
    (bits_pack 2 1 (by simp [widths]) (by simp [widths])).trans (pack_single desc.base23_16.toNat_lt)
  have type : bits desc.val 40 4 = desc.type.val :=
    (bits_pack 3 1 (by simp [widths]) (by simp [widths])).trans (pack_single desc.type.isLt)
  have memory : bits desc.val 44 1 = desc.sys.toNat :=
    (bits_pack 4 1 (by simp [widths]) (by simp [widths])).trans (pack_bit _ [])
  have dpl : bits desc.val 45 2 = desc.dpl.val :=
    (bits_pack 5 1 (by simp [widths]) (by simp [widths])).trans (pack_single desc.dpl.isLt)
  have present : bits desc.val 47 1 = desc.present.toNat :=
    (bits_pack 6 1 (by simp [widths]) (by simp [widths])).trans (pack_bit _ [])
  have limitHigh : bits desc.val 48 4 = desc.segLim19_16.val :=
    (bits_pack 7 1 (by simp [widths]) (by simp [widths])).trans (pack_single desc.segLim19_16.isLt)
  have granularity : bits desc.val 55 1 = desc.granularity.toNat :=
    (bits_pack 11 1 (by simp [widths]) (by simp [widths])).trans (pack_bit _ [])
  have baseHigh : bits desc.val 56 8 = desc.base31_24.toNat :=
    (bits_pack 12 1 (by simp [widths]) (by simp [widths])).trans (pack_single desc.base31_24.toNat_lt)
  rw [Segment.read, limitLow, baseLow, baseMiddle, type, memory, dpl, present, limitHigh, granularity, baseHigh]

/-- The macros lose nothing of an address, nor of a limit of 20 bits. -/
theorem read_setParams (desc : SegDesc) (addr : UInt32) {lim : UInt32} (small : lim.toNat < 2 ^ 20) :
    Segment.read (setParams desc addr lim).val =
      ⟨addr.toNat, lim.toNat, desc.type.val, desc.sys.toNat, desc.dpl.val, desc.present.toNat,
        desc.granularity.toNat⟩ := by
  have top : ((addr &&& 0xFF000000) >>> 24).toUInt8.toNat = addr.toNat / 2 ^ 24 := by
    rw [UInt32.toNat_toUInt8, toNat_masked (by decide : _ = 2 ^ 8 - 1) (by decide : _ = 24)]
    have := addr.toNat_lt
    omega
  have middle : ((addr &&& 0x00FF0000) >>> 16).toUInt8.toNat = addr.toNat / 2 ^ 16 % 2 ^ 8 := by
    rw [UInt32.toNat_toUInt8, toNat_masked (by decide : _ = 2 ^ 8 - 1) (by decide : _ = 16)]
    exact Nat.mod_mod _ _
  have highLimit : ((lim &&& 0x000F0000) >>> 16).toNat % 16 = lim.toNat / 2 ^ 16 := by
    rw [toNat_masked (by decide : _ = 2 ^ 4 - 1) (by decide : _ = 16)]
    omega
  rw [read_segment]
  simp only [setParams, low_half, top, middle, highLimit, Segment.mk.injEq, and_true]
  exact ⟨by omega, by omega⟩

/-- `the_ldt_desc` of `entry`; a local of the stack with whatever is there. -/
def theLdtDesc (garbage : SegDesc) (ldt ldtSize : UInt32) : SegDesc :=
  setParams { garbage with
    granularity := false, opsize := true, reserved := false, avail := false, present := true, dpl := 0, sys := false
    type := ⟨2, by decide⟩ } ldt ldtSize

def theTssDesc (garbage : SegDesc) (tss tssSize : UInt32) : SegDesc :=
  setParams { garbage with
    granularity := false, opsize := false, reserved := false, avail := false, present := true, dpl := 0, sys := false
    type := ⟨9, by decide⟩ } tss tssSize

/-- The table of segments when `entry` has filled it; `tss_size` and `ldt_size` are one less than the sizes. -/
def gdt (garbage : SegDesc) (tss ldt : UInt32) : List Nat :=
  [0, 0, 0x00CF9A000000FFFF, 0x00CF92000000FFFF, 0x00CFFA000000FFFF, 0x00CFF2000000FFFF,
    (theTssDesc garbage tss (104 - 1)).val, (theLdtDesc garbage ldt (4 * 8 - 1)).val]

/-- The descriptor that a selector names, and the level of the selector. -/
def select (table : List Nat) (selector : Nat) : Option (Segment × Nat) :=
  if selector / 4 % 2 = 0 then (table[selector / 8]?).map fun word => (Segment.read word, selector % 4) else none

/-- All 4GB, in pages. -/
def flat (type dpl : Nat) : Segment := ⟨0, 0xFFFFF, type, 1, dpl, 1, 1⟩

/-- The selectors of the kernel and of programs name segments of all memory with the levels 0 and 3, code that can
be read and data that can be written, and the others name the task state and the local table wherever they are. -/
theorem selectors_name (garbage : SegDesc) (tss ldt : UInt32) :
    select (gdt garbage tss ldt) 0x0010 = some (flat 10 0, 0) ∧
    select (gdt garbage tss ldt) 0x0018 = some (flat 2 0, 0) ∧
    select (gdt garbage tss ldt) 0x0023 = some (flat 10 3, 3) ∧
    select (gdt garbage tss ldt) 0x002B = some (flat 2 3, 3) ∧
    select (gdt garbage tss ldt) 0x0030 = some (⟨tss.toNat, 103, 9, 0, 0, 1, 0⟩, 0) ∧
    select (gdt garbage tss ldt) 0x0038 = some (⟨ldt.toNat, 31, 2, 0, 0, 1, 0⟩, 0) := by
  have small : (104 - 1 : UInt32).toNat < 2 ^ 20 ∧ (4 * 8 - 1 : UInt32).toNat < 2 ^ 20 := by decide
  refine ⟨by rfl, by rfl, by rfl, by rfl, ?_, ?_⟩
  · show some (Segment.read (theTssDesc garbage tss (104 - 1)).val, 0) = _
    rw [theTssDesc, read_setParams _ _ small.1]
    rfl
  · show some (Segment.read (theLdtDesc garbage ldt (4 * 8 - 1)).val, 0) = _
    rw [theLdtDesc, read_setParams _ _ small.2]
    rfl

end LinuxLikeOS.InterruptTables
