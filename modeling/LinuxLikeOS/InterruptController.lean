import LinuxLikeOS.InterruptTables
import LinuxLikeOS.Transition

/-!
# Interrupts of the devices (`i8259.c`)

The two interrupt controllers as the kernel programs them, the requests that devices raise, and the way of each of
them through the table of interrupts to its handler. Over it stands what they are for: lines that wait to be served.
-/

namespace LinuxLikeOS.InterruptController

open Function InterruptTables LinuxLikeOS.SystemCallEntry

/-! ## The chips -/

/-- What the data port of a chip takes next. -/
inductive Expects where
  | mask
  | icw2 (single icw4 : Bool)
  | icw3 (icw4 : Bool)
  | icw4

structure Chip where
  mask : UInt8
  /-- Requests that are not acknowledged yet. -/
  requested : Fin 8 → Bool
  /-- Interrupts whose end has not been told. -/
  inService : Fin 8 → Bool
  vectors : UInt8
  cascade : UInt8
  autoEoi : Bool
  expects : Expects

namespace Chip

/-- A byte for the command port: the start of an initialisation or the end of an interrupt. The kernel sends no
other. -/
def command (value : UInt8) (chip : Chip) : Chip :=
  if value &&& 0x10 ≠ 0 then
    { chip with
      mask := 0
      requested := fun _ => false
      inService := fun _ => false
      autoEoi := false
      expects := .icw2 (value &&& 0x02 ≠ 0) (value &&& 0x01 ≠ 0) }
  else if value &&& 0xF8 = 0x60 then
    { chip with inService := fun line => chip.inService line && line.val != (value &&& 0x07).toNat }
  else chip

/-- A byte for the data port. -/
def data (value : UInt8) (chip : Chip) : Chip :=
  match chip.expects with
  | .mask => { chip with mask := value }
  | .icw2 single icw4 =>
      { chip with
        vectors := value &&& 0xF8
        expects := if single then (if icw4 then .icw4 else .mask) else .icw3 icw4 }
  | .icw3 icw4 => { chip with cascade := value, expects := if icw4 then .icw4 else .mask }
  | .icw4 => { chip with autoEoi := value &&& 0x02 ≠ 0, expects := .mask }

def masks (chip : Chip) (line : Fin 8) : Bool := chip.mask.toBitVec.getLsbD line.val

/-- The request that is next: the first that is not masked, unless one before it or itself is in service. -/
def next (chip : Chip) (requested : Fin 8 → Bool) : Option (Fin 8) :=
  (List.finRange 8).find? fun line =>
    requested line && !chip.masks line && (List.finRange 8).all fun other => line < other || !chip.inService other

def acknowledge (chip : Chip) (line : Fin 8) : Chip :=
  { chip with
    requested := update chip.requested line false
    inService := update chip.inService line (!chip.autoEoi) }

end Chip

structure Pics where
  master : Chip
  slave : Chip

namespace Pics

def outb (value : UInt8) (port : UInt16) (pics : Pics) : Pics :=
  if port = 0x20 then { pics with master := pics.master.command value }
  else if port = 0x21 then { pics with master := pics.master.data value }
  else if port = 0xA0 then { pics with slave := pics.slave.command value }
  else if port = 0xA1 then { pics with slave := pics.slave.data value }
  else pics

/-- The data ports give the masks. -/
def inb (port : UInt16) (pics : Pics) : UInt8 := if port = 0x21 then pics.master.mask else pics.slave.mask

/-- A device raises its line; the third is that of the second chip. -/
def raise (line : Fin 16) (pics : Pics) : Pics :=
  if line.val = 2 then pics
  else if small : line.val < 8 then
    { pics with master := { pics.master with requested := update pics.master.requested ⟨line.val, small⟩ true } }
  else
    { pics with slave := { pics.slave with
        requested := update pics.slave.requested ⟨line.val - 8, by omega⟩ true } }

/-- The processor acknowledges an interrupt and gets its vector; the second chip answers for the line it is at. -/
def acknowledge (pics : Pics) : Option (UInt8 × Pics) :=
  (pics.master.next
    (update pics.master.requested ⟨2, by decide⟩ (pics.slave.next pics.slave.requested).isSome)).bind fun line =>
    if pics.master.cascade.toBitVec.getLsbD line.val then
      (pics.slave.next pics.slave.requested).bind fun other =>
        if pics.slave.cascade.toNat = line.val then
          some (pics.slave.vectors + UInt8.ofNat other.val,
            ⟨pics.master.acknowledge line, pics.slave.acknowledge other⟩)
        else none
    else some (pics.master.vectors + UInt8.ofNat line.val, { pics with master := pics.master.acknowledge line })

end Pics

/-! ## The driver -/

def i8259Init (pics : Pics) : Pics :=
  let pics := pics.outb 0x11 0x20
  let pics := pics.outb 0x11 0xA0
  let pics := pics.outb 0x20 0x21
  let pics := pics.outb 0x28 0xA1
  let pics := pics.outb 0x04 0x21
  let pics := pics.outb 0x02 0xA1
  let pics := pics.outb 0x01 0x21
  let pics := pics.outb 0x01 0xA1
  let pics := pics.outb 0xFB 0x21
  pics.outb 0xFF 0xA1

/-- The data port of the chip that has the line, and the number of the line there. -/
def maskPort (irqNum : UInt32) : UInt16 × UInt32 := if irqNum < 8 then (0x21, irqNum) else (0xA1, irqNum - 8)

def enableIrq (irqNum : UInt32) (pics : Pics) : Pics :=
  let (port, irqNum) := maskPort irqNum
  let value := pics.inb port &&& ~~~((1 : UInt32) <<< irqNum).toUInt8
  pics.outb value port

def disableIrq (irqNum : UInt32) (pics : Pics) : Pics :=
  let (port, irqNum) := maskPort irqNum
  let value := pics.inb port ||| ((1 : UInt32) <<< irqNum).toUInt8
  pics.outb value port

def sendEoi (irqNum : UInt32) (pics : Pics) : Pics :=
  if irqNum ≥ 8 then
    let irqNum := irqNum - 8
    let pics := pics.outb (0x60 ||| irqNum.toUInt8) 0xA0
    pics.outb (0x60 ||| 2) 0x20
  else pics.outb (0x60 ||| irqNum.toUInt8) 0x20

/-- The number that the handler of a device gives to these functions. -/
def irq : Handler → UInt32
  | .keyboardIrqHandler => 1
  | .rtcIrqHandler => 8
  | .pitIrqHandler => 0

/-- What the wrapper calls that stands behind a symbol. -/
def handlerOf : Symbol → Option Handler
  | .kbWrapper => some .keyboardIrqHandler
  | .rtcWrapper => some .rtcIrqHandler
  | .pitWrapper => some .pitIrqHandler
  | _ => none

/-! ## Runs -/

/-- What happens at the controllers. -/
inductive Happening where
  | raise (line : Fin 16)
  /-- The processor takes an interrupt if there is one for it; its handler tells the end of it. -/
  | interrupt
  | enable (device : Handler)
  | disable (device : Handler)

structure State where
  pics : Pics
  served : List Handler

/-- One happening; `code` is what stands where in memory. Without a handler the processor is lost. -/
def step (code : Nat → Option Symbol) (idt : Fin 256 → IdtDesc) (state : State) : Happening → Option State
  | .raise line => some { state with pics := state.pics.raise line }
  | .enable device => some { state with pics := enableIrq (irq device) state.pics }
  | .disable device => some { state with pics := disableIrq (irq device) state.pics }
  | .interrupt =>
      match state.pics.acknowledge with
      | none => some state
      | some (vector, pics) =>
          ((deviceInterrupt idt ⟨vector.toNat, vector.toNat_lt⟩).bind fun (place, _) =>
            (code place).bind handlerOf).map fun device =>
              ⟨sendEoi (irq device) pics, state.served ++ [device]⟩

/-! ## Lines that wait -/

/-- What the controllers are for: which lines wait, which devices may interrupt, and who has been served. -/
structure Lines where
  waiting : Fin 16 → Bool
  enabled : Handler → Bool
  served : List Handler

def line : Handler → Fin 16
  | .keyboardIrqHandler => ⟨1, by decide⟩
  | .rtcIrqHandler => ⟨8, by decide⟩
  | .pitIrqHandler => ⟨0, by decide⟩

namespace Lines

/-- The devices in the order in which they are served. -/
def order : List Handler := [.pitIrqHandler, .keyboardIrqHandler, .rtcIrqHandler]

def due (lines : Lines) (device : Handler) : Bool := lines.waiting (line device) && lines.enabled device

def serve (lines : Lines) : Lines :=
  match order.find? lines.due with
  | none => lines
  | some device =>
      { lines with waiting := update lines.waiting (line device) false, served := lines.served ++ [device] }

def step (lines : Lines) : Happening → Lines
  | .raise line => if line.val = 2 then lines else { lines with waiting := update lines.waiting line true }
  | .interrupt => lines.serve
  | .enable device => { lines with enabled := fun other => decide (other = device) || lines.enabled other }
  | .disable device => { lines with enabled := fun other => !decide (other = device) && lines.enabled other }

end Lines

/-- The lines of the two chips. -/
def onMaster (line : Fin 8) : Fin 16 := ⟨line.val, by omega⟩

def onSlave (line : Fin 8) : Fin 16 := ⟨line.val + 8, by omega⟩

/-- The chips are programmed, nothing is in service, and their requests and masks are what the lines say. -/
structure Agrees (pics : Pics) (lines : Lines) : Prop where
  masterExpects : pics.master.expects = .mask
  slaveExpects : pics.slave.expects = .mask
  masterVectors : pics.master.vectors = 0x20
  slaveVectors : pics.slave.vectors = 0x28
  masterCascade : pics.master.cascade = 0x04
  slaveCascade : pics.slave.cascade = 0x02
  masterIdle : ∀ line, pics.master.inService line = false
  slaveIdle : ∀ line, pics.slave.inService line = false
  masterRequested : ∀ line : Fin 8, line.val ≠ 2 → pics.master.requested line = lines.waiting (onMaster line)
  slaveRequested : ∀ line : Fin 8, pics.slave.requested line = lines.waiting (onSlave line)
  masterMasks : ∀ line, pics.master.masks line =
    !(line.val == 0 && lines.enabled .pitIrqHandler || line.val == 1 && lines.enabled .keyboardIrqHandler ||
      line.val == 2)
  slaveMasks : ∀ line, pics.slave.masks line = !(line.val == 0 && lines.enabled .rtcIrqHandler)

/-- The line of the first chip on which the interrupt of a device arrives. -/
def masterLine : Handler → Fin 8
  | .keyboardIrqHandler => ⟨1, by decide⟩
  | .rtcIrqHandler => ⟨2, by decide⟩
  | .pitIrqHandler => ⟨0, by decide⟩

/-- The first of eight lines, where only three can be. -/
theorem find_line {p : Fin 8 → Bool} (others : ∀ line, 3 ≤ line.val → p line = false) :
    (List.finRange 8).find? p =
      if p ⟨0, by decide⟩ then some ⟨0, by decide⟩ else if p ⟨1, by decide⟩ then some ⟨1, by decide⟩
      else if p ⟨2, by decide⟩ then some ⟨2, by decide⟩ else none := by
  have lines : List.finRange 8 =
      ⟨0, by decide⟩ :: ⟨1, by decide⟩ :: ⟨2, by decide⟩ :: (List.finRange 8).drop 3 := rfl
  have last : ((List.finRange 8).drop 3).find? p = none := by
    refine List.find?_eq_none.mpr fun line member => ?_
    have high : ∀ line ∈ (List.finRange 8).drop 3, 3 ≤ line.val := by decide
    simp [others line (high line member)]
  rw [lines, List.find?_cons, List.find?_cons, List.find?_cons, last]
  cases p ⟨0, by decide⟩ <;> cases p ⟨1, by decide⟩ <;> cases p ⟨2, by decide⟩ <;> rfl

theorem Chip.next_idle {chip : Chip} (idle : ∀ line, chip.inService line = false) (requested : Fin 8 → Bool) :
    chip.next requested = (List.finRange 8).find? fun line => requested line && !chip.masks line := by
  have all : ((List.finRange 8).all fun _ => true) = true := rfl
  simp [Chip.next, idle, all]

section

variable {pics : Pics} {lines : Lines}

theorem Agrees.slaveNext (agrees : Agrees pics lines) :
    pics.slave.next pics.slave.requested = if lines.due .rtcIrqHandler then some ⟨0, by decide⟩ else none := by
  have due : (pics.slave.requested ⟨0, by decide⟩ && !pics.slave.masks ⟨0, by decide⟩) = lines.due .rtcIrqHandler := by
    rw [agrees.slaveRequested, agrees.slaveMasks, Bool.not_not]
    rfl
  have masked : ∀ line : Fin 8, 0 < line.val → (pics.slave.requested line && !pics.slave.masks line) = false := by
    intro line positive
    have other : (line.val == 0) = false := beq_false_of_ne (by omega)
    rw [agrees.slaveMasks, other]
    simp
  rw [Chip.next_idle agrees.slaveIdle, find_line fun line high => masked line (by omega), due,
    masked ⟨1, by decide⟩ (by decide), masked ⟨2, by decide⟩ (by decide)]
  rfl

theorem Agrees.masterNext (agrees : Agrees pics lines) :
    pics.master.next (update pics.master.requested ⟨2, by decide⟩ (lines.due .rtcIrqHandler)) =
      (Lines.order.find? lines.due).map masterLine := by
  have pit : (update pics.master.requested ⟨2, by decide⟩ (lines.due .rtcIrqHandler) ⟨0, by decide⟩ &&
      !pics.master.masks ⟨0, by decide⟩) = lines.due .pitIrqHandler := by
    rw [update_of_ne (by decide), agrees.masterRequested _ (by decide), agrees.masterMasks, Bool.not_not]
    simp [Lines.due, line, onMaster]
  have keyboard : (update pics.master.requested ⟨2, by decide⟩ (lines.due .rtcIrqHandler) ⟨1, by decide⟩ &&
      !pics.master.masks ⟨1, by decide⟩) = lines.due .keyboardIrqHandler := by
    rw [update_of_ne (by decide), agrees.masterRequested _ (by decide), agrees.masterMasks, Bool.not_not]
    simp [Lines.due, line, onMaster]
  have rtc : (update pics.master.requested ⟨2, by decide⟩ (lines.due .rtcIrqHandler) ⟨2, by decide⟩ &&
      !pics.master.masks ⟨2, by decide⟩) = lines.due .rtcIrqHandler := by
    rw [update_self, agrees.masterMasks, Bool.not_not]
    simp
  have masked : ∀ other : Fin 8, 3 ≤ other.val →
      (update pics.master.requested ⟨2, by decide⟩ (lines.due .rtcIrqHandler) other && !pics.master.masks other) =
        false := by
    intro other high
    have apart : (other.val == 0) = false ∧ (other.val == 1) = false ∧ (other.val == 2) = false :=
      ⟨beq_false_of_ne (by omega), beq_false_of_ne (by omega), beq_false_of_ne (by omega)⟩
    rw [agrees.masterMasks, apart.1, apart.2.1, apart.2.2]
    simp
  rw [Chip.next_idle agrees.masterIdle, find_line masked, pit, keyboard, rtc]
  simp only [Lines.order, List.find?_cons]
  cases lines.due .pitIrqHandler <;> cases lines.due .keyboardIrqHandler <;> cases lines.due .rtcIrqHandler <;> rfl

/-- The vector of a device. -/
def vector : Handler → UInt8
  | .keyboardIrqHandler => 0x21
  | .rtcIrqHandler => 0x28
  | .pitIrqHandler => 0x20

/-- What the processor gets is the vector of the first device that is due. -/
theorem Agrees.acknowledge (agrees : Agrees pics lines) :
    pics.acknowledge = (Lines.order.find? lines.due).map fun device =>
      (vector device, ⟨pics.master.acknowledge (masterLine device),
        if device = .rtcIrqHandler then pics.slave.acknowledge ⟨0, by decide⟩ else pics.slave⟩) := by
  have some : (pics.slave.next pics.slave.requested).isSome = lines.due .rtcIrqHandler := by
    rw [agrees.slaveNext]
    cases lines.due .rtcIrqHandler <;> rfl
  rw [Pics.acknowledge, some, agrees.masterNext]
  cases found : Lines.order.find? lines.due with
  | none => rfl
  | some device =>
      have due : lines.due device = true := List.find?_some found
      rw [Option.map_some, Option.bind_some, Option.map_some, agrees.masterCascade, agrees.masterVectors]
      cases device with
      | keyboardIrqHandler => rfl
      | pitIrqHandler => rfl
      | rtcIrqHandler =>
          rw [agrees.slaveNext, if_pos due, Option.bind_some, agrees.slaveCascade, agrees.slaveVectors]
          rfl

/-- The end of an interrupt, told to the chip that has it. -/
def Chip.finish (chip : Chip) (line : Fin 8) : Chip :=
  { chip with inService := fun other => chip.inService other && other.val != line.val }

theorem finish_acknowledge_idle {chip : Chip} (idle : ∀ line, chip.inService line = false) (line other : Fin 8) :
    ((chip.acknowledge line).finish line).inService other = false := by
  rcases eq_or_ne other line with rfl | apart
  · simp [Chip.finish]
  · simp [Chip.finish, Chip.acknowledge, apart, idle]

theorem sendEoi_pit (pics : Pics) :
    sendEoi (irq .pitIrqHandler) pics = { pics with master := pics.master.finish ⟨0, by decide⟩ } := rfl

theorem sendEoi_keyboard (pics : Pics) :
    sendEoi (irq .keyboardIrqHandler) pics = { pics with master := pics.master.finish ⟨1, by decide⟩ } := rfl

theorem sendEoi_rtc (pics : Pics) :
    sendEoi (irq .rtcIrqHandler) pics =
      ⟨pics.master.finish ⟨2, by decide⟩, pics.slave.finish ⟨0, by decide⟩⟩ := rfl

theorem onMaster_ne {line other : Fin 8} (apart : line ≠ other) : onMaster line ≠ onMaster other :=
  fun same => apart (Fin.ext (Fin.mk.inj same))

theorem onSlave_ne {line other : Fin 8} (apart : line ≠ other) : onSlave line ≠ onSlave other :=
  fun same => apart (Fin.ext (by have := Fin.mk.inj same; omega))

theorem onMaster_ne_onSlave (line other : Fin 8) : onMaster line ≠ onSlave other := by
  intro same
  have := Fin.mk.inj same
  omega

/-- A line that changes is one line of one chip. -/
theorem Agrees.update_master (agrees : Agrees pics lines) (line : Fin 8) (value : Bool) {other : Fin 8}
    (apart : other.val ≠ 2) :
    update pics.master.requested line value other = update lines.waiting (onMaster line) value (onMaster other) := by
  rcases eq_or_ne other line with rfl | here
  · rw [update_self, update_self]
  · rw [update_of_ne here, update_of_ne (onMaster_ne here), agrees.masterRequested other apart]

theorem Agrees.update_slave (agrees : Agrees pics lines) (line : Fin 8) (value : Bool) (other : Fin 8) :
    update pics.slave.requested line value other = update lines.waiting (onSlave line) value (onSlave other) := by
  rcases eq_or_ne other line with rfl | here
  · rw [update_self, update_self]
  · rw [update_of_ne here, update_of_ne (onSlave_ne here), agrees.slaveRequested other]

/-- The handler of the device that was acknowledged leaves nothing in service. -/
theorem Agrees.serve (agrees : Agrees pics lines) {device : Handler}
    (found : Lines.order.find? lines.due = some device) :
    Agrees (sendEoi (irq device) ⟨pics.master.acknowledge (masterLine device),
      if device = .rtcIrqHandler then pics.slave.acknowledge ⟨0, by decide⟩ else pics.slave⟩) lines.serve := by
  have served : lines.serve =
      { lines with waiting := update lines.waiting (line device) false, served := lines.served ++ [device] } := by
    rw [Lines.serve, found]
  rw [served]
  cases device with
  | pitIrqHandler =>
      rw [sendEoi_pit]
      exact { agrees with
        masterIdle := finish_acknowledge_idle agrees.masterIdle _
        masterRequested := fun other apart => agrees.update_master _ false apart
        slaveRequested := fun other => (agrees.slaveRequested other).trans
          (update_of_ne (onMaster_ne_onSlave ⟨0, by decide⟩ other).symm false lines.waiting).symm }
  | keyboardIrqHandler =>
      rw [sendEoi_keyboard]
      exact { agrees with
        masterIdle := finish_acknowledge_idle agrees.masterIdle _
        masterRequested := fun other apart => agrees.update_master _ false apart
        slaveRequested := fun other => (agrees.slaveRequested other).trans
          (update_of_ne (onMaster_ne_onSlave ⟨1, by decide⟩ other).symm false lines.waiting).symm }
  | rtcIrqHandler =>
      rw [sendEoi_rtc]
      exact { agrees with
        masterIdle := finish_acknowledge_idle agrees.masterIdle _
        slaveIdle := finish_acknowledge_idle agrees.slaveIdle _
        masterRequested := fun other apart => by
          have here : other ≠ ⟨2, by decide⟩ := fun same => apart (congrArg Fin.val same)
          have waits : update lines.waiting (onSlave ⟨0, by decide⟩) false (onMaster other) =
              lines.waiting (onMaster other) := update_of_ne (onMaster_ne_onSlave other _) _ _
          exact (update_of_ne here _ _).trans ((agrees.masterRequested other apart).trans waits.symm)
        slaveRequested := agrees.update_slave _ false }

/-! ## One happening -/

theorem Agrees.raise (agrees : Agrees pics lines) (line : Fin 16) :
    Agrees (pics.raise line) (lines.step (.raise line)) := by
  simp only [Pics.raise, Lines.step]
  split
  · exact agrees
  · split
    · rename_i small
      exact { agrees with
        masterRequested := fun other apart => agrees.update_master ⟨line.val, small⟩ true apart
        slaveRequested := fun other => by
          have waits : update lines.waiting line true (onSlave other) = lines.waiting (onSlave other) :=
            update_of_ne (onMaster_ne_onSlave ⟨line.val, small⟩ other).symm _ _
          exact (agrees.slaveRequested other).trans waits.symm }
    · rename_i large
      have here : line = onSlave ⟨line.val - 8, by omega⟩ := Fin.ext (by simp only [onSlave]; omega)
      exact { agrees with
        masterRequested := fun other apart => by
          have waits : update lines.waiting line true (onMaster other) = lines.waiting (onMaster other) :=
            update_of_ne (by rw [here]; exact onMaster_ne_onSlave other _) _ _
          exact (agrees.masterRequested other apart).trans waits.symm
        slaveRequested := fun other => by
          have waits := agrees.update_slave ⟨line.val - 8, by omega⟩ true other
          rwa [← here] at waits }

theorem Chip.data_mask {chip : Chip} (expects : chip.expects = .mask) (value : UInt8) :
    chip.data value = { chip with mask := value } := by
  rw [Chip.data, expects]

/-- A line that is set in a byte. -/
def Only (value : UInt8) (line : Nat) : Prop := ∀ other : Fin 8, value.toBitVec.getLsbD other.val = (other.val == line)

theorem masks_clear {chip : Chip} {value : UInt8} {line : Nat} (only : Only value line) (other : Fin 8) :
    Chip.masks { chip with mask := chip.mask &&& ~~~value } other = (chip.masks other && !(other.val == line)) := by
  simp only [Chip.masks, UInt8.toBitVec_and, UInt8.toBitVec_not, BitVec.getLsbD_and, BitVec.getLsbD_not, only other,
    decide_eq_true other.isLt, Bool.true_and]

theorem masks_set {chip : Chip} {value : UInt8} {line : Nat} (only : Only value line) (other : Fin 8) :
    Chip.masks { chip with mask := chip.mask ||| value } other = (chip.masks other || other.val == line) := by
  simp only [Chip.masks, UInt8.toBitVec_or, BitVec.getLsbD_or, only other]

theorem enableIrq_pit (pics : Pics) : enableIrq (irq .pitIrqHandler) pics =
    { pics with master := pics.master.data (pics.master.mask &&& ~~~1) } := rfl

theorem enableIrq_keyboard (pics : Pics) : enableIrq (irq .keyboardIrqHandler) pics =
    { pics with master := pics.master.data (pics.master.mask &&& ~~~2) } := rfl

theorem enableIrq_rtc (pics : Pics) : enableIrq (irq .rtcIrqHandler) pics =
    { pics with slave := pics.slave.data (pics.slave.mask &&& ~~~1) } := rfl

theorem disableIrq_pit (pics : Pics) : disableIrq (irq .pitIrqHandler) pics =
    { pics with master := pics.master.data (pics.master.mask ||| 1) } := rfl

theorem disableIrq_keyboard (pics : Pics) : disableIrq (irq .keyboardIrqHandler) pics =
    { pics with master := pics.master.data (pics.master.mask ||| 2) } := rfl

theorem disableIrq_rtc (pics : Pics) : disableIrq (irq .rtcIrqHandler) pics =
    { pics with slave := pics.slave.data (pics.slave.mask ||| 1) } := rfl

theorem only_first : Only 1 0 := by
  unfold Only
  decide

theorem only_second : Only 2 1 := by
  unfold Only
  decide

theorem Agrees.enable (agrees : Agrees pics lines) (device : Handler) :
    Agrees (enableIrq (irq device) pics) (lines.step (.enable device)) := by
  cases device with
  | pitIrqHandler =>
      rw [enableIrq_pit, Chip.data_mask agrees.masterExpects]
      exact { agrees with
        masterMasks := fun other => by
          rw [masks_clear only_first, agrees.masterMasks]
          cases here : other.val == 0 <;> simp [Lines.step] }
  | keyboardIrqHandler =>
      rw [enableIrq_keyboard, Chip.data_mask agrees.masterExpects]
      exact { agrees with
        masterMasks := fun other => by
          rw [masks_clear only_second, agrees.masterMasks]
          cases here : other.val == 1 <;> simp [Lines.step] }
  | rtcIrqHandler =>
      rw [enableIrq_rtc, Chip.data_mask agrees.slaveExpects]
      exact { agrees with
        slaveMasks := fun other => by
          rw [masks_clear only_first, agrees.slaveMasks]
          cases here : other.val == 0 <;> simp [Lines.step] }

theorem Agrees.disable (agrees : Agrees pics lines) (device : Handler) :
    Agrees (disableIrq (irq device) pics) (lines.step (.disable device)) := by
  cases device with
  | pitIrqHandler =>
      rw [disableIrq_pit, Chip.data_mask agrees.masterExpects]
      exact { agrees with
        masterMasks := fun other => by
          rw [masks_set only_first, agrees.masterMasks]
          rcases eq_or_ne other.val 0 with here | apart
          · simp [Lines.step, here]
          · simp [Lines.step, beq_false_of_ne apart] }
  | keyboardIrqHandler =>
      rw [disableIrq_keyboard, Chip.data_mask agrees.masterExpects]
      exact { agrees with
        masterMasks := fun other => by
          rw [masks_set only_second, agrees.masterMasks]
          rcases eq_or_ne other.val 1 with here | apart
          · simp [Lines.step, here]
          · simp [Lines.step, beq_false_of_ne apart] }
  | rtcIrqHandler =>
      rw [disableIrq_rtc, Chip.data_mask agrees.slaveExpects]
      exact { agrees with
        slaveMasks := fun other => by
          rw [masks_set only_first, agrees.slaveMasks]
          rcases eq_or_ne other.val 0 with here | apart
          · simp [Lines.step, here]
          · simp [Lines.step, beq_false_of_ne apart] }

/-- After `i8259_init`, whatever the chips were in the middle of. -/
theorem agrees_i8259Init (pics : Pics) :
    Agrees (i8259Init pics) ⟨fun _ => false, fun _ => false, []⟩ := by
  have master : ∀ line : Fin 8, (0xFB : UInt8).toBitVec.getLsbD line.val =
      !(line.val == 0 && false || line.val == 1 && false || line.val == 2) := by decide
  have slave : ∀ line : Fin 8, (0xFF : UInt8).toBitVec.getLsbD line.val = !(line.val == 0 && false) := by decide
  exact ⟨rfl, rfl, rfl, rfl, rfl, rfl, fun _ => rfl, fun _ => rfl, fun _ _ => rfl, fun _ => rfl, master, slave⟩

/-- The wrapper that calls the handler of a device. -/
def symbol : Handler → Symbol
  | .keyboardIrqHandler => .kbWrapper
  | .rtcIrqHandler => .rtcWrapper
  | .pitIrqHandler => .pitWrapper

theorem destination_vector (device : Handler) :
    destination ⟨(vector device).toNat, (vector device).toNat_lt⟩ = some (symbol device) := by
  cases device <;> rfl

theorem handlerOf_symbol (device : Handler) : handlerOf (symbol device) = some device := by
  cases device <;> rfl

structure Refines (state : State) (lines : Lines) : Prop where
  agrees : Agrees state.pics lines
  served : state.served = lines.served

variable {code : Nat → Option Symbol} {address : Symbol → UInt32}

theorem step_refines (linked : ∀ symbol, code (address symbol).toNat = some symbol) {state : State}
    (refines : Refines state lines) (happening : Happening) :
    ∃ next, step code (initIdt address fun _ => .zeros) state happening = some next ∧
      Refines next (lines.step happening) := by
  cases happening with
  | raise line =>
      refine ⟨_, rfl, refines.agrees.raise line, refines.served.trans ?_⟩
      simp only [Lines.step]
      split <;> rfl
  | enable device => exact ⟨_, rfl, refines.agrees.enable device, refines.served⟩
  | disable device => exact ⟨_, rfl, refines.agrees.disable device, refines.served⟩
  | interrupt =>
      cases found : Lines.order.find? lines.due with
      | none =>
          refine ⟨state, by rw [step, refines.agrees.acknowledge, found]; rfl, ?_⟩
          rw [Lines.step, Lines.serve, found]
          exact refines
      | some device =>
          have agrees := refines.agrees.serve found
          refine ⟨⟨_, state.served ++ [device]⟩, ?_, ⟨agrees, ?_⟩⟩
          · rw [step, refines.agrees.acknowledge, found]
            simp only [Option.map_some, deviceInterrupt_initIdt, destination_vector, Option.bind_some, handlerAddress,
              Option.getD_some, linked, handlerOf_symbol]
            rfl
          · rw [Lines.step, Lines.serve, found, refines.served]

/-! ## Runs -/

/-- Nobody waits, and nobody may interrupt. -/
def Lines.none : Lines := ⟨fun _ => false, fun _ => false, []⟩

theorem run_refines (linked : ∀ symbol, code (address symbol).toNat = some symbol) {state : State}
    (refines : Refines state lines) (happenings : List Happening) :
    ∃ final, Transition.run (step code (initIdt address fun _ => .zeros)) state happenings = some final ∧
      Refines final (happenings.foldl Lines.step lines) := by
  induction happenings generalizing state lines with
  | nil => exact ⟨state, rfl, refines⟩
  | cons happening rest ih =>
      obtain ⟨next, taken, refines⟩ := step_refines linked refines happening
      obtain ⟨final, ran, refines⟩ := ih refines
      exact ⟨final, by rw [Transition.run_cons, taken]; exact ran, refines⟩

/-- The wrappers, each at an address of its own. -/
def sampleAddress : Symbol → UInt32
  | .exception number => 0x400000 + UInt32.ofNat number.val
  | .systemcallWrapper => 0x400020
  | .kbWrapper => 0x400021
  | .rtcWrapper => 0x400022
  | .pitWrapper => 0x400023

def sampleCode (place : Nat) : Option Symbol :=
  ((List.finRange 20).map Symbol.exception ++
    [Symbol.systemcallWrapper, Symbol.kbWrapper, Symbol.rtcWrapper, Symbol.pitWrapper]).find?
    fun symbol => (sampleAddress symbol).toNat == place

theorem sample_linked (symbol : Symbol) : sampleCode (sampleAddress symbol).toNat = some symbol := by
  cases symbol with
  | exception number =>
      revert number
      decide
  | systemcallWrapper => rfl
  | kbWrapper => rfl
  | rtcWrapper => rfl
  | pitWrapper => rfl

def idlePic : Chip := ⟨0xFF, fun _ => false, fun _ => false, 0, 0, false, .mask⟩

/-- The keyboard is pressed before its line is enabled; the clock comes between. -/
def sampleHappenings : List Happening :=
  [.raise ⟨1, by decide⟩, .enable .pitIrqHandler, .raise ⟨0, by decide⟩, .interrupt, .interrupt,
    .enable .keyboardIrqHandler]

/-- From `i8259_init` on, whatever happens at the lines in whatever order, every interrupt that the processor takes
is that of the first device that waits and may interrupt; it leads to the handler of this device, which leaves no
interrupt in service. -/
theorem interrupts_reach_handlers (linked : ∀ symbol, code (address symbol).toNat = some symbol) (pics : Pics)
    (happenings : List Happening) :
    ∃ final, Transition.run (step code (initIdt address fun _ => .zeros)) ⟨i8259Init pics, []⟩ happenings =
        some final ∧
      final.served = (happenings.foldl Lines.step Lines.none).served ∧
      (∀ line, final.pics.master.inService line = false ∧ final.pics.slave.inService line = false) := by
  have refines : Refines ⟨i8259Init pics, []⟩ Lines.none := ⟨agrees_i8259Init pics, rfl⟩
  obtain ⟨final, ran, refines⟩ := run_refines linked refines happenings
  exact ⟨final, ran, refines.served, fun line => ⟨refines.agrees.masterIdle line, refines.agrees.slaveIdle line⟩⟩

theorem interrupts_reach_handlers_sample :
    (∀ symbol, sampleCode (sampleAddress symbol).toNat = some symbol) ∧
      ∃ final, Transition.run (step sampleCode (initIdt sampleAddress fun _ => .zeros))
          ⟨i8259Init ⟨idlePic, idlePic⟩, []⟩ sampleHappenings = some final ∧
        final.served = (sampleHappenings.foldl Lines.step Lines.none).served ∧
        (∀ line, final.pics.master.inService line = false ∧ final.pics.slave.inService line = false) :=
  ⟨sample_linked, interrupts_reach_handlers sample_linked ⟨idlePic, idlePic⟩ sampleHappenings⟩

/-- In a list without repetitions the first element with a property comes before the others that have it. -/
theorem filter_of_find {α : Type} [DecidableEq α] {list : List α} {p : α → Bool} {first : α} (once : list.Nodup)
    (found : list.find? p = some first) :
    list.filter p = first :: list.filter fun other => p other && !decide (other = first) := by
  induction list with
  | nil => cases found
  | cons head rest ih =>
      obtain ⟨fresh, once⟩ := List.nodup_cons.mp once
      cases holds : p head with
      | false =>
          rw [List.find?_cons_of_neg (by simp [holds])] at found
          simp [holds, ih once found]
      | true =>
          rw [List.find?_cons_of_pos holds] at found
          obtain rfl := Option.some.inj found
          rw [List.filter_cons_of_pos holds, List.filter_cons_of_neg (by simp)]
          refine congrArg _ (List.filter_congr fun other member => ?_)
          have apart : other ≠ head := fun same => fresh (same ▸ member)
          simp [apart]

namespace Lines

/-- One interrupt serves the first device that is due, and nothing else changes. -/
theorem serve_found {device : Handler} (found : order.find? lines.due = some device) :
    lines.serve.served = lines.served ++ [device] ∧
      lines.serve.due = fun other => lines.due other && !decide (other = device) := by
  rw [serve, found]
  refine ⟨rfl, funext fun other => ?_⟩
  rcases eq_or_ne other device with rfl | apart
  · simp [due]
  · have lines : line other ≠ line device := by
      cases other <;> cases device <;> first | exact absurd rfl apart | decide
    simp [due, update_of_ne lines, apart]

theorem serve_none (idle : order.find? lines.due = Option.none) : lines.serve = lines := by
  rw [serve, idle]

/-- The devices that are due, each once and in order, are those an interrupt serves and those it leaves. -/
theorem serve_filter (lines : Lines) :
    lines.serve.served ++ order.filter lines.serve.due = lines.served ++ order.filter lines.due ∧
      (order.filter lines.serve.due).length = (order.filter lines.due).length - 1 := by
  cases found : order.find? lines.due with
  | none =>
      have empty : order.filter lines.due = [] := List.filter_eq_nil_iff.mpr (List.find?_eq_none.mp found)
      rw [serve_none found, empty]
      exact ⟨rfl, rfl⟩
  | some device =>
      obtain ⟨served, due⟩ := serve_found found
      rw [served, due, filter_of_find (by decide) found, List.append_assoc]
      exact ⟨rfl, rfl⟩

/-- So three of them serve all. -/
theorem serve_thrice (lines : Lines) :
    lines.serve.serve.serve.served = lines.served ++ order.filter lines.due ∧
      order.filter lines.serve.serve.serve.due = [] := by
  obtain ⟨first, _⟩ := lines.serve_filter
  obtain ⟨second, _⟩ := lines.serve.serve_filter
  obtain ⟨third, last⟩ := lines.serve.serve.serve_filter
  have few : (order.filter lines.due).length ≤ 3 := List.length_filter_le _ _
  have empty : order.filter lines.serve.serve.serve.due = [] := List.length_eq_zero_iff.mp (by grind)
  refine ⟨?_, empty⟩
  rw [empty, List.append_nil] at third
  rw [third, second, first]

/-- Whether the line of a device is raised. -/
def raises (device : Handler) : Happening → Bool
  | .raise other => decide (other = line device)
  | _ => false

theorem line_injective : Function.Injective line := by
  intro device other
  cases device <;> cases other <;> simp [line]

/-- How often a device has been served, and once more when its line waits. -/
def demanded (lines : Lines) (device : Handler) : Nat :=
  lines.served.count device + (lines.waiting (line device)).toNat

/-- Only its own line makes a demand of a device. -/
theorem demanded_step (lines : Lines) (device : Handler) (happening : Happening) :
    (lines.step happening).demanded device ≤ lines.demanded device + (raises device happening).toNat := by
  cases happening with
  | raise other =>
      simp only [step]
      split
      · exact Nat.le_add_right _ _
      · rcases eq_or_ne (line device) other with rfl | apart
        · simp [demanded, raises]
        · simp [demanded, raises, update_of_ne apart, apart.symm]
  | enable other => exact Nat.le_add_right _ _
  | disable other => exact Nat.le_add_right _ _
  | interrupt =>
      simp only [step, serve]
      cases found : order.find? lines.due with
      | none => exact Nat.le_add_right _ _
      | some other =>
          have due : lines.waiting (line other) = true := by
            have due := List.find?_some found
            simp only [Lines.due, Bool.and_eq_true] at due
            exact due.1
          rcases eq_or_ne device other with rfl | apart
          · simp [demanded, due]
          · simp [demanded, update_of_ne (line_injective.ne apart), apart.symm]

theorem demanded_run (lines : Lines) (device : Handler) (happenings : List Happening) :
    (happenings.foldl step lines).demanded device ≤ lines.demanded device + happenings.countP (raises device) := by
  induction happenings generalizing lines with
  | nil => exact Nat.le_refl _
  | cons happening rest ih =>
      have once := lines.demanded_step device happening
      have later := ih (lines.step happening)
      rw [List.foldl_cons, List.countP_cons]
      have counted : (if raises device happening then 1 else 0) = (raises device happening).toNat := by
        cases raises device happening <;> rfl
      rw [counted]
      calc ((rest.foldl step (lines.step happening)).demanded device)
        _ ≤ (lines.step happening).demanded device + rest.countP (raises device) := later
        _ ≤ lines.demanded device + (raises device happening).toNat + rest.countP (raises device) :=
            Nat.add_le_add_right once _
        _ = lines.demanded device + (rest.countP (raises device) + (raises device happening).toNat) := by omega

end Lines

/-- A device whose request is at its chip and whose line is not masked there. -/
def Pics.wants (pics : Pics) : Handler → Bool
  | .pitIrqHandler => pics.master.requested ⟨0, by decide⟩ && !pics.master.masks ⟨0, by decide⟩
  | .keyboardIrqHandler => pics.master.requested ⟨1, by decide⟩ && !pics.master.masks ⟨1, by decide⟩
  | .rtcIrqHandler => pics.slave.requested ⟨0, by decide⟩ && !pics.slave.masks ⟨0, by decide⟩

theorem Agrees.wants (agrees : Agrees pics lines) : pics.wants = lines.due := by
  funext device
  cases device with
  | pitIrqHandler =>
      rw [Pics.wants, agrees.masterRequested _ (by decide), agrees.masterMasks, Bool.not_not]
      simp [Lines.due, line, onMaster]
  | keyboardIrqHandler =>
      rw [Pics.wants, agrees.masterRequested _ (by decide), agrees.masterMasks, Bool.not_not]
      simp [Lines.due, line, onMaster]
  | rtcIrqHandler =>
      rw [Pics.wants, agrees.slaveRequested, agrees.slaveMasks, Bool.not_not]
      rfl

/-- From `i8259_init` on, whatever happened in whatever order: three interrupts more serve every device whose request
is at its chip and not masked, once and in order, and leave none of them; and no device has been served more often
than its line has been raised. -/
theorem no_interrupt_is_lost (linked : ∀ symbol, code (address symbol).toNat = some symbol) (pics : Pics)
    (happenings : List Happening) :
    ∃ final later, Transition.run (step code (initIdt address fun _ => .zeros)) ⟨i8259Init pics, []⟩ happenings =
        some final ∧
      Transition.run (step code (initIdt address fun _ => .zeros)) final [.interrupt, .interrupt, .interrupt] =
        some later ∧
      later.served = final.served ++ Lines.order.filter final.pics.wants ∧
      (∀ device, later.pics.wants device = false) ∧
      ∀ device, later.served.count device ≤ happenings.countP (Lines.raises device) := by
  have start : Refines ⟨i8259Init pics, []⟩ Lines.none := ⟨agrees_i8259Init pics, rfl⟩
  obtain ⟨final, ran, before⟩ := run_refines linked start happenings
  obtain ⟨later, ranLater, after⟩ := run_refines linked before [.interrupt, .interrupt, .interrupt]
  obtain ⟨served, idle⟩ := (happenings.foldl Lines.step Lines.none).serve_thrice
  refine ⟨final, later, ran, ranLater, ?_, fun device => ?_, fun device => ?_⟩
  · rw [after.served, before.served, before.agrees.wants]
    exact served
  · rw [after.agrees.wants]
    have member : device ∈ Lines.order := by cases device <;> decide
    exact Bool.eq_false_iff.mpr (List.filter_eq_nil_iff.mp idle device member)
  · have demanded := Lines.none.demanded_run device (happenings ++ [.interrupt, .interrupt, .interrupt])
    have nothing : Lines.none.demanded device = 0 := rfl
    have others : List.countP (Lines.raises device) [.interrupt, .interrupt, .interrupt] = 0 := rfl
    rw [List.foldl_append, List.countP_append, nothing, others, Nat.zero_add, Nat.add_zero] at demanded
    rw [after.served]
    exact (Nat.le_add_right _ _).trans demanded

theorem no_interrupt_is_lost_sample :
    (∀ symbol, sampleCode (sampleAddress symbol).toNat = some symbol) ∧
      ∃ final later, Transition.run (step sampleCode (initIdt sampleAddress fun _ => .zeros))
          ⟨i8259Init ⟨idlePic, idlePic⟩, []⟩ sampleHappenings = some final ∧
        Transition.run (step sampleCode (initIdt sampleAddress fun _ => .zeros)) final
          [.interrupt, .interrupt, .interrupt] = some later ∧
        later.served = final.served ++ Lines.order.filter final.pics.wants ∧
        (∀ device, later.pics.wants device = false) ∧
        ∀ device, later.served.count device ≤ sampleHappenings.countP (Lines.raises device) :=
  ⟨sample_linked, no_interrupt_is_lost sample_linked ⟨idlePic, idlePic⟩ sampleHappenings⟩

end

end LinuxLikeOS.InterruptController
