import LinuxLikeOS.Output
import LinuxLikeOS.Traced

/-!
# The bytes of the page that are accessed

The functions that write to the screen, statement by statement, with the offset of every byte of
the visible page and the index of every entry of `line_tracker` that is read or written. They
do what the functions on `Screen` do, so the cursors stay on their pages, and from that follow
the bounds of all accesses.
-/

namespace LinuxLikeOS.ScreenAccess

open Function Traced

/-- A byte from `VIDEO` on, or an entry of `line_tracker`. -/
inductive Place where
  | video (offset : Int)
  | tracker (index : Int)

/-- The variables of `lib.c` and the pages; every page is indexed from its start. -/
structure Display where
  videoMem : Int → UInt8
  videoPages : Terminal → Int → UInt8
  screenX : Terminal → Int
  screenY : Terminal → Int
  lineTracker : Int → Int
  currentTerminal : Terminal
  /-- `pos` of the last `update_cursor`, whose two bytes go to the cursor registers. -/
  pos : Option UInt16

namespace Display

variable (display : Display)

def x : Int := display.screenX display.currentTerminal

def y : Int := display.screenY display.currentTerminal

def setX (x : Int) : Display :=
  { display with screenX := update display.screenX display.currentTerminal x }

def setY (y : Int) : Display :=
  { display with screenY := update display.screenY display.currentTerminal y }

@[simp] theorem x_setX (x : Int) : (display.setX x).x = x := update_self ..

@[simp] theorem y_setY (y : Int) : (display.setY y).y = y := update_self ..

def updateCursor (x y : Int) : Display := { display with pos := some (UInt16.ofInt (y * 80 + x)) }

end Display

def store (offset : Int) (byte : UInt8) (display : Display) : Traced Place Display := do
  access (.video offset)
  return { display with videoMem := update display.videoMem offset byte }

def track (index value : Int) (display : Display) : Traced Place Display := do
  access (.tracker index)
  return { display with lineTracker := update display.lineTracker index value }

/-- A character and `ATTRIB` in the cell under the cursor. -/
def storeCell (c : UInt8) (display : Display) : Traced Place Display := do
  let display ← store ((80 * display.y + display.x) * 2) c display
  store ((80 * display.y + display.x) * 2 + 1) 7 display

def clear (display : Display) : Traced Place Display :=
  loop (fun i display => do
    let display ← store (i * 2) 32 display
    store (i * 2 + 1) 7 display) 0 (25 * 80) display

/-- The three loops of `scroll_screen`, one round each. -/
def moveUp (i : Nat) (display : Display) : Traced Place Display := do
  access (.video ((i + 80) * 2))
  store (i * 2) (display.videoMem ((i + 80) * 2)) display

def blank (i : Nat) (display : Display) : Traced Place Display := store ((80 * display.y + i) * 2) 32 display

def shift (i : Nat) (display : Display) : Traced Place Display := do
  access (.tracker (i + 1))
  track i (display.lineTracker (i + 1)) display

def scrollScreen (display : Display) : Traced Place Display := do
  let display ← loop moveUp 0 (24 * 80) display
  let display ← loop blank 0 80 (display.setY 24)
  let display ← loop shift 0 24 display
  track 24 0 display

/-- The end of `putc`. -/
def settle (display : Display) : Traced Place Display := do
  let display ← if display.y = 25 then scrollScreen display else pure display
  return display.updateCursor display.x display.y

/-- `putc` of a byte other than NUL and tab. -/
def putPlain (c : UInt8) (display : Display) : Traced Place Display :=
  if c = 10 ∨ c = 13 then do
    let display ← track display.y display.x display
    settle ((display.setY (display.y + 1)).setX 0)
  else do
    let display ← storeCell c display
    let display := display.setX (Int.tmod (display.x + 1) 80)
    if display.x = 0 then
      let display ← track display.y 79 display
      settle (display.setY (display.y + 1))
    else settle display

def putc (c : UInt8) (display : Display) : Traced Place Display :=
  if c = 0 then pure display
  else if c = 9 then loop (fun _ => putPlain 32) 0 5 display >>= settle
  else putPlain c display

def delC (display : Display) : Traced Place Display :=
  if display.x = 0 then
    if display.y > 0 then do
      let display := display.setY (display.y - 1)
      access (.tracker display.y)
      let display ← storeCell 32 (display.setX (display.lineTracker display.y))
      return display.updateCursor display.x display.y
    else pure display
  else do
    let display ← storeCell 32 (display.setX (display.x - 1))
    return display.updateCursor display.x display.y

def clearScreen (display : Display) : Traced Place Display := do
  let display ← clear display
  let display := (display.setX 0).setY 0
  return display.updateCursor display.x display.y

/-- A byte of each of the two `memcpy`s. -/
def savePage (i : Nat) (display : Display) : Traced Place Display := do
  access (.video i)
  return { display with
    videoPages := update display.videoPages display.currentTerminal
      (update (display.videoPages display.currentTerminal) i (display.videoMem i)) }

def restorePage (i : Nat) (display : Display) : Traced Place Display :=
  store i (display.videoPages display.currentTerminal i) display

def openTerminal (terminalId : Int) (display : Display) : Traced Place Display :=
  if valid : 0 ≤ terminalId ∧ terminalId < 3 ∧ terminalId ≠ display.currentTerminal then do
    let display ← loop savePage 0 0x1000 display
    let display ← loop restorePage 0 0x1000 { display with currentTerminal := ⟨terminalId.toNat, by omega⟩ }
    return display.updateCursor display.x display.y
  else pure display

/-- Everything as it is loaded; the pages hold whatever the memory holds. -/
def boot (videoMem : Int → UInt8) (videoPages : Terminal → Int → UInt8) : Display :=
  ⟨videoMem, videoPages, fun _ => 0, fun _ => 0, fun _ => 0, 0, none⟩

/-! ## What the variables stand for -/

/-- The variables hold the screen; the position is known once it has been sent. -/
structure Holds (display : Display) (screen : Screen) (current : Terminal) : Prop where
  video : ∀ offset : Nat, display.videoMem offset = screen.video offset
  pages : ∀ terminal, ∀ offset : Nat, display.videoPages terminal offset = screen.saved terminal offset
  screenX : ∀ terminal, display.screenX terminal = screen.screenX terminal
  screenY : ∀ terminal, display.screenY terminal = screen.screenY terminal
  tracker : ∀ row : Nat, display.lineTracker row = screen.lineTracker row
  current : display.currentTerminal = current
  pos : ∀ pos, display.pos = some pos → pos.toNat = screen.cursor

/-- A byte before `limit`, or one of the 25 rows. -/
def Place.Inside (limit : Nat) : Place → Prop
  | .video offset => 0 ≤ offset ∧ offset < limit
  | .tracker index => 0 ≤ index ∧ index < 25

section

variable {display : Display} {screen : Screen} {current : Terminal} {limit : Nat}

theorem Holds.x (holds : Holds display screen current) : display.x = screen.screenX current := by
  unfold Display.x
  rw [holds.current, holds.screenX]

theorem Holds.y (holds : Holds display screen current) : display.y = screen.screenY current := by
  unfold Display.y
  rw [holds.current, holds.screenY]

theorem natCast_injective : Injective (fun n : Nat => (n : Int)) := fun _ _ equal => Int.ofNat_inj.mp equal

/-- An update of an array, seen through other indices and values. -/
theorem update_through {ι κ α β : Type} [DecidableEq ι] [DecidableEq κ] {wide : ι → α} {narrow : κ → β}
    {place : κ → ι} (embed : β → α) (injective : Injective place)
    (same : ∀ index, wide (place index) = embed (narrow index)) (here : κ) (value : β) (index : κ) :
    update wide (place here) (embed value) (place index) = embed (update narrow here value index) := by
  rcases eq_or_ne index here with rfl | other
  · rw [update_self, update_self]
  · rw [update_of_ne other, update_of_ne (fun equal => other (injective equal)), same]

theorem Holds.setX (holds : Holds display screen current) {x : Int} (column : Nat) (this : x = column) :
    Holds (display.setX x) { screen with screenX := update screen.screenX current column } current := by
  subst this
  obtain rfl := holds.current
  exact ⟨holds.video, holds.pages, update_through Int.ofNat injective_id holds.screenX _ column,
    holds.screenY, holds.tracker, rfl, holds.pos⟩

theorem Holds.setY (holds : Holds display screen current) {y : Int} (row : Nat) (this : y = row) :
    Holds (display.setY y) { screen with screenY := update screen.screenY current row } current := by
  subst this
  obtain rfl := holds.current
  exact ⟨holds.video, holds.pages, holds.screenX,
    update_through Int.ofNat injective_id holds.screenY _ row, holds.tracker, rfl, holds.pos⟩

theorem Holds.updateCursor (holds : Holds display screen current) :
    Holds (display.updateCursor display.x display.y)
      (screen.updateCursor (screen.screenX current) (screen.screenY current)) current := by
  refine ⟨holds.video, holds.pages, holds.screenX, holds.screenY, holds.tracker, holds.current, ?_⟩
  intro pos sent
  obtain rfl := Option.some.inj sent
  rw [holds.x, holds.y]
  have position : ((screen.screenY current : Int) * 80 + screen.screenX current) =
      ((screen.screenY current * 80 + screen.screenX current : Nat) : Int) := by
    push_cast
    rfl
  rw [position]
  show (UInt16.ofInt _).toNat = (screen.screenY current * 80 + screen.screenX current) % 2 ^ 16
  rw [UInt16.ofInt, UInt16.toNat_ofNat']
  omega

theorem ensures_store (holds : Holds display screen current) {place : Int} (offset : Nat) (here : place = offset)
    (inside : offset < limit) (byte : UInt8) :
    Ensures (Place.Inside limit)
      (Holds · { screen with video := update screen.video offset byte } current) (store place byte display) := by
  subst here
  refine ensures_access_bind ?_ (ensures_pure ?_)
  · exact ⟨Int.natCast_nonneg offset, Int.ofNat_lt.mpr inside⟩
  · exact ⟨update_through id natCast_injective holds.video offset byte, holds.pages, holds.screenX, holds.screenY,
      holds.tracker, holds.current, holds.pos⟩

theorem ensures_track (holds : Holds display screen current) {index value : Int} (row column : Nat)
    (here : index = row) (this : value = column) (inside : row < 25) :
    Ensures (Place.Inside limit)
      (Holds · { screen with lineTracker := update screen.lineTracker row column } current)
      (track index value display) := by
  subst here this
  refine ensures_access_bind ?_ (ensures_pure ?_)
  · exact ⟨Int.natCast_nonneg row, Int.ofNat_lt.mpr inside⟩
  · exact ⟨holds.video, holds.pages, holds.screenX, holds.screenY,
      update_through Int.ofNat natCast_injective holds.tracker row column, holds.current, holds.pos⟩

theorem ensures_storeCell (holds : Holds display screen current) (onPage : screen.OnPage current) (c : UInt8) :
    Ensures (Place.Inside 4000) (Holds · (screen.storeCell current c) current) (storeCell c display) := by
  obtain ⟨inside, bottom⟩ := onPage
  have cell : (80 * display.y + display.x) * 2 = (2 * (80 * screen.screenY current + screen.screenX current) : Nat) := by
    rw [holds.x, holds.y]
    push_cast
    omega
  refine (ensures_store holds _ cell (by omega) c).bind fun next stored => ?_
  have second : (80 * next.y + next.x) * 2 + 1 =
      (2 * (80 * screen.screenY current + screen.screenX current) + 1 : Nat) := by
    rw [stored.x, stored.y]
    push_cast
    omega
  exact ensures_store stored _ second (by omega) 7

/-! ## Loops over the page -/

/-- `clear` after `i` cells. -/
def clearedTo (video : Memory) (i : Nat) : Memory :=
  fun offset => if offset < 2 * i then (if offset % 2 = 0 then 32 else 7) else video offset

theorem clearedTo_succ (video : Memory) (i : Nat) :
    update (update (clearedTo video i) (2 * i) 32) (2 * i + 1) 7 = clearedTo video (i + 1) := by
  funext offset
  simp only [clearedTo, update_apply]
  grind

/-- The copy of `scroll_screen` after `i` characters. -/
def movedUpTo (video : Memory) (i : Nat) : Memory :=
  fun offset => if offset < 2 * i ∧ offset % 2 = 0 then video (offset + 2 * 80) else video offset

theorem movedUpTo_zero (video : Memory) : movedUpTo video 0 = video := by
  funext offset
  exact if_neg (by omega)

theorem movedUpTo_succ (video : Memory) (i : Nat) :
    update (movedUpTo video i) (2 * i) (movedUpTo video i (2 * (i + 80))) = movedUpTo video (i + 1) := by
  funext offset
  simp only [movedUpTo, update_apply]
  grind

/-- The last row after `i` spaces. -/
def blankedTo (video : Memory) (i : Nat) : Memory :=
  fun offset => if 2 * (80 * 24) ≤ offset ∧ offset < 2 * (80 * 24 + i) ∧ offset % 2 = 0 then 32 else video offset

theorem blankedTo_zero (video : Memory) : blankedTo video 0 = video := by
  funext offset
  exact if_neg (by omega)

theorem blankedTo_succ (video : Memory) (i : Nat) :
    update (blankedTo video i) (2 * (80 * 24 + i)) 32 = blankedTo video (i + 1) := by
  funext offset
  simp only [blankedTo, update_apply]
  grind

/-- `line_tracker` after `i` entries have moved. -/
def shiftedTo (tracker : Nat → Nat) (i : Nat) : Nat → Nat :=
  fun row => if row < i then tracker (row + 1) else tracker row

theorem shiftedTo_succ (tracker : Nat → Nat) (i : Nat) :
    update (shiftedTo tracker i) i (shiftedTo tracker i (i + 1)) = shiftedTo tracker (i + 1) := by
  funext row
  simp only [shiftedTo, update_apply]
  grind

theorem ensures_clear (holds : Holds display screen current) :
    Ensures (Place.Inside 4000) (Holds · screen.clear current) (clear display) := by
  refine ensures_loop_zero
    (fun i display => Holds display { screen with video := clearedTo screen.video i } current) holds ?_
  intro i below display holds
  have first : (i : Int) * 2 = (2 * i : Nat) := by omega
  have second : (i : Int) * 2 + 1 = (2 * i + 1 : Nat) := by omega
  rw [← clearedTo_succ]
  refine (ensures_store holds _ first (by omega) 32).bind fun next stored => ?_
  exact ensures_store stored _ second (by omega) 7

theorem ensures_moveUp (holds : Holds display screen current) :
    Ensures (Place.Inside 4000) (Holds · { screen with video := movedUpTo screen.video (24 * 80) } current)
      (loop moveUp 0 (24 * 80) display) := by
  refine ensures_loop_zero
    (fun i display => Holds display { screen with video := movedUpTo screen.video i } current) ?_ ?_
  · rw [movedUpTo_zero]
    exact holds
  · intro i below display holds
    have source : ((i : Int) + 80) * 2 = (2 * (i + 80) : Nat) := by omega
    have target : (i : Int) * 2 = (2 * i : Nat) := by omega
    have read : display.videoMem (((i : Int) + 80) * 2) = movedUpTo screen.video i (2 * (i + 80)) := by
      rw [source]
      exact holds.video _
    rw [← movedUpTo_succ]
    refine ensures_access_bind ⟨by omega, by omega⟩ ?_
    rw [read]
    exact ensures_store holds _ target (by omega) _

theorem ensures_blank (holds : Holds display screen current) (last : screen.screenY current = 24) :
    Ensures (Place.Inside 4000) (Holds · { screen with video := blankedTo screen.video 80 } current)
      (loop blank 0 80 display) := by
  refine ensures_loop_zero
    (fun i display => Holds display { screen with video := blankedTo screen.video i } current) ?_ ?_
  · rw [blankedTo_zero]
    exact holds
  · intro i below display holds
    have target : (80 * display.y + (i : Int)) * 2 = (2 * (80 * 24 + i) : Nat) := by
      rw [holds.y, last]
      omega
    rw [← blankedTo_succ]
    exact ensures_store holds _ target (by omega) 32

theorem ensures_shift (holds : Holds display screen current) :
    Ensures (Place.Inside 4000) (Holds · { screen with lineTracker := shiftedTo screen.lineTracker 24 } current)
      (loop shift 0 24 display) := by
  refine ensures_loop_zero
    (fun i display => Holds display { screen with lineTracker := shiftedTo screen.lineTracker i } current) holds ?_
  intro i below display holds
  rw [← shiftedTo_succ]
  refine ensures_access_bind ⟨by omega, by omega⟩ ?_
  exact ensures_track holds i _ rfl (holds.tracker (i + 1)) (by omega)

theorem ensures_scrollScreen (holds : Holds display screen current) :
    Ensures (Place.Inside 4000) (Holds · (screen.scrollScreen current) current) (scrollScreen display) := by
  refine (ensures_moveUp holds).bind fun copied moved => ?_
  refine (ensures_blank (moved.setY 24 rfl) (update_self ..)).bind fun blank blanked => ?_
  refine (ensures_shift blanked).bind fun short shifted => ?_
  refine (ensures_track shifted 24 0 rfl rfl (by omega)).imp fun final holds => ?_
  have tracker : update (shiftedTo screen.lineTracker 24) 24 0 = (screen.scrollScreen current).lineTracker := by
    funext row
    simp only [shiftedTo, update_apply, Screen.scrollScreen]
    grind
  rw [tracker] at holds
  exact holds

/-! ## Operations -/

theorem ensures_settle (holds : Holds display screen current) :
    Ensures (Place.Inside 4000) (Holds · (screen.settle current) current) (settle display) := by
  have last : display.y = 25 ↔ screen.screenY current = 25 := by
    rw [holds.y]
    exact Int.ofNat_inj
  unfold settle Screen.settle
  by_cases full : screen.screenY current = 25
  · rw [if_pos (last.mpr full), if_pos full]
    exact (ensures_scrollScreen holds).bind fun _ scrolled => ensures_pure scrolled.updateCursor
  · rw [if_neg (fun equal => full (last.mp equal)), if_neg full]
    exact ensures_pure holds.updateCursor

theorem ensures_putPlain (holds : Holds display screen current) (onPage : screen.OnPage current) (c : UInt8) :
    Ensures (Place.Inside 4000) (Holds · (screen.putPlain current c) current) (putPlain c display) := by
  obtain ⟨inside, bottom⟩ := onPage
  unfold putPlain Screen.putPlain
  by_cases newline : c = 10 ∨ c = 13
  · rw [if_pos newline, if_pos newline]
    refine (ensures_track holds _ _ holds.y holds.x bottom).bind fun next tracked => ?_
    have down : next.y + 1 = (screen.screenY current + 1 : Nat) := congrArg (· + 1) tracked.y
    exact ensures_settle ((tracked.setY _ down).setX 0 rfl)
  · rw [if_neg newline, if_neg newline]
    refine (ensures_storeCell holds ⟨inside, bottom⟩ c).bind fun next stored => ?_
    have right : Int.tmod (next.x + 1) 80 = ((screen.screenX current + 1) % 80 : Nat) := by
      rw [stored.x]
      exact Int.ofNat_tmod (screen.screenX current + 1) 80
    have moved := stored.setX _ right
    have column : (next.setX (Int.tmod (next.x + 1) 80)).x = 0 ↔ (screen.screenX current + 1) % 80 = 0 := by
      rw [Display.x_setX, right]
      exact Int.ofNat_inj
    simp only []
    by_cases wraps : (screen.screenX current + 1) % 80 = 0
    · rw [if_pos wraps, if_pos (column.mpr wraps)]
      refine (ensures_track moved _ 79 moved.y rfl bottom).bind fun last tracked => ?_
      have down : last.y + 1 = (screen.screenY current + 1 : Nat) := congrArg (· + 1) tracked.y
      exact ensures_settle (tracked.setY _ down)
    · rw [if_neg wraps, if_neg (fun equal => wraps (column.mp equal))]
      exact ensures_settle moved

theorem ensures_putc (holds : Holds display screen current) (tidy : screen.Tidy) (c : UInt8) :
    Ensures (Place.Inside 4000) (Holds · (screen.putc current c) current) (putc c display) := by
  unfold putc Screen.putc
  by_cases nul : c = 0
  · rw [if_pos nul, if_pos nul]
    exact ensures_pure holds
  · rw [if_neg nul, if_neg nul]
    by_cases tab : c = 9
    · rw [if_pos tab, if_pos tab]
      refine Ensures.bind (ensures_loop_zero (fun i display => Holds display (screen.spaces current i) current)
        holds ?_) fun _ spaced => ensures_settle spaced
      intro i _ display spaced
      rw [Screen.spaces_succ]
      exact ensures_putPlain spaced ((tidy.spaces current i).onPage current) 32
    · rw [if_neg tab, if_neg tab]
      exact ensures_putPlain holds (tidy.onPage current) c

/-- The character before the cursor is erased where the cursor has gone. -/
theorem ensures_erase (holds : Holds display screen current) (onPage : screen.OnPage current) :
    Ensures (Place.Inside 4000)
      (Holds · ((screen.storeCell current 32).updateCursor (screen.screenX current) (screen.screenY current)) current)
      (do
        let display ← storeCell 32 display
        return display.updateCursor display.x display.y) :=
  (ensures_storeCell holds onPage 32).bind fun _ stored => ensures_pure stored.updateCursor

theorem ensures_delC (holds : Holds display screen current) (tidy : screen.Tidy) :
    Ensures (Place.Inside 4000) (Holds · (screen.delC current) current) (delC display) := by
  obtain ⟨inside, bottom⟩ := tidy.onPage current
  have x := holds.x
  have y := holds.y
  unfold delC Screen.delC
  by_cases first : screen.screenX current = 0
  · have start : display.x = 0 := by omega
    rw [if_pos start, if_pos first]
    by_cases below : screen.screenY current > 0
    · have under : display.y > 0 := by omega
      rw [if_pos under, if_pos below]
      have row : display.y - 1 = (screen.screenY current - 1 : Nat) := by omega
      have up := holds.setY _ row
      have column : (display.setY (display.y - 1)).lineTracker (display.y - 1) =
          screen.lineTracker (screen.screenY current - 1) := by
        rw [row]
        exact holds.tracker _
      have onPage : Screen.OnPage { screen with
          screenY := update screen.screenY current (screen.screenY current - 1)
          screenX := update screen.screenX current (screen.lineTracker (screen.screenY current - 1)) } current := by
        simp only [Screen.OnPage, update_self]
        exact ⟨tidy.tracker _, by omega⟩
      have erased := ensures_erase (up.setX _ column) onPage
      simp only [update_self] at erased
      simp only [Display.y_setY]
      exact ensures_access_bind ⟨by omega, by omega⟩ erased
    · have top : ¬ display.y > 0 := by omega
      rw [if_neg top, if_neg below]
      exact ensures_pure holds
  · have later : ¬ display.x = 0 := by omega
    rw [if_neg later, if_neg first]
    have column : display.x - 1 = (screen.screenX current - 1 : Nat) := by omega
    have onPage : Screen.OnPage { screen with
        screenX := update screen.screenX current (screen.screenX current - 1) } current := by
      simp only [Screen.OnPage, update_self]
      exact ⟨by omega, bottom⟩
    have erased := ensures_erase (holds.setX _ column) onPage
    simp only [update_self] at erased
    exact erased

theorem ensures_clearScreen (holds : Holds display screen current) :
    Ensures (Place.Inside 4000) (Holds · (screen.clearScreen current) current) (clearScreen display) := by
  refine (ensures_clear holds).bind fun next cleared => ensures_pure ?_
  have home := ((cleared.setX 0 rfl).setY 0 rfl).updateCursor
  simp only [update_self] at home
  exact home

/-- A page of which `i` bytes have been copied. -/
def copiedTo (source target : Memory) (i : Nat) : Memory :=
  fun offset => if offset < i then source offset else target offset

theorem copiedTo_zero (source target : Memory) : copiedTo source target 0 = target := by
  funext offset
  exact if_neg (Nat.not_lt_zero offset)

theorem copiedTo_succ (source target : Memory) (i : Nat) :
    update (copiedTo source target i) i (source i) = copiedTo source target (i + 1) := by
  funext offset
  simp only [copiedTo, update_apply]
  grind

theorem ensures_savePage (holds : Holds display screen current) :
    Ensures (Place.Inside 4096)
      (Holds · { screen with
        saved := update screen.saved current (copiedTo screen.video (screen.saved current) 0x1000) } current)
      (loop savePage 0 0x1000 display) := by
  refine ensures_loop_zero (fun i display => Holds display { screen with
    saved := update screen.saved current (copiedTo screen.video (screen.saved current) i) } current) ?_ ?_
  · rw [copiedTo_zero, update_eq_self]
    exact holds
  · intro i below display holds
    refine ensures_access_bind ⟨by omega, by omega⟩ (ensures_pure ?_)
    obtain rfl := holds.current
    refine ⟨holds.video, fun terminal offset => ?_, holds.screenX, holds.screenY, holds.tracker, rfl, holds.pos⟩
    rw [← copiedTo_succ]
    rcases eq_or_ne terminal display.currentTerminal with rfl | other
    · have page : ∀ offset : Nat, display.videoPages display.currentTerminal offset =
          copiedTo screen.video (screen.saved display.currentTerminal) i offset := by
        intro offset
        have kept := holds.pages display.currentTerminal offset
        simpa only [update_self] using kept
      have stored := update_through id natCast_injective page i (screen.video i) offset
      simp only [update_self]
      rw [holds.video i]
      exact stored
    · have page := holds.pages terminal offset
      simp only [update_of_ne other] at page ⊢
      exact page

theorem ensures_restorePage (holds : Holds display screen current) :
    Ensures (Place.Inside 4096)
      (Holds · { screen with video := copiedTo (screen.saved current) screen.video 0x1000 } current)
      (loop restorePage 0 0x1000 display) := by
  refine ensures_loop_zero
    (fun i display => Holds display { screen with video := copiedTo (screen.saved current) screen.video i } current)
    ?_ ?_
  · rw [copiedTo_zero]
    exact holds
  · intro i below display holds
    have read : display.videoPages display.currentTerminal i = screen.saved current i := by
      rw [holds.current]
      exact holds.pages current i
    rw [← copiedTo_succ]
    unfold restorePage
    rw [read]
    exact ensures_store holds i rfl (by omega) _

theorem ensures_openTerminal {console : Console} (holds : Holds display console.screen console.currentTerminal)
    (terminalId : Int) :
    Ensures (Place.Inside 4096)
      (Holds · (console.openTerminal terminalId).screen (console.openTerminal terminalId).currentTerminal)
      (openTerminal terminalId display) := by
  have current := holds.current
  unfold openTerminal Console.openTerminal
  by_cases valid : 0 ≤ terminalId ∧ terminalId < 3 ∧ terminalId ≠ console.currentTerminal
  · have here : 0 ≤ terminalId ∧ terminalId < 3 ∧ terminalId ≠ display.currentTerminal := by rwa [current]
    rw [dif_pos here, dif_pos valid]
    refine (ensures_savePage holds).bind fun saved kept => ?_
    have next : Holds { saved with currentTerminal := ⟨terminalId.toNat, by omega⟩ } _ ⟨terminalId.toNat, by omega⟩ :=
      ⟨kept.video, kept.pages, kept.screenX, kept.screenY, kept.tracker, rfl, kept.pos⟩
    exact (ensures_restorePage next).bind fun _ shown => ensures_pure shown.updateCursor
  · have here : ¬ (0 ≤ terminalId ∧ terminalId < 3 ∧ terminalId ≠ display.currentTerminal) := by rwa [current]
    rw [dif_neg here, dif_neg valid]
    exact ensures_pure holds

/-! ## Runs -/

end

inductive Operation where
  | putc (c : UInt8)
  | delC
  | clearScreen
  | openTerminal (terminalId : Int)

namespace Operation

def run : Operation → Display → Traced Place Display
  | putc c => ScreenAccess.putc c
  | delC => ScreenAccess.delC
  | clearScreen => ScreenAccess.clearScreen
  | openTerminal terminalId => ScreenAccess.openTerminal terminalId

/-- The same on a console. -/
def onConsole : Operation → Console → Console
  | putc c, console => console.putc c
  | delC, console => console.delC
  | clearScreen, console => console.clearScreen
  | openTerminal terminalId, console => console.openTerminal terminalId

/-- The part of the page that the operation works on: the cells, or all that a page holds. -/
def extent : Operation → Nat
  | openTerminal _ => 4096
  | _ => 4000

theorem change (operation : Operation) (console : Console) :
    Console.Change console (operation.onConsole console) := by
  cases operation with
  | putc c => exact .putc console c
  | delC => exact .delC console
  | clearScreen => exact .clearScreen console
  | openTerminal terminalId => exact .openTerminal console terminalId

end Operation

/-- The display after the operations, one after the other. -/
def finish (operations : List Operation) (display : Display) : Display :=
  operations.foldl (fun display operation => (operation.run display).value) display

/-- All cursors are on their pages, all tracked columns are columns, and the hardware cursor is
where the displayed terminal has its cursor. -/
structure Settled (display : Display) : Prop where
  x : ∀ terminal, 0 ≤ display.screenX terminal ∧ display.screenX terminal < 80
  y : ∀ terminal, 0 ≤ display.screenY terminal ∧ display.screenY terminal < 25
  tracker : ∀ row, 0 ≤ row → row < 25 → 0 ≤ display.lineTracker row ∧ display.lineTracker row ≤ 79
  sent : ∀ pos, display.pos = some pos → (pos.toNat : Int) = 80 * display.y + display.x

/-- The display of a console whose screen is in order. -/
structure Follows (display : Display) (console : Console) : Prop where
  holds : Holds display console.screen console.currentTerminal
  tidy : console.screen.Tidy
  sent : console.screen.Sent console.currentTerminal

section

variable {display : Display} {console : Console}

theorem Follows.settled (follows : Follows display console) : Settled display := by
  obtain ⟨holds, tidy, sent⟩ := follows
  refine ⟨fun terminal => ?_, fun terminal => ?_, fun row low high => ?_, fun pos known => ?_⟩
  · have inside := (tidy.onPage terminal).1
    rw [holds.screenX]
    omega
  · have bottom := (tidy.onPage terminal).2
    rw [holds.screenY]
    omega
  · have column := tidy.tracker row.toNat
    have same := holds.tracker row.toNat
    rw [Int.toNat_of_nonneg low] at same
    omega
  · rw [holds.pos pos known, sent.position (tidy.onPage _), holds.x, holds.y]
    push_cast
    rfl

/-- One operation: what it accesses, and that it does to the display what it does to the console. -/
theorem Follows.step (follows : Follows display console) (operation : Operation) :
    Ensures (Place.Inside operation.extent) (Follows · (operation.onConsole console)) (operation.run display) := by
  obtain ⟨holds, tidy, sent⟩ := follows
  have change := operation.change console
  suffices ran : Ensures (Place.Inside operation.extent)
      (Holds · (operation.onConsole console).screen (operation.onConsole console).currentTerminal)
      (operation.run display) from
    ran.imp fun _ held => ⟨held, change.tidy tidy, change.sent sent⟩
  cases operation with
  | putc c => exact ensures_putc holds tidy c
  | delC => exact ensures_delC holds tidy
  | clearScreen => exact ensures_clearScreen holds
  | openTerminal terminalId => exact ensures_openTerminal holds terminalId

theorem Follows.finish (follows : Follows display console) (operations : List Operation) :
    Follows (finish operations display) (operations.foldl (fun console operation => operation.onConsole console) console) := by
  induction operations generalizing display console with
  | nil => exact follows
  | cons operation rest ih => exact ih (follows.step operation).2

end

/-- At boot, whatever the pages hold. -/
theorem follows_boot (videoMem : Int → UInt8) (videoPages : Terminal → Int → UInt8) :
    Follows (boot videoMem videoPages)
      { Console.loaded with
        screen := { Console.loaded.screen with
          video := fun offset => videoMem offset
          saved := fun terminal offset => videoPages terminal offset } } where
  holds := ⟨fun _ => rfl, fun _ _ => rfl, fun _ => rfl, fun _ => rfl, fun _ => rfl, rfl, nofun⟩
  tidy := ⟨Screen.tidy_loaded.onPage, Screen.tidy_loaded.tracker⟩
  sent := rfl

/-- After any operations from boot all cursors are settled, and the next operation accesses bytes
of its part of the page and rows of `line_tracker` only. -/
theorem operations_stay_on_page (videoMem : Int → UInt8) (videoPages : Terminal → Int → UInt8)
    (operations : List Operation) :
    Settled (finish operations (boot videoMem videoPages)) ∧
      ∀ operation : Operation, ∀ place ∈ (operation.run (finish operations (boot videoMem videoPages))).log,
        place.Inside operation.extent := by
  have follows := (follows_boot videoMem videoPages).finish operations
  exact ⟨follows.settled, fun operation => (follows.step operation).1⟩

/-- `open_terminal` copies whole pages: there are 96 bytes behind the last cell. -/
theorem openTerminal_passes_cells :
    ¬ ∀ (operations : List Operation) (operation : Operation), ∀ place ∈
      (operation.run (finish operations (boot (fun _ => 32) fun _ _ => 32))).log, place.Inside 4000 := by
  intro inside
  have first : Place.video 4000 ∈
      (loop savePage 0 0x1000 (boot (fun _ => 32) fun _ _ => 32)).log :=
    mem_log_loop (j := 4000) (fun _ => mem_log_bind.mpr (Or.inl List.mem_cons_self)) (by decide) (by decide) _
  have copied : Place.video 4000 ∈
      (openTerminal 1 (boot (fun _ => 32) fun _ _ => 32)).log := by
    unfold openTerminal
    rw [dif_pos (by decide)]
    exact mem_log_bind.mpr (Or.inl first)
  exact absurd (inside [] (.openTerminal 1) _ copied).2 (by decide)

end LinuxLikeOS.ScreenAccess
