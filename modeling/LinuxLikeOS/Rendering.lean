import LinuxLikeOS.Console
import LinuxLikeOS.Sheet
import Mathlib.Data.List.Induction
import Mathlib.Logic.Function.Iterate

/-!
# What the screen shows

The 25 rows of the page in video memory are a window on a sheet without an end, on which
`putc` sets its characters and `del_c` takes them back; `scroll_screen` moves the window.
After `clear_screen` the sheet is blank, and the window shows the end of all that has been
written since.
-/

namespace LinuxLikeOS

open Function

namespace Screen

/-- What `putc` sets for a byte. -/
def moves (c : UInt8) : List (Sheet.Move UInt8) :=
  if c = 0 then []
  else if c = 10 ∨ c = 13 then [.newline]
  else if c = 9 then List.replicate 5 (.put 32)
  else [.put c]

def textMoves (text : List UInt8) : List (Sheet.Move UInt8) := text.flatMap moves

/-- The page of the terminal is the sheet from row `top` on, but for a cursor that has left
the last row. -/
structure Follows (screen : Screen) (current : Terminal) (top : Nat) (sheet : Sheet UInt8) : Prop where
  cells : ∀ i < 25, ∀ j < 80, screen.video (2 * (80 * i + j)) = sheet.cell (top + i) j
  below : ∀ row, top + 25 ≤ row → ∀ j, sheet.cell row j = 32
  x : screen.screenX current = sheet.column
  y : top + screen.screenY current = sheet.row
  inside : sheet.column < 80
  ends : ∀ i < screen.screenY current, screen.lineTracker i = sheet.ends (top + i)

/-- The page of the terminal is the sheet from row `top` on. -/
structure Shows (screen : Screen) (current : Terminal) (top : Nat) (sheet : Sheet UInt8) : Prop
    extends Follows screen current top sheet where
  bottom : screen.screenY current < 25

/-- A page with the cursor of a terminal as the top of a sheet that is blank below. -/
def sheetOf (screen : Screen) (terminal : Terminal) (page : Memory) : Sheet UInt8 where
  cell := fun row j => if row < 25 ∧ j < 80 then page (2 * (80 * row + j)) else 32
  row := screen.screenY terminal
  column := screen.screenX terminal
  ends := fun row => if row < screen.screenY terminal then screen.lineTracker row else 0

/-- The cursor of a terminal is on its page. -/
def OnPage (screen : Screen) (terminal : Terminal) : Prop :=
  screen.screenX terminal < 80 ∧ screen.screenY terminal < 25

/-- Attribute bytes that are `ATTRIB` stay so. -/
def KeepsAttributes (before after : Screen) : Prop :=
  ∀ k, before.video (2 * k + 1) = 7 → after.video (2 * k + 1) = 7

section

variable {screen : Screen} {current : Terminal} {top : Nat} {sheet : Sheet UInt8}

theorem shows_sheetOf (onPage : screen.OnPage current) :
    Shows screen current 0 (screen.sheetOf current screen.video) where
  cells := by
    intro i row j column
    simp only [sheetOf, Nat.zero_add, if_pos (And.intro row column)]
  below := by
    intro row past j
    exact if_neg fun both => absurd both.1 (by omega)
  x := rfl
  y := Nat.zero_add _
  inside := onPage.1
  ends := by
    intro i above
    simp only [sheetOf, Nat.zero_add, if_pos above]
  bottom := onPage.2

/-- A page on which nothing stands from the cursor on. -/
def BlankAfter (screen : Screen) (terminal : Terminal) : Prop :=
  ∀ i < 25, ∀ j < 80, 80 * screen.screenY terminal + screen.screenX terminal ≤ 80 * i + j →
    screen.video (2 * (80 * i + j)) = 32

theorem blank_sheetOf (onPage : screen.OnPage current) (blank : screen.BlankAfter current) :
    (screen.sheetOf current screen.video).Blank 32 where
  here := by
    intro column right
    have left : screen.screenX current ≤ column := right
    show (if _ then _ else _) = _
    split
    · rename_i inside
      exact blank _ inside.1 _ inside.2 (Nat.add_le_add_left left _)
    · rfl
  below := by
    intro row lower column
    have under : screen.screenY current < row := lower
    have onRow := onPage.1
    show (if _ then _ else _) = _
    split
    · rename_i inside
      exact blank _ inside.1 _ inside.2 (by omega)
    · rfl
  ends := fun row lower => if_neg (Nat.not_lt.mpr lower)

/-! ## Cells -/

theorem video_storeCell (c : UInt8) (inside : screen.screenX current < 80) {i j : Nat} (column : j < 80) :
    (screen.storeCell current c).video (2 * (80 * i + j)) =
      if i = screen.screenY current ∧ j = screen.screenX current then c
      else screen.video (2 * (80 * i + j)) := by
  have odd : 2 * (80 * i + j) ≠ 2 * (80 * screen.screenY current + screen.screenX current) + 1 := by omega
  simp only [storeCell, update_of_ne odd]
  split
  · rename_i here
    rw [here.1, here.2, update_self]
  · rename_i other
    refine update_of_ne (fun same => other ?_) _ _
    omega

theorem video_scrollScreen {i j : Nat} (row : i < 25) (column : j < 80) :
    (screen.scrollScreen current).video (2 * (80 * i + j)) =
      if i = 24 then 32 else screen.video (2 * (80 * (i + 1) + j)) := by
  simp only [scrollScreen]
  by_cases last : i = 24
  · rw [if_pos (by omega), if_pos last]
  · rw [if_neg (by omega), if_neg last, if_pos (by omega)]
    congr 1
    omega

/-- The store under the cursor is a store on the sheet. -/
theorem Follows.storeCell (follows : Follows screen current top sheet) (c : UInt8)
    (bottom : screen.screenY current < 25) :
    Follows (screen.storeCell current c) current top (sheet.place c) where
  cells := by
    intro i row j column
    have inside : screen.screenX current < 80 := follows.x ▸ follows.inside
    rw [video_storeCell c inside column]
    simp only [Sheet.place]
    have y := follows.y
    by_cases here : i = screen.screenY current
    · have same : top + i = sheet.row := by omega
      rw [same, update_self]
      by_cases under : j = screen.screenX current
      · rw [if_pos ⟨here, under⟩, under, follows.x, update_self]
      · rw [if_neg fun both => under both.2, update_of_ne (follows.x ▸ under), ← same]
        exact follows.cells i row j column
    · have other : top + i ≠ sheet.row := by omega
      rw [if_neg fun both => here both.1, update_of_ne other]
      exact follows.cells i row j column
  below := by
    intro row past j
    have y := follows.y
    have other : row ≠ sheet.row := by omega
    simp only [Sheet.place, update_of_ne other]
    exact follows.below row past j
  x := follows.x
  y := follows.y
  inside := follows.inside
  ends := follows.ends

/-- The window moves down by a row, which is blank. -/
theorem Follows.scrollScreen (follows : Follows screen current top sheet)
    (past : screen.screenY current = 25) :
    Follows (screen.scrollScreen current) current (top + 1) sheet where
  cells := by
    intro i row j column
    rw [video_scrollScreen row column]
    split
    · exact (follows.below _ (by omega) j).symm
    · rw [follows.cells (i + 1) (by omega) j column]
      congr 1
      omega
  below := fun row below => follows.below row (by omega)
  x := follows.x
  y := by
    have y := follows.y
    simp only [Screen.scrollScreen, update_self]
    omega
  inside := follows.inside
  ends := by
    intro i above
    simp only [Screen.scrollScreen, update_self] at above ⊢
    rw [if_pos above, follows.ends (i + 1) (by omega)]
    congr 1
    omega

theorem Follows.settle (follows : Follows screen current top sheet)
    (atMost : screen.screenY current ≤ 25) :
    Shows (screen.settle current) current (max top (sheet.row - 24)) sheet := by
  have y := follows.y
  unfold Screen.settle
  simp only []
  split
  · rename_i past
    have next : max top (sheet.row - 24) = top + 1 := by omega
    have scrolled := follows.scrollScreen past
    have last : (screen.scrollScreen current).screenY current = 24 := by
      simp only [Screen.scrollScreen, update_self]
    rw [next]
    exact ⟨⟨scrolled.cells, scrolled.below, scrolled.x, scrolled.y, scrolled.inside, scrolled.ends⟩,
      by simp only [updateCursor, last]; decide⟩
  · rename_i within
    have same : max top (sheet.row - 24) = top := by omega
    rw [same]
    exact ⟨⟨follows.cells, follows.below, follows.x, follows.y, follows.inside, follows.ends⟩,
      Nat.lt_of_le_of_ne atMost within⟩

theorem Shows.putPlain_newline (shows : Shows screen current top sheet) {c : UInt8} (newline : c = 10 ∨ c = 13) :
    Shows (screen.putPlain current c) current (max top ((sheet.endRow sheet.column).row - 24))
      (sheet.endRow sheet.column) := by
  have y := shows.y
  have bottom := shows.bottom
  rw [putPlain, if_pos newline]
  refine Follows.settle ⟨shows.cells, shows.below, ?_, ?_, Nat.zero_lt_succ _, ?_⟩ ?_
  · simp only [update_self, Sheet.endRow]
  · simp only [update_self, Sheet.endRow]
    omega
  · intro i above
    simp only [update_self] at above
    simp only [Sheet.endRow]
    rcases Nat.lt_or_ge i (screen.screenY current) with before | last
    · rw [update_of_ne (Nat.ne_of_lt before), update_of_ne (by omega)]
      exact shows.ends i before
    · obtain rfl : i = screen.screenY current := by omega
      rw [update_self, y, update_self, shows.x]
  · simp only [update_self]
    omega

theorem Shows.putPlain_symbol (shows : Shows screen current top sheet) {c : UInt8}
    (symbol : ¬ (c = 10 ∨ c = 13)) :
    Shows (screen.putPlain current c) current (max top ((sheet.put 80 c).row - 24)) (sheet.put 80 c) := by
  have y := shows.y
  have x := shows.x
  have bottom := shows.bottom
  have inside := shows.inside
  have stored := shows.toFollows.storeCell c shows.bottom
  rw [putPlain, if_neg symbol]
  simp only []
  split
  · rename_i zero
    have full : sheet.column + 1 = 80 := by omega
    have wrapped : sheet.put 80 c = (sheet.place c).endRow 79 := if_pos full
    rw [wrapped]
    refine Follows.settle ⟨stored.cells, stored.below, ?_, ?_, Nat.zero_lt_succ _, ?_⟩ ?_
    · simp only [update_self, Sheet.endRow]
      exact zero
    · simp only [update_self, Sheet.endRow, Sheet.place]
      omega
    · intro i above
      simp only [update_self] at above
      simp only [Sheet.endRow, Sheet.place]
      rcases Nat.lt_or_ge i (screen.screenY current) with before | last
      · rw [update_of_ne (Nat.ne_of_lt before), update_of_ne (by omega)]
        exact shows.ends i before
      · obtain rfl : i = screen.screenY current := by omega
        rw [update_self, y, update_self]
    · simp only [update_self]
      omega
  · rename_i more
    have open' : sheet.column + 1 ≠ 80 := by omega
    have extended : sheet.put 80 c = { sheet.place c with column := sheet.column + 1 } := if_neg open'
    rw [extended]
    refine Follows.settle ⟨stored.cells, stored.below, ?_, stored.y, ?_, stored.ends⟩ ?_
    · simp only [update_self]
      omega
    · exact Nat.lt_of_le_of_ne inside open'
    · exact Nat.le_of_lt bottom

theorem Shows.rowBound (shows : Shows screen current top sheet) : max top (sheet.row - 24) = top := by
  have y := shows.y
  have bottom := shows.bottom
  omega

theorem Shows.settle (shows : Shows screen current top sheet) :
    Shows (screen.settle current) current top sheet := by
  have settled := shows.toFollows.settle (Nat.le_of_lt shows.bottom)
  rwa [shows.rowBound] at settled

/-- The spaces of a tab. -/
theorem Shows.putSpaces (shows : Shows screen current top sheet) (n : Nat) :
    Shows ((List.replicate n 32).foldl (fun screen c => screen.putPlain current c) screen) current
      (max top ((sheet.moves 80 (List.replicate n (.put 32))).row - 24))
      (sheet.moves 80 (List.replicate n (.put 32))) := by
  induction n generalizing screen top sheet with
  | zero =>
      rw [List.replicate_zero, List.replicate_zero, Sheet.moves_nil, shows.rowBound]
      exact shows
  | succ n ih =>
      have first := shows.putPlain_symbol (c := 32) (by decide)
      have later := @Sheet.row_le_moves _ 80 (sheet.put 80 32) (List.replicate n (.put 32))
      have tops : max (max top ((sheet.put 80 32).row - 24))
          (((sheet.put 80 32).moves 80 (List.replicate n (.put 32))).row - 24) =
          max top (((sheet.put 80 32).moves 80 (List.replicate n (.put 32))).row - 24) := by omega
      have rest := ih first
      rw [tops] at rest
      exact rest

/-- `putc` sets on the sheet what its byte stands for. -/
theorem Shows.putc (shows : Shows screen current top sheet) (c : UInt8) :
    Shows (screen.putc current c) current (max top ((sheet.moves 80 (moves c)).row - 24))
      (sheet.moves 80 (moves c)) := by
  unfold Screen.putc moves
  by_cases nul : c = 0
  · rw [if_pos nul, if_pos nul, Sheet.moves_nil, shows.rowBound]
    exact shows
  · rw [if_neg nul, if_neg nul]
    by_cases newline : c = 10 ∨ c = 13
    · have notTab : c ≠ 9 := by
        rintro rfl
        exact absurd newline (by decide)
      rw [if_pos newline, if_neg notTab]
      exact shows.putPlain_newline newline
    · rw [if_neg newline]
      by_cases tab : c = 9
      · rw [if_pos tab, if_pos tab]
        exact (shows.putSpaces 5).settle
      · rw [if_neg tab, if_neg tab]
        exact shows.putPlain_symbol newline

theorem puts_append (screen : Screen) (current : Terminal) (first second : List UInt8) :
    screen.puts current (first ++ second) = (screen.puts current first).puts current second :=
  List.foldl_append

theorem Shows.puts (shows : Shows screen current top sheet) (text : List UInt8) :
    Shows (screen.puts current text) current (max top ((sheet.moves 80 (textMoves text)).row - 24))
      (sheet.moves 80 (textMoves text)) := by
  induction text generalizing screen top sheet with
  | nil =>
      have same : sheet.moves 80 (textMoves []) = sheet := rfl
      rw [same, shows.rowBound]
      exact shows
  | cons c rest ih =>
      have all : sheet.moves 80 (textMoves (c :: rest)) =
          (sheet.moves 80 (moves c)).moves 80 (textMoves rest) := by
        rw [textMoves, List.flatMap_cons, Sheet.moves_append]
        rfl
      have later := @Sheet.row_le_moves _ 80 (sheet.moves 80 (moves c)) (textMoves rest)
      have tops : max (max top ((sheet.moves 80 (moves c)).row - 24))
          (((sheet.moves 80 (moves c)).moves 80 (textMoves rest)).row - 24) =
          max top (((sheet.moves 80 (moves c)).moves 80 (textMoves rest)).row - 24) := by omega
      have shown := ih (shows.putc c)
      rw [tops] at shown
      rw [all]
      exact shown

/-- `del_c` takes back on the sheet, within the window. -/
theorem Shows.delC (shows : Shows screen current top sheet) (above : top < sheet.row ∨ 0 < sheet.column)
    (last : sheet.column = 0 → sheet.ends (sheet.row - 1) < 80) :
    Shows (screen.delC current) current top (sheet.erase 32) := by
  have y := shows.y
  have x := shows.x
  have bottom := shows.bottom
  unfold Screen.delC Sheet.erase
  split
  · rename_i start
    have zero : sheet.column = 0 := by omega
    have some : 0 < screen.screenY current := by omega
    have mark := shows.ends (screen.screenY current - 1) (by omega)
    have row : top + (screen.screenY current - 1) = sheet.row - 1 := by omega
    rw [row] at mark
    rw [if_pos some, if_pos zero]
    have moved : Follows { screen with
        screenY := update screen.screenY current (screen.screenY current - 1)
        screenX := update screen.screenX current (screen.lineTracker (screen.screenY current - 1)) } current top
        { sheet with
          row := sheet.row - 1
          column := sheet.ends (sheet.row - 1)
          ends := update sheet.ends (sheet.row - 1) 0 } := by
      refine ⟨shows.cells, shows.below, ?_, ?_, last zero, ?_⟩
      · simp only [update_self, mark]
      · simp only [update_self, row]
      · intro i before
        simp only [update_self] at before
        simp only []
        rw [update_of_ne (by omega)]
        exact shows.ends i (by omega)
    have stored := moved.storeCell 32 (by simp only [update_self]; omega)
    refine ⟨⟨stored.cells, stored.below, stored.x, stored.y, stored.inside, stored.ends⟩, ?_⟩
    simp only [updateCursor, Screen.storeCell, update_self]
    omega
  · rename_i more
    have notZero : sheet.column ≠ 0 := by omega
    rw [if_neg notZero]
    have moved : Follows { screen with
        screenX := update screen.screenX current (screen.screenX current - 1) } current top
        { sheet with column := sheet.column - 1 } := by
      refine ⟨shows.cells, shows.below, ?_, y, ?_, shows.ends⟩
      · simp only [update_self, x]
      · have inside := shows.inside
        simp only []
        omega
    have stored := moved.storeCell 32 bottom
    exact ⟨⟨stored.cells, stored.below, stored.x, stored.y, stored.inside, stored.ends⟩, bottom⟩

/-- `del_c` undoes a symbol or a newline where nothing stood before. -/
theorem Shows.delC_move {move : Sheet.Move UInt8} (shows : Shows screen current top (sheet.move 80 move))
    (blank : sheet.Blank 32) (above : top ≤ sheet.row) (inside : sheet.column < 80) :
    Shows (screen.delC current) current top sheet := by
  have erased := shows.delC
  rw [Sheet.erase_move blank (by decide)] at erased
  cases move with
  | newline =>
      refine erased (Or.inl (Nat.lt_succ_of_le above)) fun _ => ?_
      simp only [Sheet.move, Sheet.endRow, Nat.add_sub_cancel, update_self]
      exact inside
  | put c =>
      refine erased ?_ ?_
      · show top < (sheet.put 80 c).row ∨ 0 < (sheet.put 80 c).column
        unfold Sheet.put
        split
        · exact Or.inl (Nat.lt_succ_of_le above)
        · exact Or.inr (Nat.zero_lt_succ _)
      · show (sheet.put 80 c).column = 0 → (sheet.put 80 c).ends ((sheet.put 80 c).row - 1) < 80
        unfold Sheet.put
        split
        · intro _
          simp only [Sheet.endRow, Sheet.place, Nat.add_sub_cancel, update_self]
          decide
        · exact fun zero => absurd zero (Nat.succ_ne_zero _)

/-- Called once for each of them, it takes a whole text back. -/
theorem Shows.delC_moves {text : List (Sheet.Move UInt8)} (shows : Shows screen current top (sheet.moves 80 text))
    (blank : sheet.Blank 32) (above : top ≤ sheet.row) (inside : sheet.column < 80) :
    Shows ((fun screen => screen.delC current)^[text.length] screen) current top sheet := by
  induction text using List.reverseRecOn generalizing screen with
  | nil => exact shows
  | append_singleton past last ih =>
      rw [Sheet.moves_append] at shows
      have lower := @Sheet.row_le_moves _ 80 sheet past
      have taken := Shows.delC_move shows (Sheet.blank_moves past blank) (Nat.le_trans above lower)
        (Sheet.column_moves past inside)
      rw [List.length_append, List.length_singleton, iterate_succ_apply]
      exact ih taken

/-! ## Attributes -/

theorem KeepsAttributes.refl (screen : Screen) : KeepsAttributes screen screen := fun _ kept => kept

theorem KeepsAttributes.trans {first second third : Screen} (before : KeepsAttributes first second)
    (after : KeepsAttributes second third) : KeepsAttributes first third :=
  fun k kept => after k (before k kept)

theorem KeepsAttributes.storeCell {before : Screen} (keeps : KeepsAttributes before screen)
    (current : Terminal) (c : UInt8) : KeepsAttributes before (screen.storeCell current c) := by
  intro k kept
  simp only [Screen.storeCell]
  rcases eq_or_ne (2 * k + 1) (2 * (80 * screen.screenY current + screen.screenX current) + 1) with here | other
  · rw [here, update_self]
  · rw [update_of_ne other, update_of_ne (by omega)]
    exact keeps k kept

theorem settle_attribute (screen : Screen) (current : Terminal) (k : Nat) :
    (screen.settle current).video (2 * k + 1) = screen.video (2 * k + 1) := by
  have odd : ¬ (2 * k + 1) % 2 = 0 := by omega
  unfold Screen.settle
  simp only []
  split
  · simp only [updateCursor, Screen.scrollScreen]
    rw [if_neg fun all => odd all.2.2, if_neg fun both => odd both.2]
  · rfl

theorem KeepsAttributes.settle {before : Screen} (keeps : KeepsAttributes before screen)
    (current : Terminal) : KeepsAttributes before (screen.settle current) := by
  intro k kept
  rw [settle_attribute]
  exact keeps k kept

theorem keepsAttributes_putPlain (screen : Screen) (current : Terminal) (c : UInt8) :
    KeepsAttributes screen (screen.putPlain current c) := by
  have stored := (KeepsAttributes.refl screen).storeCell current c
  unfold putPlain
  split
  · refine KeepsAttributes.settle ?_ current
    exact KeepsAttributes.refl screen
  · simp only []
    split
    · refine KeepsAttributes.settle ?_ current
      exact stored
    · refine KeepsAttributes.settle ?_ current
      exact stored

theorem keepsAttributes_putc (screen : Screen) (current : Terminal) (c : UInt8) :
    KeepsAttributes screen (screen.putc current c) := by
  unfold Screen.putc
  split
  · exact KeepsAttributes.refl screen
  · split
    · refine KeepsAttributes.settle ?_ current
      generalize (5 : Nat) = n
      induction n generalizing screen with
      | zero => exact KeepsAttributes.refl screen
      | succ n ih => exact (keepsAttributes_putPlain screen current 32).trans (ih _)
    · exact keepsAttributes_putPlain screen current c

theorem keepsAttributes_puts (screen : Screen) (current : Terminal) (text : List UInt8) :
    KeepsAttributes screen (screen.puts current text) := by
  induction text generalizing screen with
  | nil => exact KeepsAttributes.refl screen
  | cons c rest ih => exact (keepsAttributes_putc screen current c).trans (ih _)

theorem keepsAttributes_delC (screen : Screen) (current : Terminal) :
    KeepsAttributes screen (screen.delC current) := by
  have erased : ∀ x y, KeepsAttributes screen
      (Screen.storeCell { screen with screenX := x, screenY := y } current 32) := by
    intro x y
    refine KeepsAttributes.storeCell ?_ current 32
    exact KeepsAttributes.refl screen
  unfold Screen.delC
  split
  · split
    · exact erased _ _
    · exact KeepsAttributes.refl screen
  · exact erased _ screen.screenY

end

/-! ## The layout of a text -/

/-- The rows of a text: each byte but NUL, tab, newline and carriage return takes a cell, a row
has 80 cells, a tab is five spaces. -/
def layout (text : List UInt8) : List (List UInt8) := (Rows.empty.moves 80 (textMoves text)).all

/-- The rows that fit on the screen. -/
def lastRows (rows : List (List UInt8)) : List (List UInt8) := rows.drop (rows.length - 25)

/-- The screen shows the end of a text, padded with spaces, with the cursor behind it. -/
structure Renders (screen : Screen) (current : Terminal) (text : List UInt8) : Prop where
  characters : ∀ i < 25, ∀ j < 80,
    screen.video (2 * (80 * i + j)) = ((lastRows (layout text)).getD i []).getD j 32
  attributes : ∀ i < 25, ∀ j < 80, screen.video (2 * (80 * i + j) + 1) = 7
  x : ∃ last, (layout text).getLast? = some last ∧ screen.screenX current = last.length
  y : screen.screenY current + 1 = (lastRows (layout text)).length

/-- A cleared screen is a blank sheet. -/
theorem shows_clearScreen (screen : Screen) (current : Terminal) :
    Shows (screen.clearScreen current) current 0 (Rows.empty.sheet 80 32) := by
  have blank : ∀ row j, (Rows.empty.sheet 80 (32 : UInt8)).cell row j = 32 := by
    intro row j
    cases row with
    | zero => rfl
    | succ row => simp [Rows.sheet, Rows.empty, Rows.all]
  constructor
  case bottom => simp [clearScreen, updateCursor]
  case toFollows =>
    constructor
    case cells =>
      intro i row j column
      have inside : 2 * (80 * i + j) < 2 * (25 * 80) := by omega
      have even : 2 * (80 * i + j) % 2 = 0 := by omega
      simp only [clearScreen, updateCursor, clear, if_pos inside, if_pos even, blank]
    case below => exact fun row _ j => blank row j
    case x => simp [clearScreen, updateCursor, Rows.sheet, Rows.empty]
    case y => simp [clearScreen, updateCursor, Rows.sheet, Rows.empty]
    case inside => decide
    case ends =>
      intro i above
      simp [clearScreen, updateCursor] at above

theorem attributes_clear (screen : Screen) (current : Terminal) {k : Nat} (inside : k < 25 * 80) :
    (screen.clearScreen current).video (2 * k + 1) = 7 := by
  have below : 2 * k + 1 < 2 * (25 * 80) := by omega
  have odd : ¬ (2 * k + 1) % 2 = 0 := by omega
  simp only [clearScreen, updateCursor, clear, if_pos below, if_neg odd]

/-- Text put on a cleared screen. -/
theorem renders_puts (screen : Screen) (current : Terminal) (text : List UInt8) :
    Renders ((screen.clearScreen current).puts current text) current text := by
  have shown := (shows_clearScreen screen current).puts text
  have kept := keepsAttributes_puts (screen.clearScreen current) current text
  rw [← Rows.sheet_moves 32 (textMoves text) (by decide)] at shown
  have length : (layout text).length = (Rows.empty.moves 80 (textMoves text)).finished.length + 1 := by
    simp [layout, Rows.all]
  have row : ((Rows.empty.moves 80 (textMoves text)).sheet 80 (32 : UInt8)).row =
      (Rows.empty.moves 80 (textMoves text)).finished.length := rfl
  have y := shown.y
  have bottom := shown.bottom
  constructor
  case characters =>
    intro i inside j column
    rw [shown.cells i inside j column, row]
    have top : max 0 ((Rows.empty.moves 80 (textMoves text)).finished.length - 24) + i =
        (layout text).length - 25 + i := by omega
    rw [top, lastRows]
    simp only [Rows.sheet, List.getD_eq_getElem?_getD, List.getElem?_drop]
    rfl
  case attributes =>
    intro i inside j column
    exact kept _ (attributes_clear screen current (by omega))
  case x =>
    refine ⟨(Rows.empty.moves 80 (textMoves text)).current, ?_, shown.x⟩
    simp [layout, Rows.all]
  case y =>
    rw [lastRows, List.length_drop, length]
    omega

end Screen

namespace Console

theorem foldl_putc (console : Console) (text : List UInt8) :
    text.foldl putc console =
      { console with screen := console.screen.puts console.currentTerminal text } := by
  induction text generalizing console with
  | nil => rfl
  | cons c rest ih => exact ih (console.putc c)

/-- The bytes a `terminal_write` is given. -/
def written (buf : Memory) (nbytes : Int) : List UInt8 := (List.range nbytes.toNat).map buf

theorem terminalWrite_eq (console : Console) (buf : Memory) (nbytes : Int) :
    console.terminalWrite buf nbytes =
      { console with screen := console.screen.puts console.currentTerminal (written buf nbytes) } :=
  foldl_putc console (written buf nbytes)

/-- Several calls of `terminal_write` are one of the bytes of all of them. -/
theorem terminalWrite_all (console : Console) (writes : List (Memory × Int)) :
    writes.foldl (fun console write => console.terminalWrite write.1 write.2) console =
      { console with
        screen := console.screen.puts console.currentTerminal
          (writes.flatMap fun write => written write.1 write.2) } := by
  induction writes generalizing console with
  | nil => rfl
  | cons write rest ih =>
      rw [List.foldl_cons, ih, List.flatMap_cons, Screen.puts_append, terminalWrite_eq]

/-- Whatever is written to a cleared screen, in however many calls: the screen shows the last
rows of the text. -/
theorem cleared_screen_renders (console : Console) (writes : List (Memory × Int)) :
    Screen.Renders
      (writes.foldl (fun console write => console.terminalWrite write.1 write.2) console.clearScreen).screen
      console.currentTerminal (writes.flatMap fun write => written write.1 write.2) := by
  rw [terminalWrite_all]
  exact Screen.renders_puts console.screen console.currentTerminal _

end Console

end LinuxLikeOS
