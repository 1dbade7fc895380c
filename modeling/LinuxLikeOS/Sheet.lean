import Mathlib.Data.List.GetD
import Mathlib.Logic.Function.Basic
import Mathlib.Tactic.Common

/-!
# A sheet of rows

Text is set symbol by symbol on a sheet without an end: each symbol takes the next cell of
the current row, a full row is followed by the next one at once, and a row may be ended
early. Where each finished row ended is remembered, so that symbols can be taken back
across rows. The text as a list of rows is another description of the same sheet.
-/

namespace LinuxLikeOS

open Function

/-- The cells by row and column, the cursor, and the column in which each row above it ended. -/
@[ext] structure Sheet (α : Type*) where
  cell : Nat → Nat → α
  row : Nat
  column : Nat
  ends : Nat → Nat

namespace Sheet

variable {α : Type*} (width : Nat)

/-- What is set: a symbol, or the end of a row. -/
inductive Move (α : Type*) where
  | put (symbol : α)
  | newline

/-- Store a symbol under the cursor. -/
def place (sheet : Sheet α) (symbol : α) : Sheet α :=
  { sheet with cell := update sheet.cell sheet.row (update (sheet.cell sheet.row) sheet.column symbol) }

/-- Go to the next row, the current one having ended in the given column. -/
def endRow (sheet : Sheet α) (last : Nat) : Sheet α :=
  { sheet with row := sheet.row + 1, column := 0, ends := update sheet.ends sheet.row last }

def put (sheet : Sheet α) (symbol : α) : Sheet α :=
  if sheet.column + 1 = width then (sheet.place symbol).endRow (width - 1)
  else { sheet.place symbol with column := sheet.column + 1 }

def move (sheet : Sheet α) : Move α → Sheet α
  | .put symbol => sheet.put width symbol
  | .newline => sheet.endRow sheet.column

def moves (sheet : Sheet α) (text : List (Move α)) : Sheet α := text.foldl (move width) sheet

/-- Take the symbol in front of the cursor back, or the end of the row above. -/
def erase (sheet : Sheet α) (blank : α) : Sheet α :=
  if sheet.column = 0 then
    { sheet with
      row := sheet.row - 1
      column := sheet.ends (sheet.row - 1)
      ends := update sheet.ends (sheet.row - 1) 0 }.place blank
  else { sheet with column := sheet.column - 1 }.place blank

/-- Nothing is set from the cursor on. -/
structure Blank (sheet : Sheet α) (blank : α) : Prop where
  here : ∀ column, sheet.column ≤ column → sheet.cell sheet.row column = blank
  below : ∀ row, sheet.row < row → ∀ column, sheet.cell row column = blank
  ends : ∀ row, sheet.row ≤ row → sheet.ends row = 0

/-- How many cells lie in front of the cursor. -/
def position (sheet : Sheet α) : Nat := sheet.row * width + sheet.column

variable {width}

@[simp] theorem moves_nil (sheet : Sheet α) : sheet.moves width [] = sheet := rfl

@[simp] theorem moves_cons (sheet : Sheet α) (first : Move α) (rest : List (Move α)) :
    sheet.moves width (first :: rest) = (sheet.move width first).moves width rest := rfl

@[simp] theorem moves_append (sheet : Sheet α) (first second : List (Move α)) :
    sheet.moves width (first ++ second) = (sheet.moves width first).moves width second :=
  List.foldl_append

theorem column_put {sheet : Sheet α} {symbol : α} (inside : sheet.column < width) :
    (sheet.put width symbol).column < width := by
  unfold put
  split
  · exact Nat.lt_of_le_of_lt (Nat.zero_le _) inside
  · rename_i more
    exact Nat.lt_of_le_of_ne inside more

theorem column_move {sheet : Sheet α} (first : Move α) (inside : sheet.column < width) :
    (sheet.move width first).column < width := by
  cases first with
  | put symbol => exact column_put inside
  | newline => exact Nat.lt_of_le_of_lt (Nat.zero_le _) inside

theorem column_moves {sheet : Sheet α} (text : List (Move α)) (inside : sheet.column < width) :
    (sheet.moves width text).column < width := by
  induction text generalizing sheet with
  | nil => exact inside
  | cons first rest ih => exact ih (column_move first inside)

/-- A symbol takes one cell. -/
theorem position_put {sheet : Sheet α} {symbol : α} :
    (sheet.put width symbol).position width = sheet.position width + 1 := by
  unfold put position
  split
  · rename_i full
    simp only [endRow, place, Nat.add_mul]
    omega
  · simp only [place]
    omega

/-- The cursor moves on with each move, within its row or to a later one. -/
theorem position_lt_move {sheet : Sheet α} (first : Move α) (inside : sheet.column < width) :
    sheet.position width < (sheet.move width first).position width := by
  cases first with
  | put symbol =>
      rw [move, position_put]
      exact Nat.lt_succ_self _
  | newline =>
      simp only [move, endRow, position, Nat.add_mul]
      omega

theorem position_le_moves {sheet : Sheet α} (text : List (Move α)) (inside : sheet.column < width) :
    sheet.position width ≤ (sheet.moves width text).position width := by
  induction text generalizing sheet with
  | nil => exact Nat.le_refl _
  | cons first rest ih =>
      exact Nat.le_trans (Nat.le_of_lt (position_lt_move first inside)) (ih (column_move first inside))

theorem position_lt_moves {sheet : Sheet α} {text : List (Move α)} (inside : sheet.column < width)
    (some : text ≠ []) : sheet.position width < (sheet.moves width text).position width := by
  obtain ⟨first, rest, rfl⟩ := List.exists_cons_of_ne_nil some
  exact Nat.lt_of_lt_of_le (position_lt_move first inside)
    (position_le_moves rest (column_move first inside))

theorem row_le_put (sheet : Sheet α) (symbol : α) : sheet.row ≤ (sheet.put width symbol).row := by
  unfold put
  split
  · exact Nat.le_succ _
  · exact Nat.le_refl _

theorem row_le_move (sheet : Sheet α) (first : Move α) : sheet.row ≤ (sheet.move width first).row := by
  cases first with
  | put symbol => exact row_le_put sheet symbol
  | newline => exact Nat.le_succ _

theorem row_le_moves (sheet : Sheet α) (text : List (Move α)) :
    sheet.row ≤ (sheet.moves width text).row := by
  induction text generalizing sheet with
  | nil => exact Nat.le_refl _
  | cons first rest ih => exact Nat.le_trans (row_le_move sheet first) (ih _)

/-! ## Taking back -/

/-- The row after one that has ended, where nothing is set below. -/
theorem blank_endRow {sheet : Sheet α} {blank : α} (last : Nat)
    (below : ∀ row, sheet.row < row → ∀ column, sheet.cell row column = blank)
    (ends : ∀ row, sheet.row < row → sheet.ends row = 0) : (sheet.endRow last).Blank blank where
  here := fun column _ => below (sheet.row + 1) (Nat.lt_succ_self _) column
  below := fun row lower column => below row (Nat.lt_of_succ_lt lower) column
  ends := by
    intro row lower
    have under : sheet.row < row := lower
    simp only [endRow, update_of_ne (Nat.ne_of_gt under)]
    exact ends row under

theorem blank_put {sheet : Sheet α} {blank symbol : α} (clear : sheet.Blank blank) :
    (sheet.put width symbol).Blank blank := by
  have below : ∀ row, sheet.row < row → ∀ column, (sheet.place symbol).cell row column = blank := by
    intro row lower column
    simp only [place, update_of_ne (Nat.ne_of_gt lower)]
    exact clear.below row lower column
  unfold put
  split
  · exact blank_endRow _ below fun row lower => clear.ends row (Nat.le_of_lt lower)
  · refine ⟨?_, below, clear.ends⟩
    intro column right
    have farther : sheet.column + 1 ≤ column := right
    have other : column ≠ sheet.column := by omega
    simp only [place, update_self, update_of_ne other]
    exact clear.here column (by omega)

theorem blank_move {sheet : Sheet α} {blank : α} (first : Move α) (clear : sheet.Blank blank) :
    (sheet.move width first).Blank blank := by
  cases first with
  | put symbol => exact blank_put clear
  | newline => exact blank_endRow _ clear.below fun row lower => clear.ends row (Nat.le_of_lt lower)

theorem blank_moves {sheet : Sheet α} {blank : α} (text : List (Move α)) (clear : sheet.Blank blank) :
    (sheet.moves width text).Blank blank := by
  induction text generalizing sheet with
  | nil => exact clear
  | cons first rest ih => exact ih (blank_move first clear)

theorem position_puts {sheet : Sheet α} (n : Nat) (symbol : α) :
    (sheet.moves width (List.replicate n (.put symbol))).position width = sheet.position width + n := by
  induction n generalizing sheet with
  | zero => rfl
  | succ n ih =>
      rw [List.replicate_succ, moves_cons, ih, move, position_put]
      omega

/-- Storing a blank over a symbol restores a row that was blank there. -/
theorem restore {cell : Nat → Nat → α} {row column : Nat} {symbol blank : α}
    (same : cell row column = blank) :
    update (update cell row (update (cell row) column symbol)) row
      (update (update cell row (update (cell row) column symbol) row) column blank) = cell := by
  rw [update_self, update_idem, update_idem, ← same, update_eq_self, update_eq_self]

/-- What is put on a blank sheet can be taken back. -/
theorem erase_put {sheet : Sheet α} {blank symbol : α} (clear : sheet.Blank blank)
    (positive : 0 < width) : (sheet.put width symbol).erase blank = sheet := by
  have cells := @restore _ _ _ _ symbol _ (clear.here sheet.column (Nat.le_refl _))
  unfold put
  split
  · rename_i full
    have last : width - 1 = sheet.column := by omega
    have unmarked := clear.ends sheet.row (Nat.le_refl _)
    have marks : update (update sheet.ends sheet.row (width - 1)) sheet.row 0 = sheet.ends := by
      rw [update_idem, ← unmarked, update_eq_self]
    simp only [erase, endRow, place, if_true, Nat.add_sub_cancel, update_self, last] at marks cells ⊢
    rw [marks, cells]
  · simp only [erase, place, Nat.succ_ne_zero, if_false, Nat.add_sub_cancel]
    rw [cells]

/-- Nor does the end of a row leave a trace. -/
theorem erase_newline {sheet : Sheet α} {blank : α} (clear : sheet.Blank blank) :
    (sheet.endRow sheet.column).erase blank = sheet := by
  have cells : update sheet.cell sheet.row (update (sheet.cell sheet.row) sheet.column blank) = sheet.cell := by
    rw [← clear.here sheet.column (Nat.le_refl _), update_eq_self, update_eq_self]
  have marks : update (update sheet.ends sheet.row sheet.column) sheet.row 0 = sheet.ends := by
    rw [update_idem, ← clear.ends sheet.row (Nat.le_refl _), update_eq_self]
  simp only [erase, endRow, place, if_true, Nat.add_sub_cancel, update_self]
  rw [marks, cells]

theorem erase_move {sheet : Sheet α} {blank : α} (clear : sheet.Blank blank) (positive : 0 < width)
    (first : Move α) : (sheet.move width first).erase blank = sheet := by
  cases first with
  | put symbol => exact erase_put clear positive
  | newline => exact erase_newline clear

end Sheet

/-! ## Rows -/

/-- The rows that are finished and the one the cursor is in. -/
structure Rows (α : Type*) where
  finished : List (List α)
  current : List α

namespace Rows

variable {α : Type*} (width : Nat)

def empty : Rows α := ⟨[], []⟩

/-- The text as a list of rows. -/
def all (rows : Rows α) : List (List α) := rows.finished ++ [rows.current]

def newline (rows : Rows α) : Rows α := ⟨rows.all, []⟩

def move (rows : Rows α) : Sheet.Move α → Rows α
  | .put symbol =>
      let extended : Rows α := { rows with current := rows.current ++ [symbol] }
      if extended.current.length = width then extended.newline else extended
  | .newline => rows.newline

def moves (rows : Rows α) (text : List (Sheet.Move α)) : Rows α := text.foldl (move width) rows

/-- The rows on a sheet that is blank otherwise. -/
def sheet (rows : Rows α) (blank : α) : Sheet α where
  cell := fun row column => (rows.all.getD row []).getD column blank
  row := rows.finished.length
  column := rows.current.length
  ends := fun row => min (rows.finished.getD row []).length (width - 1)

variable {width}

theorem length_newline_finished (rows : Rows α) : rows.newline.finished.length = rows.finished.length + 1 := by
  simp [newline, all]

theorem current_move {rows : Rows α} (first : Sheet.Move α) (inside : rows.current.length < width) :
    (rows.move width first).current.length < width := by
  cases first with
  | put symbol =>
      simp only [move]
      split
      · exact Nat.lt_of_le_of_lt (Nat.zero_le _) inside
      · rename_i more
        rw [List.length_append] at more ⊢
        exact Nat.lt_of_le_of_ne inside more
  | newline => exact Nat.lt_of_le_of_lt (Nat.zero_le _) inside

theorem cell_newline (rows : Rows α) (blank : α) :
    (rows.newline.sheet width blank).cell = (rows.sheet width blank).cell := by
  funext row column
  have below : (rows.newline.all).getD row [] = rows.all.getD row [] := by
    unfold newline
    rcases Nat.lt_or_ge row rows.all.length with inside | outside
    · rw [all, List.getD_append _ _ _ _ inside]
    · rw [all, List.getD_append_right _ _ _ _ outside, List.getD_eq_default _ _ outside]
      cases row - rows.all.length <;> rfl
  simp only [sheet, below]

theorem ends_newline (rows : Rows α) (blank : α) :
    (rows.newline.sheet width blank).ends =
      update (rows.sheet width blank).ends rows.finished.length (min rows.current.length (width - 1)) := by
  funext row
  rcases Nat.lt_trichotomy row rows.finished.length with above | rfl | below
  · rw [update_of_ne (Nat.ne_of_lt above)]
    simp only [sheet, newline, all, List.getD_append _ _ _ _ above]
  · simp [sheet, newline, all]
  · have outside : rows.all.length ≤ row := by
      simp only [all, List.length_append, List.length_cons, List.length_nil]
      omega
    rw [update_of_ne (Nat.ne_of_gt below)]
    simp only [sheet, newline, List.getD_eq_default _ _ outside,
      List.getD_eq_default _ _ (Nat.le_of_lt below)]

/-- The end of a row, wherever it is. -/
theorem sheet_newline (rows : Rows α) (blank : α) :
    rows.newline.sheet width blank =
      (rows.sheet width blank).endRow (min rows.current.length (width - 1)) :=
  Sheet.ext (cell_newline rows blank) rows.length_newline_finished rfl (ends_newline rows blank)

theorem cell_extend (finished : List (List α)) (current : List α) (blank symbol : α) :
    ((⟨finished, current ++ [symbol]⟩ : Rows α).sheet width blank).cell =
      (((⟨finished, current⟩ : Rows α).sheet width blank).place symbol).cell := by
  funext row column
  simp only [sheet, Sheet.place, all]
  rcases eq_or_ne row finished.length with rfl | other
  · rw [update_self]
    simp only [List.getD_append_right _ _ _ _ (Nat.le_refl _), Nat.sub_self, List.getD_cons_zero]
    rcases Nat.lt_trichotomy column current.length with left | rfl | right
    · rw [update_of_ne (Nat.ne_of_lt left), List.getD_append _ _ _ _ left]
    · rw [update_self, List.getD_append_right _ _ _ _ (Nat.le_refl _), Nat.sub_self, List.getD_cons_zero]
    · have past : (current ++ [symbol]).length ≤ column := by
        rw [List.length_append]
        exact right
      rw [update_of_ne (Nat.ne_of_gt right), List.getD_eq_default _ _ past,
        List.getD_eq_default _ _ (Nat.le_of_lt right)]
  · rw [update_of_ne other]
    rcases Nat.lt_or_gt_of_ne other with above | below
    · rw [List.getD_append _ _ _ _ above, List.getD_append _ _ _ _ above]
    · have past : ∀ last : List α, (finished ++ [last]).length ≤ row := by
        intro last
        rw [List.length_append]
        exact below
      rw [List.getD_eq_default _ _ (past _), List.getD_eq_default _ _ (past _)]

/-- Setting text by rows is setting it on the sheet. -/
theorem sheet_move {rows : Rows α} (blank : α) (first : Sheet.Move α) (inside : rows.current.length < width) :
    (rows.move width first).sheet width blank = (rows.sheet width blank).move width first := by
  obtain ⟨finished, current⟩ := rows
  cases first with
  | put symbol =>
      have cells := @cell_extend α width finished current blank symbol
      have length : (current ++ [symbol]).length = current.length + 1 := List.length_append
      have column : ((⟨finished, current⟩ : Rows α).sheet width blank).column = current.length := rfl
      simp only [move, Sheet.move, Sheet.put, length, column]
      split
      · rename_i full
        have last : min (current ++ [symbol]).length (width - 1) = width - 1 := by omega
        rw [sheet_newline, last]
        exact Sheet.ext cells rfl rfl rfl
      · exact Sheet.ext cells rfl length rfl
  | newline =>
      have last : min current.length (width - 1) = current.length :=
        Nat.min_eq_left (Nat.le_sub_one_of_lt inside)
      simp only [move, Sheet.move]
      rw [sheet_newline, last]
      rfl

theorem sheet_moves {rows : Rows α} (blank : α) (text : List (Sheet.Move α))
    (inside : rows.current.length < width) :
    (rows.moves width text).sheet width blank = (rows.sheet width blank).moves width text := by
  induction text generalizing rows with
  | nil => rfl
  | cons first rest ih =>
      rw [Sheet.moves_cons, ← sheet_move blank first inside]
      exact ih (current_move first inside)

end Rows

end LinuxLikeOS
