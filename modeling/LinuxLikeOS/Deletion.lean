import LinuxLikeOS.Output

/-!
# Taking printed text back

`del_c` finds its way back over the end of a row by the column that `putc` left in
`line_tracker`, and `scroll_screen` moves these columns along with the rows. Text that was printed
where the page was blank is therefore taken back, cell by cell and newline by newline, as long as
the row it began in has not left the page.
-/

namespace LinuxLikeOS.Deletion

open Function Screen

/-- The functions of `lib.c` that change the page on display. -/
inductive Operation where
  | putc (c : UInt8)
  | delC
  | clearScreen

def Operation.apply (current : Terminal) (screen : Screen) : Operation → Screen
  | .putc c => screen.putc current c
  | .delC => screen.delC current
  | .clearScreen => screen.clearScreen current

/-- The statics as they are loaded, after the call of `clear` at the start of `entry`. -/
def booted (video : Memory) (saved : Terminal → Memory) (cursor : Nat) : Screen :=
  clear ⟨video, saved, fun _ => 0, fun _ => 0, fun _ => 0, cursor⟩

/-- The screen after these operations on the terminal on display. -/
def after (current : Terminal) (screen : Screen) (operations : List Operation) : Screen :=
  operations.foldl (Operation.apply current) screen

/-- The calls of `del_c` for a printed byte: one for a cell or a newline, five for a tab. -/
def deletions (c : UInt8) : Nat := if c = 0 then 0 else if c = 9 then 5 else 1

/-- The row in which printing ends, counted from the top of the page before anything scrolls. -/
def lastRow (screen : Screen) (current : Terminal) (text : List UInt8) : Nat :=
  ((screen.sheetOf current screen.video).moves 80 (textMoves text)).row

/-- The rows that scroll off while a text is printed. -/
def scrolledOff (screen : Screen) (current : Terminal) (text : List UInt8) : Nat :=
  lastRow screen current text - 24

/-- The page has moved up by `k` rows, the cursor with it, and blank rows have come in below. -/
structure MovedUp (before after : Screen) (current : Terminal) (k : Nat) : Prop where
  characters : ∀ i < 25, ∀ j < 80,
    after.video (2 * (80 * i + j)) = if i + k < 25 then before.video (2 * (80 * (i + k) + j)) else 32
  attributes : ∀ i < 25, ∀ j < 80,
    after.video (2 * (80 * i + j) + 1) = if i + k < 25 then before.video (2 * (80 * (i + k) + j) + 1) else 7
  x : after.screenX current = before.screenX current
  y : after.screenY current + k = before.screenY current
  sent : Sent before current → Sent after current

/-- A text printed and taken back. -/
def printAndDelete (current : Terminal) (text : List UInt8) (screen : Screen) : Screen :=
  (fun screen => screen.delC current)^[(text.map deletions).sum] (screen.puts current text)

/-! ## Reachable screens -/

/-- All attributes are `ATTRIB`. -/
def Plain (screen : Screen) : Prop := ∀ k < 25 * 80, screen.video (2 * k + 1) = 7

theorem Plain.of_keeps {before after : Screen} (plain : Plain before) (keeps : KeepsAttributes before after) :
    Plain after :=
  fun k inside => keeps k (plain k inside)

theorem plain_clear (screen : Screen) : Plain screen.clear := by
  intro k inside
  have below : 2 * k + 1 < 2 * (25 * 80) := by omega
  have odd : ¬ (2 * k + 1) % 2 = 0 := by omega
  simp only [clear, if_pos below, if_neg odd]

theorem step (current : Terminal) {screen : Screen} (tidy : Tidy screen) (plain : Plain screen)
    (operation : Operation) :
    Tidy (operation.apply current screen) ∧ Plain (operation.apply current screen) := by
  cases operation with
  | putc c => exact ⟨tidy.putc current c, plain.of_keeps (keepsAttributes_putc screen current c)⟩
  | delC => exact ⟨tidy.delC current, plain.of_keeps (keepsAttributes_delC screen current)⟩
  | clearScreen => exact ⟨tidy.clearScreen current, plain_clear screen⟩

theorem run (current : Terminal) {screen : Screen} (tidy : Tidy screen) (plain : Plain screen)
    (operations : List Operation) :
    Tidy (after current screen operations) ∧ Plain (after current screen operations) := by
  induction operations generalizing screen with
  | nil => exact ⟨tidy, plain⟩
  | cons operation rest ih =>
      obtain ⟨tidy, plain⟩ := step current tidy plain operation
      exact ih tidy plain

theorem tidy_booted (video : Memory) (saved : Terminal → Memory) (cursor : Nat) :
    Tidy (booted video saved cursor) :=
  ⟨fun _ => ⟨Nat.zero_lt_succ _, Nat.zero_lt_succ _⟩, fun _ => Nat.zero_lt_succ _⟩

/-! ## Printing and deleting -/

/-- One deletion for each symbol or newline that is set. -/
theorem length_textMoves (text : List UInt8) : (textMoves text).length = (text.map deletions).sum := by
  have each : ∀ c, (moves c).length = deletions c := by
    intro c
    unfold moves deletions
    by_cases nul : c = 0
    · rw [if_pos nul, if_pos nul]
      rfl
    · rw [if_neg nul, if_neg nul]
      by_cases newline : c = 10 ∨ c = 13
      · have notTab : c ≠ 9 := by
          rintro rfl
          exact absurd newline (by decide)
        rw [if_pos newline, if_neg notTab]
        rfl
      · rw [if_neg newline]
        split <;> rfl
  rw [textMoves, List.length_flatMap]
  exact congrArg List.sum (List.map_congr_left fun c _ => each c)

/-- After printing and deleting, the page shows the sheet from before. -/
theorem shows_printAndDelete {screen : Screen} {current : Terminal} (onPage : screen.OnPage current)
    (blank : screen.BlankAfter current) {text : List UInt8}
    (rows : lastRow screen current text + 1 ≤ screen.screenY current + 25) :
    Shows (printAndDelete current text screen) current (scrolledOff screen current text)
      (screen.sheetOf current screen.video) := by
  have printed := (shows_sheetOf onPage).puts text
  have top : max 0 (lastRow screen current text - 24) = scrolledOff screen current text := Nat.zero_max _
  have above : scrolledOff screen current text ≤ (screen.sheetOf current screen.video).row := by
    have row : (screen.sheetOf current screen.video).row = screen.screenY current := rfl
    unfold scrolledOff
    omega
  rw [← lastRow, top] at printed
  have taken := printed.delC_moves (blank_sheetOf onPage blank) above onPage.1
  rw [length_textMoves] at taken
  exact taken

/-- What each `putc` and each `del_c` keeps, printing and deleting keeps. -/
theorem printAndDelete_keeps {P : Screen → Prop} {current : Terminal}
    (putc : ∀ screen c, P screen → P (screen.putc current c)) (delC : ∀ screen, P screen → P (screen.delC current))
    {screen : Screen} (start : P screen) (text : List UInt8) : P (printAndDelete current text screen) := by
  have printed : ∀ screen, P screen → P (screen.puts current text) := by
    induction text with
    | nil => exact fun _ holds => holds
    | cons c rest ih => exact fun screen holds => ih _ (putc screen c holds)
  have deleted : ∀ (n : Nat) (screen : Screen), P screen → P ((fun screen => screen.delC current)^[n] screen) := by
    intro n
    induction n with
    | zero => exact fun _ holds => holds
    | succ n ih => exact fun screen holds => ih _ (delC screen holds)
  exact deleted _ _ (printed screen start)

/-- Whatever has been printed, deleted and cleared before: a text that is printed where the page is
blank, and reaches over at most 25 rows, is taken back by its deletions; only the scrolling stays. -/
theorem deleting_undoes_printing (video : Memory) (saved : Terminal → Memory) (cursor : Nat)
    (current : Terminal) (operations : List Operation) (text : List UInt8)
    (blank : (after current (booted video saved cursor) operations).BlankAfter current)
    (rows : lastRow (after current (booted video saved cursor) operations) current text + 1 ≤
      (after current (booted video saved cursor) operations).screenY current + 25) :
    MovedUp (after current (booted video saved cursor) operations)
      (printAndDelete current text (after current (booted video saved cursor) operations)) current
      (scrolledOff (after current (booted video saved cursor) operations) current text) := by
  obtain ⟨tidy, plain⟩ := run current (tidy_booted video saved cursor) (plain_clear _) operations
  generalize after current (booted video saved cursor) operations = screen at blank rows tidy plain ⊢
  have shows := shows_printAndDelete (tidy.onPage current) blank rows
  have painted : Plain (printAndDelete current text screen) :=
    printAndDelete_keeps (fun screen c plain => plain.of_keeps (keepsAttributes_putc screen current c))
      (fun screen plain => plain.of_keeps (keepsAttributes_delC screen current)) plain text
  refine ⟨?_, ?_, shows.x, ?_, fun sent => ?_⟩
  · intro i row j column
    rw [shows.cells i row j column, Nat.add_comm]
    simp only [sheetOf, column, and_true]
  · intro i row j column
    rw [painted (80 * i + j) (by omega)]
    split
    · exact (plain (80 * (i + scrolledOff screen current text) + j) (by omega)).symm
    · rfl
  · rw [Nat.add_comm]
    exact shows.y
  · exact printAndDelete_keeps (P := fun screen => Sent screen current) (fun _ c sent => sent.putc c)
      (fun _ sent => sent.delC) sent text

/-- A letter, a tab and a newline on the page after boot. -/
theorem deleting_undoes_printing_sample :
    MovedUp (booted (fun _ => 0) (fun _ _ => 0) 0)
      (printAndDelete 0 [97, 9, 10] (booted (fun _ => 0) (fun _ _ => 0) 0)) 0
      (scrolledOff (booted (fun _ => 0) (fun _ _ => 0) 0) 0 [97, 9, 10]) := by
  refine deleting_undoes_printing (fun _ => 0) (fun _ _ => 0) 0 0 [] [97, 9, 10] ?_ (by decide +kernel)
  intro i row j column _
  have inside : 2 * (80 * i + j) < 2 * (25 * 80) := by omega
  have even : 2 * (80 * i + j) % 2 = 0 := by omega
  simp only [after, List.foldl_nil, booted, clear, if_pos inside, if_pos even]

end LinuxLikeOS.Deletion
