import LinuxLikeOS.LineEditing
import LinuxLikeOS.TerminalInput

/-!
# Lines from the keyboard to the reader

One terminal stays displayed while its process reads and the user types. What is typed, with
backspaces applied, is a list of lines; `terminal_read` ignores an Enter that was pressed before
it began, copies the first line of the buffer and clears the rest. So a read returns the first
line typed since the one before it completed, and the reads return all lines as long as one
line is typed for each of them.
-/

namespace LinuxLikeOS.LineInput

open Function TerminalInput

/-- A key with the byte behind the scancode table, the start of a read, and its end. -/
inductive Event where
  | key (scancode beyond : UInt8)
  | begin
  | complete
  deriving DecidableEq

/-- Text that is typed: the lines that Enter has ended, and the one being typed. -/
structure Editor where
  lines : List (List UInt8)
  current : List UInt8

def Editor.edit (editor : Editor) : Console.KeyAction → Editor
  | .type pressed => { editor with current := editor.current ++ [pressed] }
  | .erase => { editor with current := editor.current.dropLast }
  | .newline pressed => ⟨editor.lines ++ [editor.current ++ [pressed]], []⟩
  | _ => editor

/-- The text with further lines before it. -/
def Editor.after (past : List (List UInt8)) (editor : Editor) : Editor :=
  { editor with lines := past ++ editor.lines }

theorem Editor.edit_after (past : List (List UInt8)) (editor : Editor) (action : Console.KeyAction) :
    (editor.after past).edit action = (editor.edit action).after past := by
  cases action with
  | newline pressed =>
      have moved : past ++ editor.lines ++ [editor.current ++ [pressed]] =
          past ++ (editor.lines ++ [editor.current ++ [pressed]]) := List.append_assoc _ _ _
      simp only [edit, after, moved]
  | _ => rfl

/-- The reader and the keyboard, all that has been typed, what has been typed since the last read
completed and before each earlier one, and what the reads have returned. -/
structure Session where
  input : Input Unit
  typed : Editor
  recent : Editor
  rounds : List Editor
  results : List (List UInt8)

/-- The keys: those of the table that type, erase or end a line, and Caps Lock, Shift and the like. -/
def admitted (scancode : UInt8) : Console.KeyAction → Bool
  | .modifier _ _ _ _ => true
  | .type _ | .erase | .newline _ => decide (scancode < 0x3B)
  | _ => false

namespace Session

def start (console : Console) : Session := ⟨Input.boot console, ⟨[], []⟩, ⟨[], []⟩, [], []⟩

def step (session : Session) : Event → Option Session
  | .key scancode beyond =>
      let action := Console.keyAction session.input.console.keyboard scancode beyond
      if admitted scancode action then
        (session.input.step (.key scancode beyond none false)).map fun input =>
          { session with input := input, typed := session.typed.edit action, recent := session.recent.edit action }
      else none
  | .begin => (session.input.step (.begin ())).map fun input => { session with input := input }
  | .complete => (session.input.step (.complete ())).map fun input =>
      { session with
        input := input
        recent := ⟨[], []⟩
        rounds := session.rounds ++ [session.recent]
        results := session.results ++ [session.input.console.terminalRead.1] }

/-- The bytes in the keyboard buffer. -/
def buffered (session : Session) : List UInt8 := session.input.console.shown.contents

end Session

/-- The buffer has room for the key, and backspace does not take back an Enter whose line is
still in it. -/
def Fits (session : Session) : Console.KeyAction → Prop
  | .type _ => session.input.console.shown.count < 127
  | .newline _ => session.input.console.shown.count < 128
  | .erase => session.recent.current ≠ [] ∨ session.buffered = []
  | _ => True

/-- So it is with every key. -/
def KeepsLines (session : Session) : Event → Prop
  | .key scancode beyond => Fits session (Console.keyAction session.input.console.keyboard scancode beyond)
  | _ => True

/-- Besides, when a read completes nothing has been typed of a further line. -/
def AtLineEnd (session : Session) (event : Event) : Prop :=
  KeepsLines session event ∧ (event = .complete → session.recent.current = [])

/-- Besides, a single line has been typed by then since the read before. -/
def InTurn (session : Session) (event : Event) : Prop :=
  AtLineEnd session event ∧ (event = .complete → session.recent.lines.length = 1)

instance (session : Session) : DecidablePred (Fits session)
  | .type _ => inferInstanceAs (Decidable (session.input.console.shown.count < 127))
  | .newline _ => inferInstanceAs (Decidable (session.input.console.shown.count < 128))
  | .erase => inferInstanceAs (Decidable (session.recent.current ≠ [] ∨ session.buffered = []))
  | .modifier _ _ _ _ | .ignored | .clear | .interrupt | .switch _ => isTrue trivial

instance (session : Session) : DecidablePred (KeepsLines session)
  | .key scancode beyond => inferInstanceAs (Decidable (Fits session
      (Console.keyAction session.input.console.keyboard scancode beyond)))
  | .begin | .complete => isTrue trivial

instance (session : Session) (event : Event) : Decidable (AtLineEnd session event) :=
  inferInstanceAs (Decidable (_ ∧ _))

instance (session : Session) (event : Event) : Decidable (InTurn session event) :=
  inferInstanceAs (Decidable (_ ∧ _))

/-! ## The buffer -/

/-- A line has one newline, at its end. -/
def IsLine (line : List UInt8) : Prop := ∃ text, line = text ++ [10] ∧ 10 ∉ text

/-- The buffer holds what has been typed since the last read completed, and each read has returned
the first line of its round. -/
structure Holds (session : Session) : Prop where
  buffered : session.buffered = session.recent.lines.flatten ++ session.recent.current
  lines : ∀ line ∈ session.recent.lines, IsLine line
  current : 10 ∉ session.recent.current
  woken : session.input.waiting () = true → session.input.console.keyboard.readFlag = true →
    session.recent.lines ≠ []
  returned : session.results.map some = session.rounds.map fun round => round.lines.head?

theorem firstLine_isLine {line : List UInt8} (isLine : IsLine line) (rest : List UInt8) :
    Console.firstLine (line ++ rest) = line := by
  obtain ⟨text, rfl, none⟩ := isLine
  induction text with
  | nil => rfl
  | cons byte text ih =>
      obtain ⟨other, remaining⟩ := not_or.mp (mt List.mem_cons.mpr none)
      have later := ih remaining
      simp only [List.cons_append, Console.firstLine, if_neg (Ne.symm other)] at later ⊢
      rw [later]

/-! ## Keys -/

/-- The table has no carriage return. -/
theorem scancodeDict_noReturn : ∀ row : Fin 59,
    (Console.scancodeDict.get row).1 ≠ 13 ∧ (Console.scancodeDict.get row).2 ≠ 13 := by
  decide

theorem pressedKey_ne_return {scancode : UInt8} (inside : scancode < 0x3B) (keyboard : Keyboard) (beyond : UInt8) :
    Console.pressedKey keyboard beyond scancode ≠ 13 := by
  have below : scancode.toNat < 59 := UInt8.lt_iff_toNat_lt.mp inside
  have looked : ∀ shifted, Console.scancodeLookup beyond scancode shifted ≠ 13 := by
    intro shifted
    obtain ⟨plain, shift⟩ := scancodeDict_noReturn ⟨scancode.toNat, below⟩
    have found : Console.scancodeDict[scancode.toNat]? =
        some (Console.scancodeDict.get ⟨scancode.toNat, below⟩) := List.getElem?_eq_getElem below
    unfold Console.scancodeLookup
    rw [found]
    cases shifted with
    | false => exact plain
    | true => exact shift
  unfold Console.pressedKey
  simp only []
  rw [if_pos inside]
  split
  · apply looked
  · apply looked

/-- A byte that is typed is no newline, and Enter is one or a carriage return. -/
def Sorts (pressed : UInt8) : Console.KeyAction → Prop
  | .type byte => byte = pressed ∧ ¬ (byte = 10 ∨ byte = 13)
  | .newline byte => byte = pressed ∧ (byte = 10 ∨ byte = 13)
  | _ => True

theorem sorts_keyAction (keyboard : Keyboard) (scancode beyond : UInt8) :
    Sorts (Console.pressedKey keyboard beyond scancode) (Console.keyAction keyboard scancode beyond) := by
  obtain ⟨buffer, readFlag, caps, shift, ctrl, alt⟩ := keyboard
  unfold Console.keyAction
  generalize Console.pressedKey ⟨buffer, readFlag, caps, shift, ctrl, alt⟩ beyond scancode = pressed
  iterate 11 refine iteInduction (fun _ => trivial) fun _ => ?_
  refine iteInduction (fun newline => ⟨rfl, newline⟩) fun other => ?_
  iterate 3 refine iteInduction (fun _ => trivial) fun _ => ?_
  exact ⟨rfl, other⟩

theorem newline_of_table {keyboard : Keyboard} {scancode beyond pressed : UInt8} (inside : scancode < 0x3B)
    (action : Console.keyAction keyboard scancode beyond = .newline pressed) : pressed = 10 := by
  have sorted := sorts_keyAction keyboard scancode beyond
  rw [action] at sorted
  obtain ⟨rfl, newline⟩ := sorted
  exact newline.resolve_right (pressedKey_ne_return inside keyboard beyond)

theorem typed_not_newline {keyboard : Keyboard} {scancode beyond pressed : UInt8}
    (action : Console.keyAction keyboard scancode beyond = .type pressed) : pressed ≠ 10 := by
  have sorted := sorts_keyAction keyboard scancode beyond
  rw [action] at sorted
  exact fun newline => sorted.2 (Or.inl newline)

section

variable {session next : Session}

theorem contents_typeByte {console : Console} {limit : Nat} {pressed : UInt8}
    (room : console.shown.count < 128 ∧ console.shown.count < limit) :
    (console.typeByte limit pressed).shown.contents = console.shown.contents ++ [pressed] := by
  have pushed : console.typeByte limit pressed =
      (console.putc pressed).setShown (console.shown.push pressed room.1) := dif_pos room
  rw [pushed, LineEditing.shown_setShown, LineBuffer.contents_push]

theorem contents_backspace (console : Console) :
    console.backspace.shown.contents = console.shown.contents.dropLast := by
  by_cases some : console.shown.count = 0
  · have same : console.backspace = console := if_neg (not_not.mpr some)
    have empty : console.shown.contents = [] :=
      List.eq_nil_of_length_eq_zero ((LineBuffer.length_contents _).trans some)
    rw [same, empty, List.dropLast_nil]
  · rw [LineEditing.backspace_eq console some, LineEditing.shown_setShown, LineBuffer.contents_pop]

theorem contents_enter {console : Console} {pressed : UInt8} (room : console.shown.count < 128) :
    (console.enter pressed).shown.contents = console.shown.contents ++ [pressed] := by
  rw [Console.enter_of_room pressed room]
  exact contents_typeByte ⟨room, room⟩

/-- A key that is not Ctrl+C, from where the handler has returned. -/
theorem key_step {scancode beyond : UInt8} (taken : session.step (.key scancode beyond) = some next) :
    ∃ console, session.input.console.perform
        (Console.keyAction session.input.console.keyboard scancode beyond) = .returns console ∧
      admitted scancode (Console.keyAction session.input.console.keyboard scancode beyond) = true ∧
      next.input.console = console ∧ next.input.waiting = session.input.waiting ∧
      next.typed = session.typed.edit (Console.keyAction session.input.console.keyboard scancode beyond) ∧
      next.recent = session.recent.edit (Console.keyAction session.input.console.keyboard scancode beyond) ∧
      next.rounds = session.rounds ∧ next.results = session.results := by
  simp only [Session.step] at taken
  split at taken
  · rename_i accepted
    obtain ⟨input, pressed, rfl⟩ := Option.map_eq_some_iff.mp taken
    have handled := session.input.console.keyboardIrqHandler_eq scancode beyond
    simp only [Input.step, handled] at pressed
    cases outcome : session.input.console.perform
        (Console.keyAction session.input.console.keyboard scancode beyond) with
    | returns console =>
        rw [outcome] at pressed
        obtain rfl := Option.some.inj pressed
        exact ⟨console, rfl, accepted, rfl, rfl, rfl, rfl, rfl, rfl⟩
    | halts console =>
        -- only Ctrl+C gets here, which is not admitted
        cases action : Console.keyAction session.input.console.keyboard scancode beyond <;>
          rw [action] at outcome accepted <;> cases outcome
        cases accepted
  · cases taken

/-- An event within the line that is being typed. -/
theorem Holds.within (holds : Holds session) (results : next.results = session.results)
    (rounds : next.rounds = session.rounds) (lines : next.recent.lines = session.recent.lines)
    (buffered : next.buffered = session.recent.lines.flatten ++ next.recent.current)
    (current : 10 ∉ next.recent.current)
    (woken : next.input.waiting () = true → next.input.console.keyboard.readFlag = true →
      session.input.waiting () = true ∧ session.input.console.keyboard.readFlag = true) : Holds next := by
  refine ⟨?_, ?_, current, ?_, ?_⟩
  · rw [buffered, lines]
  · rw [lines]
    exact holds.lines
  · intro waits set
    obtain ⟨before, already⟩ := woken waits set
    rw [lines]
    exact holds.woken before already
  · rw [results, rounds]
    exact holds.returned

/-- Enter, which ends a line. -/
theorem Holds.enter (holds : Holds session) (room : session.input.console.shown.count < 128)
    (shown : next.input.console = session.input.console.enter 10)
    (recent : next.recent = session.recent.edit (.newline 10)) (rounds : next.rounds = session.rounds)
    (results : next.results = session.results) : Holds next := by
  have before : session.input.console.shown.contents =
      session.recent.lines.flatten ++ session.recent.current := holds.buffered
  have lines : next.recent.lines = session.recent.lines ++ [session.recent.current ++ [10]] :=
    congrArg Editor.lines recent
  have current : next.recent.current = [] := congrArg Editor.current recent
  refine ⟨?_, ?_, ?_, ?_, ?_⟩
  · rw [Session.buffered, shown, lines, current, contents_enter room, before]
    simp
  · rw [lines]
    intro line member
    rcases List.mem_append.mp member with earlier | last
    · exact holds.lines line earlier
    · exact ⟨session.recent.current, List.mem_singleton.mp last, holds.current⟩
  · rw [current]
    exact List.not_mem_nil
  · rw [lines]
    intro _ _
    exact List.append_ne_nil_of_right_ne_nil _ (List.cons_ne_nil _ _)
  · rw [results, rounds]
    exact holds.returned

theorem Holds.key (holds : Holds session) {scancode beyond : UInt8}
    (keeps : KeepsLines session (.key scancode beyond))
    (taken : session.step (.key scancode beyond) = some next) : Holds next := by
  obtain ⟨console, performed, accepted, shown, waiting, -, recent, rounds, results⟩ := key_step taken
  have before : session.input.console.shown.contents =
      session.recent.lines.flatten ++ session.recent.current := holds.buffered
  change Fits session (Console.keyAction session.input.console.keyboard scancode beyond) at keeps
  cases action : Console.keyAction session.input.console.keyboard scancode beyond with
  | modifier caps shift ctrl alt =>
      rw [action] at performed recent
      obtain rfl := Console.KeyResult.returns.inj performed
      apply holds.within results rounds
      · rw [recent]
        rfl
      · rw [Session.buffered, shown, recent]
        exact before
      · rw [recent]
        exact holds.current
      · rw [waiting, shown]
        exact And.intro
  | type pressed =>
      rw [action] at performed recent keeps
      obtain rfl := Console.KeyResult.returns.inj performed
      apply holds.within results rounds
      · rw [recent]
        rfl
      · have room : session.input.console.shown.count < 128 ∧ session.input.console.shown.count < 127 :=
          ⟨Nat.lt_succ_of_lt keeps, keeps⟩
        rw [Session.buffered, shown, recent, contents_typeByte room, before]
        exact List.append_assoc _ _ _
      · rw [recent]
        intro member
        rcases List.mem_append.mp member with earlier | last
        · exact holds.current earlier
        · exact typed_not_newline action (List.mem_singleton.mp last).symm
      · rw [waiting, shown, (session.input.console.typeByte_kept 127 pressed).2]
        exact And.intro
  | erase =>
      rw [action] at performed recent keeps
      obtain rfl := Console.KeyResult.returns.inj performed
      apply holds.within results rounds
      · rw [recent]
        rfl
      · rw [Session.buffered, shown, recent, contents_backspace, before]
        rcases keeps with some | empty
        · exact List.dropLast_append_of_ne_nil some
        · have none : session.recent.lines.flatten ++ session.recent.current = [] := before.symm.trans empty
          obtain ⟨noLines, noneTyped⟩ := List.append_eq_nil_iff.mp none
          simp [Editor.edit, noLines, noneTyped]
      · rw [recent]
        exact fun member => holds.current (List.mem_of_mem_dropLast member)
      · rw [waiting, shown, session.input.console.backspace_kept.2]
        exact And.intro
  | newline pressed =>
      rw [action] at performed recent keeps accepted
      obtain rfl := Console.KeyResult.returns.inj performed
      obtain rfl := newline_of_table (of_decide_eq_true accepted) action
      exact holds.enter keeps shown recent rounds results
  | ignored | clear | interrupt | switch =>
      rw [action] at accepted
      cases accepted

theorem begin_step (taken : session.step .begin = some next) :
    next = { session with input :=
      { session.input.arrive (session.input.console.setReadFlag false) with
        waiting := update session.input.waiting () true } } := by
  obtain ⟨input, began, rfl⟩ := Option.map_eq_some_iff.mp taken
  simp only [Input.step] at began
  split at began
  · cases began
  · rw [← Option.some.inj began]

theorem complete_step (taken : session.step .complete = some next) :
    session.input.waiting () = true ∧ session.input.console.keyboard.readFlag = true ∧
    next = { session with
      input := { session.input.arrive session.input.console.terminalRead.2 with
        waiting := update session.input.waiting () false }
      recent := ⟨[], []⟩
      rounds := session.rounds ++ [session.recent]
      results := session.results ++ [session.input.console.terminalRead.1] } := by
  obtain ⟨input, completed, rfl⟩ := Option.map_eq_some_iff.mp taken
  simp only [Input.step] at completed
  split at completed
  · rename_i awake
    exact ⟨awake.1, awake.2, by rw [← Option.some.inj completed]⟩
  · cases completed

/-- A read that completes returns the first line typed since the one before. -/
theorem Holds.complete (holds : Holds session) (waits : session.input.waiting () = true)
    (set : session.input.console.keyboard.readFlag = true) :
    session.recent.lines.head? = some session.input.console.terminalRead.1 := by
  obtain ⟨line, rest, lines⟩ := List.exists_cons_of_ne_nil (holds.woken waits set)
  have isLine : IsLine line := holds.lines line (lines ▸ List.mem_cons_self)
  have contents : session.input.console.shown.contents =
      line ++ (rest.flatten ++ session.recent.current) := by
    have before : session.input.console.shown.contents =
        session.recent.lines.flatten ++ session.recent.current := holds.buffered
    rw [before, lines, List.flatten_cons, List.append_assoc]
  have first : session.input.console.terminalRead.1 =
      Console.firstLine session.input.console.shown.contents := rfl
  rw [lines, first, contents, firstLine_isLine isLine]
  rfl

/-- What one event does. -/
theorem Holds.step (holds : Holds session) {event : Event} (keeps : KeepsLines session event)
    (taken : session.step event = some next) : Holds next := by
  cases event with
  | key scancode beyond => exact holds.key keeps taken
  | begin =>
      obtain rfl := begin_step taken
      exact holds.within rfl rfl rfl holds.buffered holds.current nofun
  | complete =>
      obtain ⟨waits, set, rfl⟩ := complete_step taken
      refine ⟨?_, nofun, List.not_mem_nil, ?_, ?_⟩
      · have same : session.input.console.terminalRead.2.shown =
            (session.input.console.setReadFlag false).shown.clear := LineEditing.shown_setShown _ _
        have cleared : session.input.console.terminalRead.2.shown.contents = [] := by
          rw [same, LineBuffer.contents_clear]
        exact cleared
      · intro again
        simp at again
      · rw [List.map_append, List.map_append, holds.returned]
        have answered := holds.complete waits set
        simp [answered]

theorem holds_start {console : Console} (empty : console.shown.count = 0) : Holds (Session.start console) := by
  refine ⟨?_, nofun, List.not_mem_nil, nofun, rfl⟩
  exact List.eq_nil_of_length_eq_zero ((LineBuffer.length_contents _).trans empty)

/-! ## Rounds -/

/-- The lines of the completed rounds. -/
def Session.past (session : Session) : List (List UInt8) := session.rounds.flatMap Editor.lines

/-- As long as no read completes in the middle of a line, nothing typed is outside the rounds. -/
theorem rounds_step {event : Event} (atEnd : AtLineEnd session event)
    (taken : session.step event = some next) (all : session.typed = session.recent.after session.past) :
    next.typed = next.recent.after next.past := by
  cases event with
  | key scancode beyond =>
      obtain ⟨console, -, -, -, -, typed, recent, rounds, -⟩ := key_step taken
      have past : next.past = session.past := congrArg (List.flatMap Editor.lines) rounds
      rw [typed, recent, all, Editor.edit_after, past]
  | begin =>
      obtain rfl := begin_step taken
      exact all
  | complete =>
      obtain ⟨-, -, rfl⟩ := complete_step taken
      have none : session.recent.current = [] := atEnd.2 rfl
      simp [all, Editor.after, Session.past, none]

/-- With one line for each read, the rounds are what the reads return. -/
theorem inTurn_step (holds : Holds session) {event : Event} (inTurn : InTurn session event)
    (taken : session.step event = some next) (all : session.past = session.results) :
    next.past = next.results := by
  cases event with
  | key scancode beyond =>
      obtain ⟨console, -, -, -, -, -, -, rounds, results⟩ := key_step taken
      rw [Session.past, rounds, results]
      exact all
  | begin =>
      obtain rfl := begin_step taken
      exact all
  | complete =>
      obtain ⟨waits, set, rfl⟩ := complete_step taken
      obtain ⟨line, only⟩ := List.length_eq_one_iff.mp (inTurn.2 rfl)
      have answered := holds.complete waits set
      rw [only] at answered
      have returned : line = session.input.console.terminalRead.1 := Option.some.inj answered
      have before : session.rounds.flatMap Editor.lines = session.results := all
      simp [Session.past, before, only, returned]

end

/-- Whatever lies between the reads, each returns the first line typed since the one before it
completed, and the buffer holds what has been typed since the last. If no read completes in the
middle of a line, these rounds are all that was typed; if each has one line, the results and
the buffered lines are all the lines typed, in order and each once. -/
theorem lines_reach_reader {console : Console} (empty : console.shown.count = 0) {events : List Event}
    {final : Session}
    (keeps : Transition.EachStep Session.step KeepsLines (Session.start console) events)
    (ran : Transition.run Session.step (Session.start console) events = some final) :
    (final.results.map some = final.rounds.map (fun round => round.lines.head?) ∧
      final.buffered = final.recent.lines.flatten ++ final.recent.current) ∧
    (Transition.EachStep Session.step AtLineEnd (Session.start console) events →
      final.typed.lines = final.rounds.flatMap Editor.lines ++ final.recent.lines ∧
        final.typed.current = final.recent.current) ∧
    (Transition.EachStep Session.step InTurn (Session.start console) events →
      final.typed.lines = final.results ++ final.recent.lines ∧
        final.typed.current = final.recent.current) := by
  have holds : Holds final :=
    Transition.run_preserves_of Session.step (holds_start empty)
      (fun _ _ _ before condition taken => before.step condition taken) keeps ran
  have rounds : Transition.EachStep Session.step AtLineEnd (Session.start console) events →
      final.typed = final.recent.after final.past := by
    intro atEnd
    refine Transition.run_preserves_of Session.step (P := fun session =>
      session.typed = session.recent.after session.past) rfl ?_ atEnd ran
    intro session event next all condition taken
    exact rounds_step condition taken all
  refine ⟨⟨holds.returned, holds.buffered⟩, ?_, ?_⟩
  · intro atEnd
    rw [rounds atEnd]
    exact ⟨rfl, rfl⟩
  · intro inTurn
    have returned : Holds final ∧ final.past = final.results := by
      refine Transition.run_preserves_of Session.step (P := fun session =>
        Holds session ∧ session.past = session.results) ⟨holds_start empty, rfl⟩ ?_ inTurn ran
      rintro session event next ⟨before, all⟩ condition taken
      exact ⟨before.step condition.1.1 taken, inTurn_step before condition taken all⟩
    have atEnd : Transition.EachStep Session.step AtLineEnd (Session.start console) events :=
      Transition.EachStep.imp Session.step (fun _ _ condition => condition.1) inTurn
    rw [rounds atEnd, ← returned.2]
    exact ⟨rfl, rfl⟩

/-- A letter, the start of a read, a second letter, a backspace, a third letter, and Enter. -/
def typedAhead : List Event :=
  [.key 0x1E 0, .begin, .key 0x30 0, .key 0x0E 0, .key 0x2E 0, .key 0x1C 0, .complete]

/-- The read returns the line with the letter that was typed before. -/
theorem lines_reach_reader_sample : ∃ final,
    Transition.run Session.step (Session.start Console.loaded) typedAhead = some final ∧
    final.results = [[97, 99, 10]] ∧ final.typed.lines = final.results ++ final.recent.lines := by
  have returned : (Transition.run Session.step (Session.start Console.loaded) typedAhead).map Session.results =
      some [[97, 99, 10]] := by decide +kernel
  obtain ⟨final, ran, results⟩ := Option.map_eq_some_iff.mp returned
  have keeps : Transition.EachStep Session.step KeepsLines (Session.start Console.loaded) typedAhead := by
    decide +kernel
  have inTurn : Transition.EachStep Session.step InTurn (Session.start Console.loaded) typedAhead := by
    decide +kernel
  obtain ⟨_, _, all⟩ := lines_reach_reader rfl keeps ran
  exact ⟨final, ran, results, (all inTurn).1⟩

/-- Three lines for two reads, each key with room in the buffer. The first line is typed before
the first read, which does not see its Enter and takes both lines with the second one. And a
backspace takes back an Enter that has woken a read, which then returns a line without end. -/
theorem line_typed_ahead_is_lost :
    (∃ final, Transition.EachStep Session.step KeepsLines (Session.start Console.loaded)
        [.key 0x1E 0, .key 0x1C 0, .begin, .key 0x30 0, .key 0x1C 0, .complete, .begin, .key 0x2E 0, .key 0x1C 0,
          .complete] ∧
      Transition.run Session.step (Session.start Console.loaded)
        [.key 0x1E 0, .key 0x1C 0, .begin, .key 0x30 0, .key 0x1C 0, .complete, .begin, .key 0x2E 0, .key 0x1C 0,
          .complete] = some final ∧
      final.typed.lines = [[97, 10], [98, 10], [99, 10]] ∧ final.results = [[97, 10], [99, 10]] ∧
      ¬ final.results <+: final.typed.lines) ∧
    ∃ final, Transition.run Session.step (Session.start Console.loaded)
        [.begin, .key 0x1E 0, .key 0x1C 0, .key 0x0E 0, .complete] = some final ∧ final.results = [[97]] := by
  constructor
  · have evaluated : (Transition.run Session.step (Session.start Console.loaded)
        [.key 0x1E 0, .key 0x1C 0, .begin, .key 0x30 0, .key 0x1C 0, .complete, .begin, .key 0x2E 0, .key 0x1C 0,
          .complete]).map (fun session => (session.typed.lines, session.results)) =
        some ([[97, 10], [98, 10], [99, 10]], [[97, 10], [99, 10]]) := by decide +kernel
    obtain ⟨final, ran, values⟩ := Option.map_eq_some_iff.mp evaluated
    obtain ⟨lines, results⟩ := Prod.mk.inj values
    refine ⟨final, by decide +kernel, ran, lines, results, ?_⟩
    rw [lines, results]
    decide
  · have evaluated : (Transition.run Session.step (Session.start Console.loaded)
        [.begin, .key 0x1E 0, .key 0x1C 0, .key 0x0E 0, .complete]).map Session.results = some [[97]] := by
      decide +kernel
    exact Option.map_eq_some_iff.mp evaluated

end LinuxLikeOS.LineInput
