import LinuxLikeOS.ShellProgram

/-!
# From the keys to the commands

The keyboard handler fills the buffer while the shell waits in `terminal_read`. Where lines are typed at prompts only,
the commands that the shell executes are those of the lines that were typed.
-/

namespace LinuxLikeOS.Programs

open Function Blocks Fueled LineInput LinuxLikeOS.Task LinuxLikeOS.ProcessTable LinuxLikeOS.DescriptorRefinement

/-- Keys, each with the byte behind the scancode table, after the start of a read. -/
def pressing (keys : List (UInt8 × UInt8)) : List LineInput.Event :=
  .begin :: keys.map fun key => .key key.1 key.2

/-- From one console to another the keys have typed a line, with what was erased again, and the read can complete. -/
structure Types (keys : List (UInt8 × UInt8)) (line : List UInt8) (before after : Console) : Prop where
  keeps : Transition.EachStep LineInput.Session.step KeepsLines (LineInput.Session.start before) (pressing keys)
  typed : ∃ session next,
    Transition.run LineInput.Session.step (LineInput.Session.start before) (pressing keys) = some session ∧
      session.step .complete = some next ∧ session.recent.lines = [line] ∧ session.input.console = after

/-- Nothing is in the buffer of the displayed terminal. -/
def Clear (shared : Shared) : Prop := shared.console.shown.count = 0

/-- At every prompt a line is typed; the programs and whoever runs in between leave the buffer clear. -/
structure Orderly (world : World) (outside : Outside) (lines : Nat → List UInt8) : Prop where
  waits : ∀ n shared, Clear shared → ∃ keys, Types keys (lines n) shared.console (outside.waits n shared).console
  runs : ∀ n command shared, Clear (outside.runs n command shared).2
  change : ∀ n shared, Clear shared → Clear (world.change n shared)

/-! ## A line -/

/-- What the read returns is the line that was typed. -/
theorem Types.line {keys : List (UInt8 × UInt8)} {line : List UInt8} {before after : Console}
    (types : Types keys line before after) (clear : before.shown.count = 0) : after.terminalRead.1 = line := by
  obtain ⟨session, next, ran, completes, lines, rfl⟩ := types.typed
  have holds : Holds session := Transition.run_preserves_of LineInput.Session.step (holds_start clear)
    (fun _ _ _ before condition taken => before.step condition taken) types.keeps ran
  obtain ⟨waits, set, -⟩ := complete_step completes
  have first := holds.complete waits set
  rw [lines] at first
  exact (Option.some.inj first).symm

theorem clear_terminalRead (console : Console) : console.terminalRead.2.shown.count = 0 := by
  have same : console.terminalRead.2.shown = (console.setReadFlag false).shown.clear :=
    LineEditing.shown_setShown _ _
  rw [same]
  rfl

section

variable {image : Image} {world : World} {outside : Outside} {lines : Nat → List UInt8}
  {fuel buf exitText : Nat}

/-- The shell has read the lines that were typed, one after the other, and the buffer is clear. -/
structure Prompted (lines : Nat → List UInt8) (acts : List Act) (shared : Shared) : Prop where
  clear : Clear shared
  typed : linesRead acts = (List.range (linesRead acts).length).map lines

theorem Prompted.concat {acts : List Act} {before shared : Shared} (prompted : Prompted lines acts before)
    (clear : Clear shared) {act : Act} (other : act.line = none) : Prompted lines (acts ++ [act]) shared := by
  refine ⟨clear, ?_⟩
  have same : linesRead (acts ++ [act]) = linesRead acts := by
    rw [linesRead_append, linesRead, linesRead, List.filterMap_cons_none other, List.filterMap_nil, List.append_nil]
  rw [same]
  exact prompted.typed

theorem holding_prompted (orderly : Orderly world outside lines) : Holding world outside (Prompted lines) where
  writes := by
    intro acts shared prompted calls text
    have clear : Clear ((world.change calls shared).wrote text) := orderly.change calls shared prompted.clear
    exact prompted.concat clear rfl
  reads := by
    intro acts shared prompted calls fds
    have entering : Clear ((world.change calls shared).entering fds) := orderly.change calls shared prompted.clear
    obtain ⟨keys, types⟩ := orderly.waits (linesRead acts).length _ entering
    have line := types.line entering
    refine ⟨clear_terminalRead _, ?_⟩
    rw [line, linesRead_append]
    show linesRead acts ++ [_] = (List.range (linesRead acts ++ [_]).length).map lines
    rw [List.length_append, List.length_singleton, List.range_succ, List.map_append, ← prompted.typed,
      List.map_singleton]
  runs prompted _ _ calls n command _ _ _ := prompted.concat (orderly.runs n command _) rfl

/-- Among the lines of some rounds, an `exit` is the last and the one at which `main` has returned. -/
theorem Outcome.exits {n : Nat} {rounds : List Round} {returned : Option Int} (outcome : Outcome n rounds returned)
    {i : Nat} (inside : i < rounds.length) :
    commandOf rounds[i].line = exitCommand ↔ returned = some 0 ∧ i + 1 = rounds.length := by
  rcases outcome with ⟨rfl, -, others⟩ | ⟨rfl, -, earlier, last, rfl, exits, others⟩
  · exact iff_of_false (others _ (List.getElem_mem inside)) nofun
  · rw [List.length_append, List.length_singleton] at inside ⊢
    rcases Nat.lt_or_eq_of_le (Nat.le_of_lt_succ inside) with before | rfl
    · rw [List.getElem_append_left before]
      refine iff_of_false (others _ (List.getElem_mem before)) fun both => ?_
      have same := both.2
      omega
    · rw [List.getElem_concat_length rfl]
      exact iff_of_true exits ⟨rfl, rfl⟩

theorem Outcome.length_le {n : Nat} {rounds : List Round} {returned : Option Int}
    (outcome : Outcome n rounds returned) :
    rounds.length ≤ n ∧ (returned = none → rounds.length = n) := by
  rcases outcome with ⟨rfl, count, -⟩ | ⟨rfl, count, -⟩
  · exact ⟨Nat.le_of_eq count, fun _ => count⟩
  · exact ⟨count, nofun⟩

/-- Where lines are typed at prompts, with the keys of the keyboard and what Backspace takes back of them, the shell
reads these lines, and executes their commands up to the first `exit`. -/
theorem keystrokes_become_commands {start : Process} (n : Nat) (orderly : Orderly world outside lines)
    (clear : Clear start.shared) (kept : outside.Standard) (standard : StandardOpen start.fds)
    (literal : StringAt start.memory exitText exitCommand)
    (away : ∀ address, Within exitText (exitCommand.length + 1) address → ¬ Within buf 1024 address)
    (enough : 129 < fuel) :
    Returns (fun address => Within buf 1024 address ∨ Within exitText (exitCommand.length + 1) address)
      (fun session => ∃ k ≤ n,
        session.ran.map Prod.fst = (((List.range k).map lines).map commandOf).filter
          (fun command => command ≠ [] ∧ command ≠ exitCommand) ∧
        (session.returned = none → k = n) ∧
        ∀ i < k, commandOf (lines i) = exitCommand ↔ session.returned = some 0 ∧ i + 1 = k)
      (shellMain image world outside fuel buf exitText n start) := by
  refine (shellMain_traces n (holding_prompted orderly) ⟨clear, rfl⟩ kept standard literal away enough).imp ?_
  rintro session ⟨rounds, traces, prompted, outcome⟩
  obtain ⟨most, whole⟩ := outcome.length_le
  have typed := prompted.typed
  rw [linesRead_actsOf, List.length_map] at typed
  refine ⟨rounds.length, most, ?_, whole, fun i inside => ?_⟩
  · rw [traces.commands, traces.typed, typed]
  · have line : rounds[i].line = lines i := by
      have same : (rounds.map Round.line)[i]? = ((List.range rounds.length).map lines)[i]? := by rw [typed]
      simpa [inside] using same
    rw [← line]
    exact outcome.exits inside

end

/-! ## Somebody who types -/

/-- No modifier is held, and Caps Lock is off. -/
structure Unmodified (keyboard : Keyboard) : Prop where
  caps : keyboard.capsFlag = false
  shift : keyboard.shiftFlag = false
  ctrl : keyboard.ctrlFlag = false
  alt : keyboard.altFlag = false

/-- The key types the byte, unless a modifier is held. -/
def Spells (scancode byte : UInt8) : Prop :=
  scancode < 0x3B ∧ ∀ keyboard, Unmodified keyboard → Console.keyAction keyboard scancode 0 = .type byte

/-- The keys after which no modifier is held. -/
def releases (keyboard : Keyboard) : List (UInt8 × UInt8) :=
  (if keyboard.capsFlag then [(0x3A, 0)] else []) ++ [(0xAA, 0), (0x9D, 0), (0xB8, 0)]

/-- The keys of a line; each comes with the byte it types. -/
def spelling (keyboard : Keyboard) (text : List (UInt8 × UInt8)) : List (UInt8 × UInt8) :=
  releases keyboard ++ (text.map fun key => (key.1, 0)) ++ [(0x1C, 0)]

/-- The keys lead from one session to another, and no line is lost. -/
def Leads (session : LineInput.Session) (events : List LineInput.Event) (next : LineInput.Session) : Prop :=
  Transition.EachStep LineInput.Session.step KeepsLines session events ∧
    Transition.run LineInput.Session.step session events = some next

/-- A line is being typed, without modifiers. -/
structure Typing (session : LineInput.Session) (typed : List UInt8) : Prop where
  plain : Unmodified session.input.console.keyboard
  waits : session.input.waiting () = true
  recent : session.recent = ⟨[], typed⟩
  count : session.input.console.shown.count = typed.length

section

variable {session middle next : LineInput.Session} {first rest : List LineInput.Event} {typed : List UInt8}
  {scancode byte : UInt8}

theorem Leads.nil (session : LineInput.Session) : Leads session [] session := ⟨trivial, rfl⟩

theorem Leads.cons {event : LineInput.Event} (taken : session.step event = some middle)
    (keeps : KeepsLines session event) (later : Leads middle rest next) : Leads session (event :: rest) next := by
  refine ⟨Transition.EachStep.cons _ taken keeps later.1, ?_⟩
  rw [Transition.run_cons, taken]
  exact later.2

theorem Leads.append (earlier : Leads session first middle) (later : Leads middle rest next) :
    Leads session (first ++ rest) next := by
  induction first generalizing session with
  | nil =>
      obtain rfl := Option.some.inj earlier.2
      exact later
  | cons event first ih =>
      obtain ⟨⟨keeps, others⟩, ran⟩ := earlier
      obtain ⟨after, taken, remaining⟩ := Option.bind_eq_some_iff.mp ran
      exact Leads.cons taken keeps (ih ⟨others after taken, remaining⟩)

/-- A key from which the handler returns. -/
theorem key_taken {action : Console.KeyAction} {console : Console}
    (acts : Console.keyAction session.input.console.keyboard scancode 0 = action)
    (accepted : admitted scancode action = true) (performed : session.input.console.perform action = .returns console) :
    session.step (.key scancode 0) = some { session with
      input := TerminalInput.afterKey session.input scancode 0 console
      typed := session.typed.edit action
      recent := session.recent.edit action } := by
  subst acts
  simp only [LineInput.Session.step, if_pos accepted, TerminalInput.step_key performed, Option.map_some]

theorem Typing.press (typing : Typing session typed) (spells : Spells scancode byte) (room : typed.length < 127) :
    ∃ next, Leads session [.key scancode 0] next ∧ Typing next (typed ++ [byte]) := by
  have acts := spells.2 _ typing.plain
  have below : session.input.console.shown.count < 128 ∧ session.input.console.shown.count < 127 := by
    rw [typing.count]
    omega
  have pushed : session.input.console.typeByte 127 byte =
      (session.input.console.putc byte).setShown (session.input.console.shown.push byte below.1) := dif_pos below
  have keeps : KeepsLines session (.key scancode 0) := by
    rw [KeepsLines, acts]
    exact below.2
  refine ⟨_, Leads.cons (key_taken acts (decide_eq_true spells.1) rfl) keeps (Leads.nil _), ?_, typing.waits, ?_, ?_⟩
  · show Unmodified (session.input.console.typeByte 127 byte).keyboard
    rw [pushed]
    exact ⟨typing.plain.caps, typing.plain.shift, typing.plain.ctrl, typing.plain.alt⟩
  · rw [typing.recent]
    rfl
  · show (session.input.console.typeByte 127 byte).shown.count = _
    rw [pushed, LineEditing.shown_setShown, List.length_append, ← typing.count]
    rfl

theorem Typing.text {text : List (UInt8 × UInt8)} (typing : Typing session typed)
    (spells : ∀ key ∈ text, Spells key.1 key.2) (room : typed.length + text.length ≤ 127) :
    ∃ next, Leads session (text.map fun key => .key key.1 0) next ∧ Typing next (typed ++ text.map Prod.snd) := by
  induction text generalizing session typed with
  | nil => exact ⟨session, Leads.nil _, (List.append_nil typed).symm ▸ typing⟩
  | cons key text ih =>
      rw [List.length_cons] at room
      obtain ⟨middle, pressed, typing⟩ := typing.press (spells key List.mem_cons_self) (by omega)
      have shorter : (typed ++ [key.2]).length + text.length ≤ 127 := by
        rw [List.length_append, List.length_singleton]
        omega
      obtain ⟨next, later, typing⟩ :=
        ih typing (fun other inside => spells other (List.mem_cons_of_mem _ inside)) shorter
      refine ⟨next, pressed.append later, ?_⟩
      rw [List.map_cons, List.append_cons]
      exact typing

/-- The read has begun and nothing has been typed. -/
structure Begun (session : LineInput.Session) : Prop where
  waits : session.input.waiting () = true
  recent : session.recent = ⟨[], []⟩
  clear : session.input.console.shown.count = 0

theorem Begun.modifier {caps shift ctrl alt : Bool} (begun : Begun session) (scancode : UInt8)
    (acts : Console.keyAction session.input.console.keyboard scancode 0 = .modifier caps shift ctrl alt) :
    ∃ next, Leads session [.key scancode 0] next ∧ Begun next ∧ next.input.console.keyboard =
      { session.input.console.keyboard with
        capsFlag := caps, shiftFlag := shift, ctrlFlag := ctrl, altFlag := alt } := by
  have keeps : KeepsLines session (.key scancode 0) := by
    rw [KeepsLines, acts]
    trivial
  exact ⟨_, Leads.cons (key_taken acts rfl rfl) keeps (Leads.nil _), ⟨begun.waits, begun.recent, begun.clear⟩, rfl⟩

/-- Caps Lock is switched off. -/
theorem Begun.caps (begun : Begun session) :
    ∃ next, Leads session ((if session.input.console.keyboard.capsFlag then [(0x3A, 0)] else []).map
        fun key : UInt8 × UInt8 => .key key.1 key.2) next ∧ Begun next ∧
      next.input.console.keyboard.capsFlag = false := by
  cases locked : session.input.console.keyboard.capsFlag with
  | false => exact ⟨session, Leads.nil _, begun, locked⟩
  | true =>
      obtain ⟨next, leads, begun, keyboard⟩ := begun.modifier 0x3A rfl
      refine ⟨next, leads, begun, ?_⟩
      rw [keyboard, locked]
      rfl

/-- The modifiers are let go of. -/
theorem Begun.typing (begun : Begun session) :
    ∃ next, Leads session ((releases session.input.console.keyboard).map fun key => .key key.1 key.2) next ∧
      Typing next [] := by
  obtain ⟨first, toggled, begun, caps⟩ := begun.caps
  obtain ⟨second, shifted, begun, keyboard⟩ := begun.modifier 0xAA rfl
  obtain ⟨third, controlled, begun, keyboard'⟩ := begun.modifier 0x9D rfl
  obtain ⟨next, altered, begun, keyboard''⟩ := begun.modifier 0xB8 rfl
  refine ⟨next, ?_, ?_, begun.waits, begun.recent, begun.clear⟩
  · rw [releases, List.map_append]
    exact toggled.append (shifted.append (controlled.append altered))
  · constructor <;> simp only [keyboard'', keyboard', keyboard, caps]

/-- Enter ends the line, and the read can complete. -/
theorem Typing.enter (typing : Typing session typed) (room : typed.length < 128) :
    ∃ next, Leads session [.key 0x1C 0] next ∧ next.recent.lines = [typed ++ [10]] ∧
      next.input.waiting () = true ∧ next.input.console.keyboard.readFlag = true := by
  have below : session.input.console.shown.count < 128 := by rwa [typing.count]
  have acts := WaitingRead.keyAction_enter session.input.console.keyboard 0
  have keeps : KeepsLines session (.key 0x1C 0) := by
    rw [KeepsLines, acts]
    exact below
  refine ⟨_, Leads.cons (key_taken acts rfl rfl) keeps (Leads.nil _), ?_, typing.waits, ?_⟩
  · rw [typing.recent]
    rfl
  · exact Console.enter_readFlag 10 below

end

/-- A read has begun. -/
def begins (console : Console) : LineInput.Session :=
  let start := TerminalInput.Input.boot console
  ⟨{ start.arrive (console.setReadFlag false) with waiting := update start.waiting () true },
    ⟨[], []⟩, ⟨[], []⟩, [], []⟩

/-- The console after the keys have been pressed. -/
def pressed (keys : List (UInt8 × UInt8)) (console : Console) : Console :=
  (Transition.run LineInput.Session.step (LineInput.Session.start console) (pressing keys)).elim console
    fun session => session.input.console

/-- Whatever the modifiers, a line that the keys spell can be typed into a clear buffer. -/
theorem types_spelling {console : Console} {text : List (UInt8 × UInt8)} (clear : console.shown.count = 0)
    (spells : ∀ key ∈ text, Spells key.1 key.2) (room : text.length ≤ 127) :
    Types (spelling console.keyboard text) (text.map Prod.snd ++ [10]) console
      (pressed (spelling console.keyboard text) console) := by
  have begun : Leads (LineInput.Session.start console) [.begin] (begins console) :=
    Leads.cons rfl trivial (Leads.nil _)
  have ready : Begun (begins console) := ⟨rfl, rfl, clear⟩
  obtain ⟨plain, released, typing⟩ := ready.typing
  obtain ⟨typed, entered, typing⟩ := typing.text spells (by simpa using room)
  have short : (text.map Prod.snd).length < 128 := by
    rw [List.length_map]
    omega
  obtain ⟨last, ended, lines, waits, set⟩ := typing.enter short
  have leads : Leads (LineInput.Session.start console) (pressing (spelling console.keyboard text)) last := by
    have same : releases (begins console).input.console.keyboard = releases console.keyboard := rfl
    have all := begun.append (released.append (entered.append ended))
    simpa [pressing, spelling, comp_def, same] using all
  have after : pressed (spelling console.keyboard text) console = last.input.console := by
    rw [pressed, leads.2]
    rfl
  have completes : ∃ next, last.step .complete = some next := by
    simp [LineInput.Session.step, TerminalInput.Input.step, waits, set]
  obtain ⟨next, completes⟩ := completes
  exact ⟨leads.1, last, next, leads.2, completes, lines, after.symm⟩

/-- Somebody types these lines at the prompts. -/
def Outside.typist (texts : Nat → List (UInt8 × UInt8)) : Outside where
  waits n shared := { shared with console := pressed (spelling shared.console.keyboard (texts n)) shared.console }
  runs _ _ shared := (0, { shared with console := Console.loaded })

theorem orderly_typist {texts : Nat → List (UInt8 × UInt8)} (spells : ∀ n, ∀ key ∈ texts n, Spells key.1 key.2)
    (room : ∀ n, (texts n).length ≤ 127) :
    Orderly World.quiet (Outside.typist texts) fun n => (texts n).map Prod.snd ++ [10] where
  waits n _ clear := ⟨_, types_spelling clear (spells n) (room n)⟩
  runs _ _ _ := rfl
  change _ _ clear := clear

/-- The keys of `ls`, and then of `exit`. -/
def lsThenExit : Nat → List (UInt8 × UInt8)
  | 0 => [(0x26, 108), (0x1F, 115)]
  | _ => [(0x12, 101), (0x2D, 120), (0x17, 105), (0x14, 116)]

theorem spells_of {scancode byte : UInt8} (inside : scancode < 0x3B)
    (acts : ∀ buffer flag, Console.keyAction ⟨buffer, flag, false, false, false, false⟩ scancode 0 = .type byte) :
    Spells scancode byte := by
  refine ⟨inside, fun keyboard plain => ?_⟩
  obtain ⟨buffer, flag, caps, shift, ctrl, alt⟩ := keyboard
  obtain ⟨rfl, rfl, rfl, rfl⟩ := plain
  exact acts buffer flag

theorem spells_lsThenExit (n : Nat) : (∀ key ∈ lsThenExit n, Spells key.1 key.2) ∧ (lsThenExit n).length ≤ 127 := by
  cases n with
  | zero =>
      refine ⟨?_, by decide⟩
      simp only [lsThenExit, List.forall_mem_cons]
      exact ⟨spells_of (by decide) fun _ _ => rfl, spells_of (by decide) fun _ _ => rfl, nofun⟩
  | succ n =>
      refine ⟨?_, (by decide : 4 ≤ 127)⟩
      simp only [lsThenExit, List.forall_mem_cons]
      exact ⟨spells_of (by decide) fun _ _ => rfl, spells_of (by decide) fun _ _ => rfl,
        spells_of (by decide) fun _ _ => rfl, spells_of (by decide) fun _ _ => rfl, nofun⟩

theorem keystrokes_become_commands_ls :
    Returns (fun address => Within 0 1024 address ∨ Within 2000 (exitCommand.length + 1) address)
      (fun session => ∃ k ≤ 3,
        session.ran.map Prod.fst =
          (((List.range k).map fun n => (lsThenExit n).map Prod.snd ++ [10]).map commandOf).filter
            (fun command => command ≠ [] ∧ command ≠ exitCommand) ∧
        (session.returned = none → k = 3) ∧
        ∀ i < k, commandOf ((lsThenExit i).map Prod.snd ++ [10]) = exitCommand ↔
          session.returned = some 0 ∧ i + 1 = k)
      (shellMain Image.sample World.quiet (Outside.typist lsThenExit) 130 0 2000 3 Process.startedShell) := by
  have literal : StringAt Process.startedShell.memory 2000 exitCommand :=
    ⟨fun i inside => written_inside (fun _ => 0) inside, by decide, by decide⟩
  have orderly := orderly_typist (fun n => (spells_lsThenExit n).1) fun n => (spells_lsThenExit n).2
  refine keystrokes_become_commands 3 orderly rfl (fun _ _ standard => standard) (initFds_standardOpen _) literal ?_
    (by decide)
  rintro address ⟨low, _⟩ ⟨_, high⟩
  omega

end LinuxLikeOS.Programs
