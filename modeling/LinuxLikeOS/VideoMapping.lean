import LinuxLikeOS.Kernel
import LinuxLikeOS.Transition

/-!
# The video mapping (`vidmap`, `pit_irq_handler`, `open_terminal`)

A program that has called `vidmap` draws through `vid_table[0]`. There is one such table, and one
entry `page_directory[34]` that makes it accessible; three functions write to them, each from
what it knows. This follows both through the runs of the kernel, with a record of who has
called `vidmap`.
-/

namespace LinuxLikeOS

open Function Kernel

namespace VideoMapping

/-- The kernel, and the processes that have called `vidmap` with success since they were started. -/
structure State where
  kernel : Kernel
  mapped : Int → Bool

/-- The addresses in the page of the user, where `vidmap` stores its answer. -/
def InUserPage (screenStart : Nat) : Prop := 0x08000000 ≤ screenStart ∧ screenStart < 0x08400000 - 4

namespace State

def start (layout : Layout) (pcb : Int → Pcb) (rtc : Rtc) (leftovers : Leftovers) : State :=
  ⟨entry layout pcb rtc leftovers, fun _ => false⟩

/-- Memory of zeros. -/
def sample : State := start Layout.sample (fun _ => Pcb.zeros) ⟨0, false⟩ .zeros

/-- What is recorded of an event. -/
def record (state : State) (event : Event) (transfer : Transfer) (after : Kernel) : State :=
  match event, transfer with
  | .vidmap _, .returns 0 => ⟨after, update state.mapped state.kernel.newPid true⟩
  | _, .program _ _ => ⟨after, update state.mapped after.newPid false⟩
  | _, _ => ⟨after, state.mapped⟩

def step (image : Image) (layout : Layout) (state : State) (event : Event) : Option State :=
  (state.kernel.step image layout event).map fun (transfer, after) => state.record event transfer after

end State

/-! ## What an event does to the mapping -/

/-- The two tables have the same entries for video memory. -/
structure SameVideo (kernel after : Kernel) : Prop where
  page : after.paging.vidTable = kernel.paging.vidTable
  entry : after.paging.pageDirectory vidIdx = kernel.paging.pageDirectory vidIdx

/-- The same process runs, with the same terminals and the same one on display. -/
structure SamePlace (kernel after : Kernel) : Prop where
  newPid : after.newPid = kernel.newPid
  currentPid : after.currentPid = kernel.currentPid
  displayed : after.console.currentTerminal = kernel.console.currentTerminal

/-- The event can only return without a change to either. -/
def Quiet (kernel : Kernel) : Event → Prop
  | .execute _ _ _ => True
  | .halt _ _ _ | .vidmap _ => False
  | .openTerminal terminalId => ∀ terminal : Terminal, terminalId = terminal.val →
      terminal = kernel.console.currentTerminal
  | .tick _ _ _ => (kernel.terminalArray kernel.tempTerminal).onOffFlag = true →
      kernel.currentPid (kernel.tempTerminal + 1) < 3

/-- The event can start a process. -/
def Launches (kernel : Kernel) : Event → Prop
  | .execute _ _ _ => True
  | .halt _ _ _ => (kernel.pcb kernel.newPid).parentPid = -1
  | .vidmap _ | .openTerminal _ => False
  | .tick _ _ _ => (kernel.terminalArray kernel.tempTerminal).onOffFlag = false

/-- The frame that a terminal is drawn on. -/
def pageOf (displayed terminal : Terminal) : Nat :=
  if terminal = displayed then 0xB8000 / 2 ^ 12 else 0xBA000 / 2 ^ 12 + terminal.val

inductive Moves (kernel after : Kernel) : Event → Transfer → Prop where
  | stays {event : Event} {ret : Int} (quiet : Quiet kernel event) (video : SameVideo kernel after)
      (place : SamePlace kernel after) : Moves kernel after event (.returns ret)
  | refuses {screenStart : Nat} (outside : ¬ InUserPage screenStart) (video : SameVideo kernel after)
      (place : SamePlace kernel after) : Moves kernel after (.vidmap screenStart) (.returns (-1))
  | maps {screenStart : Nat} (running : 0 ≤ kernel.newPid) (inside : InUserPage screenStart)
      (place : SamePlace kernel after) (page : (after.paging.vidTable 0).addy = 0xB8000 / 2 ^ 12)
      (entry : (after.paging.pageDirectory vidIdx).present = true ∧
        (after.paging.pageDirectory vidIdx).us = true) :
      Moves kernel after (.vidmap screenStart) (.returns 0)
  | starts {event : Event} {eip : Nat} {loaded : List UInt8} (launches : Launches kernel event)
      (video : SameVideo kernel after) : Moves kernel after event (.program eip loaded)
  | ends {status : UInt8} {inner : Frame} {locals : Locals} {ret : Int} {frame : Frame}
      (parent : after.newPid = (kernel.pcb kernel.newPid).parentPid)
      (currentPid : after.currentPid =
        update kernel.currentPid kernel.schedTerminal (kernel.pcb kernel.newPid).parentPid)
      (displayed : after.console.currentTerminal = kernel.console.currentTerminal)
      (video : SameVideo kernel after) : Moves kernel after (.halt status inner locals) (.parent ret frame)
  | shows {terminal : Terminal} (other : terminal ≠ kernel.console.currentTerminal)
      (newPid : after.newPid = kernel.newPid) (currentPid : after.currentPid = kernel.currentPid)
      (displayed : after.console.currentTerminal = terminal) (video : SameVideo kernel after) :
      Moves kernel after (.openTerminal terminal.val) (.returns 0)
  | turns {frame inner stack : Frame} {locals : Locals}
      (seen : (kernel.terminalArray kernel.tempTerminal).onOffFlag = true)
      (busy : 3 ≤ kernel.currentPid (kernel.tempTerminal + 1))
      (newPid : after.newPid = kernel.currentPid (kernel.tempTerminal + 1))
      (currentPid : after.currentPid = kernel.currentPid)
      (displayed : after.console.currentTerminal = kernel.console.currentTerminal)
      (page : (after.paging.vidTable 0).addy =
        pageOf kernel.console.currentTerminal (kernel.tempTerminal + 1))
      (entry : after.paging.pageDirectory vidIdx = kernel.paging.pageDirectory vidIdx) :
      Moves kernel after (.tick frame inner locals) (.stack stack)

section

variable {image : Image} {layout : Layout} {kernel middle after : Kernel} {transfer : Transfer}

theorem SameVideo.refl (kernel : Kernel) : SameVideo kernel kernel := ⟨rfl, rfl⟩

theorem SameVideo.trans (first : SameVideo kernel middle) (second : SameVideo middle after) :
    SameVideo kernel after :=
  ⟨second.page.trans first.page, second.entry.trans first.entry⟩

theorem sameVideo_mapUser {pid : Int} (paging : after.paging = kernel.paging.mapUser pid) :
    SameVideo kernel after := by
  constructor
  · rw [paging]
    rfl
  · rw [paging, Paging.mapUser_vidIdx]

/-- `execute` has started a process, or has returned and changed nothing of this. -/
theorem execute_moves {command : CString} {frame : Frame} {locals : Locals}
    (executed : kernel.execute image command frame locals = some (transfer, after)) :
    SameVideo kernel after ∧
      ((∃ eip loaded, transfer = .program eip loaded) ∨
        (∃ ret, transfer = .returns ret) ∧ SamePlace kernel after) := by
  rcases execute_cases executed with ⟨_, ret, oldPid, rfl, rfl⟩ | ⟨slot, _, begun, eip, loaded, rfl⟩
  · exact ⟨⟨rfl, rfl⟩, Or.inr ⟨⟨ret, rfl⟩, rfl, rfl, rfl⟩⟩
  · exact ⟨sameVideo_mapUser begun.paging, Or.inl ⟨eip, loaded, rfl⟩⟩

theorem halt_moves {status : UInt8} {inner : Frame} {locals : Locals}
    (halted : kernel.halt image status inner locals = some (transfer, after)) :
    Moves kernel after (.halt status inner locals) transfer := by
  obtain ⟨running, left, leave, cases⟩ := halt_leaves halted
  have leaves := leave_left leave
  have shown := (left.announce_currentTerminal status).trans leaves.displayed
  rcases cases with ⟨parent, rfl, rfl⟩ | ⟨orphan, inside, started, executed, answer⟩
  · have paging : (left.announce status).resume.paging = kernel.paging.mapUser left.newPid :=
      congrArg (fun paging => Paging.mapUser paging left.newPid) leaves.paging
    exact .ends leaves.newPid leaves.currentPid shown (sameVideo_mapUser paging)
  · obtain ⟨kept, outcome⟩ := execute_moves executed
    have told : SameVideo kernel (left.announce status) :=
      ⟨congrArg Paging.vidTable leaves.paging,
        congrArg (fun paging => paging.pageDirectory vidIdx) leaves.paging⟩
    have video := told.trans kept
    rcases answer with ⟨ret, rfl, rfl⟩ | ⟨rfl, rfl, notReturn⟩
    · have place : SamePlace (left.announce status) started := by
        rcases outcome with ⟨eip, loaded, other⟩ | ⟨_, place⟩
        · cases other
        · exact place
      have resumed : SameVideo started started.resume := sameVideo_mapUser rfl
      have answered : kernel.halt image status inner locals = some (_, started.resume) :=
        halt_of_returns running leave orphan executed
      obtain ⟨rfl, _⟩ := Prod.mk.inj (Option.some.inj (halted.symm.trans answered))
      exact .ends (place.newPid.trans leaves.newPid) (place.currentPid.trans leaves.currentPid)
        (place.displayed.trans shown) (video.trans resumed)
    · rcases outcome with ⟨eip, loaded, rfl⟩ | ⟨⟨ret, rfl⟩, _⟩
      · exact .starts (leaves.newPid.symm.trans orphan) video
      · exact absurd rfl (notReturn ret)

theorem switch_videoEntry (frame : Frame) (kernel : Kernel) :
    (switch frame kernel).2.paging.pageDirectory vidIdx = kernel.paging.pageDirectory vidIdx := by
  simp only [switch]
  split
  · exact Paging.mapUser_vidIdx kernel.paging (kernel.pcb (kernel.currentPid kernel.schedTerminal)).pid
  · rfl

theorem tick_moves {frame inner : Frame} {locals : Locals}
    (ticked : kernel.pitIrqHandler image frame inner locals = some (transfer, after)) :
    Moves kernel after (.tick frame inner locals) transfer := by
  rcases tick_cases ticked with
    ⟨seen, ⟨idle, rfl, rfl⟩ | ⟨busy, switched⟩⟩ | ⟨fresh, inside, started, executed, answer⟩
  · exact .stays (fun _ => idle) ⟨rfl, rfl⟩ ⟨rfl, rfl, rfl⟩
  · obtain ⟨rfl, rfl⟩ := Prod.mk.inj switched
    exact .turns seen busy rfl rfl rfl rfl (switch_videoEntry frame kernel.nextTurn.scheduled)
  · have first : SameVideo kernel kernel.firstTurn := ⟨rfl, rfl⟩
    obtain ⟨kept, outcome⟩ := execute_moves executed
    have quiet : Quiet kernel (.tick frame inner locals) := by
      intro seen
      rw [fresh] at seen
      cases seen
    rcases answer with ⟨ret, rfl, rfl, rfl⟩ | ⟨rfl, rfl, notReturn⟩
    · rcases outcome with ⟨eip, loaded, other⟩ | ⟨_, place⟩
      · cases other
      · have video := first.trans kept
        exact .stays quiet ⟨video.page, video.entry⟩ ⟨place.newPid,
          place.currentPid.trans kernel.firstTurn_currentPid,
          started.console.openTerminal_currentTerminal _⟩
    · rcases outcome with ⟨eip, loaded, rfl⟩ | ⟨⟨ret, rfl⟩, _⟩
      · exact .starts fresh (first.trans kept)
      · exact absurd rfl (notReturn ret)

theorem openTerminal_moves (kernel : Kernel) (terminalId : Int) :
    Moves kernel (kernel.openTerminal terminalId) (.openTerminal terminalId) (.returns 0) := by
  by_cases valid : 0 ≤ terminalId ∧ terminalId < 3 ∧ terminalId ≠ kernel.console.currentTerminal
  · obtain ⟨low, high, other⟩ := valid
    obtain ⟨terminal, rfl⟩ : ∃ terminal : Terminal, terminalId = terminal.val :=
      ⟨⟨terminalId.toNat, by omega⟩, (Int.toNat_of_nonneg low).symm⟩
    refine .shows ?_ rfl rfl (kernel.console.openTerminal_currentTerminal terminal) ⟨rfl, rfl⟩
    rintro rfl
    exact other rfl
  · have same : kernel.openTerminal terminalId = kernel := by
      have kept : kernel.console.openTerminal terminalId = kernel.console := dif_neg valid
      rw [openTerminal, kept]
      rfl
    rw [same]
    refine .stays ?_ (SameVideo.refl kernel) ⟨rfl, rfl, rfl⟩
    rintro terminal rfl
    by_contra other
    exact valid ⟨by omega, by omega, fun equal => other (Fin.ext (by omega))⟩

theorem vidmap_moves (running : 0 ≤ kernel.newPid) (layout : Layout) (screenStart : Nat) :
    Moves kernel (kernel.vidmap layout screenStart).2 (.vidmap screenStart)
      (.returns (kernel.vidmap layout screenStart).1.ret) := by
  by_cases inside : InUserPage screenStart
  · have accepted : ¬ (screenStart < 0x08000000 ∨ screenStart ≥ 0x08400000 - 4) := by
      unfold InUserPage at inside
      omega
    unfold vidmap
    rw [if_neg accepted]
    exact .maps running inside ⟨rfl, rfl, rfl⟩ rfl ⟨rfl, rfl⟩
  · have refused : screenStart < 0x08000000 ∨ screenStart ≥ 0x08400000 - 4 := by
      unfold InUserPage at inside
      omega
    unfold vidmap
    rw [if_pos refused]
    exact .refuses inside (SameVideo.refl kernel) ⟨rfl, rfl, rfl⟩

theorem step_moves {event : Event} (taken : kernel.step image layout event = some (transfer, after)) :
    Moves kernel after event transfer := by
  cases event with
  | execute command frame locals =>
      obtain ⟨video, ⟨eip, loaded, rfl⟩ | ⟨⟨ret, rfl⟩, place⟩⟩ := execute_moves taken
      · exact .starts trivial video
      · exact .stays trivial video place
  | halt status inner locals => exact halt_moves taken
  | vidmap screenStart =>
      simp only [Kernel.step] at taken
      split at taken
      · cases taken
      · rename_i running
        obtain ⟨rfl, rfl⟩ := Prod.mk.inj (Option.some.inj taken)
        exact vidmap_moves (Int.not_lt.mp running) layout screenStart
  | openTerminal terminalId =>
      obtain ⟨rfl, rfl⟩ := Prod.mk.inj (Option.some.inj taken)
      exact openTerminal_moves kernel terminalId
  | tick frame inner locals => exact tick_moves taken

end

/-! ## The page of the terminal -/

/-- The mapping is that of the terminal of the running process, if that one has called `vidmap`. -/
def Follows (state : State) : Prop :=
  0 ≤ state.kernel.newPid → state.mapped state.kernel.newPid = true →
    ∀ terminal, state.kernel.currentPid terminal = state.kernel.newPid →
      (state.kernel.paging.vidTable 0).addy = pageOf state.kernel.console.currentTerminal terminal

/-- Where a process that has called `vidmap` gets its turn by the end of another, the mapping is
already that of all its terminals; `vidmap` is called from the displayed one; no other terminal is
displayed while the page of the old or the new one is in use; and a process that is given a turn
by the timer has one terminal. -/
def KeepsPage (state : State) : Event → Prop
  | .execute _ _ _ => True
  | .halt _ _ _ =>
      let parent := (state.kernel.pcb state.kernel.newPid).parentPid
      0 ≤ parent → state.mapped parent = true →
        ∀ terminal, update state.kernel.currentPid state.kernel.schedTerminal parent terminal = parent →
          (state.kernel.paging.vidTable 0).addy = pageOf state.kernel.console.currentTerminal terminal
  | .vidmap screenStart => InUserPage screenStart →
      ∀ terminal, state.kernel.currentPid terminal = state.kernel.newPid →
        terminal = state.kernel.console.currentTerminal
  | .openTerminal terminalId =>
      ∀ terminal : Terminal, terminalId = terminal.val → terminal ≠ state.kernel.console.currentTerminal →
        0 ≤ state.kernel.newPid → state.mapped state.kernel.newPid = true →
          state.kernel.currentPid state.kernel.console.currentTerminal ≠ state.kernel.newPid ∧
          state.kernel.currentPid terminal ≠ state.kernel.newPid
  | .tick _ _ _ =>
      let next := state.kernel.tempTerminal + 1
      (state.kernel.terminalArray state.kernel.tempTerminal).onOffFlag = true →
        3 ≤ state.kernel.currentPid next → state.mapped (state.kernel.currentPid next) = true →
          ∀ terminal, state.kernel.currentPid terminal = state.kernel.currentPid next → terminal = next

instance (screenStart : Nat) : Decidable (InUserPage screenStart) := inferInstanceAs (Decidable (_ ∧ _))

instance (state : State) : DecidablePred (KeepsPage state) := fun event => by
  cases event <;> dsimp only [KeepsPage] <;> infer_instance

theorem pageOf_inj : ∀ displayed first second : Terminal,
    pageOf displayed first = pageOf displayed second ↔ first = second := by
  decide

theorem visible_eq_pageOf : ∀ displayed terminal : Terminal,
    0xB8000 / 2 ^ 12 = pageOf displayed terminal ↔ terminal = displayed := by
  decide

/-- When another terminal is displayed, the pages of both are others than before. -/
theorem pageOf_shown : ∀ displayed shown terminal : Terminal, shown ≠ displayed →
    (pageOf displayed terminal = pageOf shown terminal ↔ terminal ≠ displayed ∧ terminal ≠ shown) := by
  decide

section

variable {image : Image} {layout : Layout} {state next : State} {event : Event}

theorem step_cases (taken : state.step image layout event = some next) :
    ∃ transfer after, Moves state.kernel after event transfer ∧ next = state.record event transfer after := by
  obtain ⟨⟨transfer, after⟩, stepped, rfl⟩ := Option.map_eq_some_iff.mp taken
  exact ⟨transfer, after, step_moves stepped, rfl⟩

theorem record_of_quiet (quiet : Quiet state.kernel event) (ret : Int) (after : Kernel) :
    state.record event (.returns ret) after = ⟨after, state.mapped⟩ := by
  cases event with
  | vidmap screenStart => cases quiet
  | _ => rfl

theorem record_of_program (state : State) (event : Event) (eip : Nat) (loaded : List UInt8) (after : Kernel) :
    state.record event (.program eip loaded) after =
      ⟨after, update state.mapped after.newPid false⟩ := by
  cases event <;> rfl

theorem keepsPage_of_quiet (quiet : Quiet state.kernel event) : KeepsPage state event := by
  cases event with
  | execute command frame locals => trivial
  | halt status inner locals => cases quiet
  | vidmap screenStart => cases quiet
  | openTerminal terminalId => exact fun terminal shown other => absurd (quiet terminal shown) other
  | tick frame inner locals =>
      intro seen busy
      exact absurd (quiet seen) (Int.not_lt.mpr busy)

theorem keepsPage_of_launches (launches : Launches state.kernel event) : KeepsPage state event := by
  cases event with
  | execute command frame locals => trivial
  | halt status inner locals =>
      have orphan : (state.kernel.pcb state.kernel.newPid).parentPid = -1 := launches
      intro parent
      rw [orphan] at parent
      cases parent
  | vidmap screenStart => cases launches
  | openTerminal terminalId => cases launches
  | tick frame inner locals =>
      intro seen
      exact absurd (launches.symm.trans seen) Bool.false_ne_true

/-- What changes neither process nor mapping. -/
theorem Follows.congr {after : Kernel} (follows : Follows state) (video : SameVideo state.kernel after)
    (place : SamePlace state.kernel after) : Follows ⟨after, state.mapped⟩ := by
  unfold Follows at follows ⊢
  simp only [place.newPid, place.currentPid, place.displayed, video.page]
  exact follows

/-- An event keeps the mapping with the terminal exactly under its condition. -/
theorem follows_iff (follows : Follows state) (taken : state.step image layout event = some next) :
    Follows next ↔ KeepsPage state event := by
  obtain ⟨transfer, after, moves, rfl⟩ := step_cases taken
  cases moves with
  | @stays event ret quiet video place =>
      rw [record_of_quiet quiet]
      exact iff_of_true (follows.congr video place) (keepsPage_of_quiet quiet)
  | refuses outside video place =>
      exact iff_of_true (follows.congr video place) (fun inside => absurd inside outside)
  | maps running inside place page entry =>
      simp only [Follows, KeepsPage, State.record, place.newPid, place.currentPid, place.displayed, page,
        update_self, visible_eq_pageOf]
      exact ⟨fun holds _ => holds running trivial, fun holds _ _ => holds inside⟩
  | @starts event eip loaded launches video =>
      rw [record_of_program]
      refine iff_of_true ?_ (keepsPage_of_launches launches)
      intro _ mapped
      simp at mapped
  | ends parent currentPid displayed video =>
      simp only [Follows, KeepsPage, State.record, parent, currentPid, displayed, video.page]
  | @shows terminal other newPid currentPid displayed video =>
      simp only [Follows, KeepsPage, State.record, newPid, currentPid, displayed, video.page]
      constructor
      · intro holds shown same _ running mapped
        obtain rfl : terminal = shown := Fin.ext (by omega)
        have apart : ∀ entry, state.kernel.currentPid entry = state.kernel.newPid →
            entry ≠ state.kernel.console.currentTerminal ∧ entry ≠ terminal := by
          intro entry own
          have before := follows running mapped entry own
          exact (pageOf_shown _ _ entry other).mp (before.symm.trans (holds running mapped entry own))
        exact ⟨fun own => (apart _ own).1 rfl, fun own => (apart _ own).2 rfl⟩
      · intro apart running mapped entry own
        obtain ⟨old, new⟩ := apart terminal rfl other running mapped
        rw [follows running mapped entry own]
        refine (pageOf_shown _ _ entry other).mpr ⟨?_, ?_⟩
        · rintro rfl
          exact old own
        · rintro rfl
          exact new own
  | turns seen busy newPid currentPid displayed page entry =>
      simp only [Follows, KeepsPage, State.record, newPid, currentPid, displayed, page, pageOf_inj]
      constructor
      · intro holds _ _ mapped terminal own
        exact (holds (by omega) mapped terminal own).symm
      · intro alone _ mapped terminal own
        exact (alone seen busy mapped terminal own).symm

end

/-- In a run, the mapping follows the terminal of the running process in every state exactly when
each event meets its condition. -/
theorem mapping_follows_iff {image : Image} {layout : Layout} {pcb : Int → Pcb} {rtc : Rtc} {leftovers : Leftovers}
    {events : List Event} {final : State}
    (ran : Transition.run (State.step image layout) (State.start layout pcb rtc leftovers) events = some final) :
    Transition.Throughout (State.step image layout) Follows (State.start layout pcb rtc leftovers) events ↔
      Transition.EachStep (State.step image layout) KeepsPage (State.start layout pcb rtc leftovers) events := by
  have first : Follows (State.start layout pcb rtc leftovers) := by
    intro running
    cases running
  exact Transition.throughout_iff_of_run (State.step image layout)
    (fun _ _ _ follows taken => follows_iff follows taken) first ran

/-- The first shell calls `vidmap` on display, and the timer starts the next shell there. -/
def mappedRun : List Event :=
  [.execute Image.shell ⟨0, 0⟩ .zeros, .vidmap 0x08000000, .tick ⟨0, 0⟩ ⟨0, 0⟩ .zeros, .vidmap 0x08000000]

theorem mapping_follows_sample : ∃ final,
    Transition.run (State.step Image.sample Layout.sample) State.sample mappedRun = some final ∧
    final.kernel.newPid = 1 ∧ final.mapped 1 = true ∧ Follows final := by
  have evaluated : (Transition.run (State.step Image.sample Layout.sample) State.sample mappedRun).map
      (fun final => (final.kernel.newPid, final.mapped 1)) = some (1, true) := by decide +kernel
  obtain ⟨final, ran, values⟩ := Option.map_eq_some_iff.mp evaluated
  obtain ⟨running, mapped⟩ := Prod.mk.inj values
  have each : Transition.EachStep (State.step Image.sample Layout.sample) KeepsPage State.sample
      mappedRun := by decide +kernel
  have throughout := (mapping_follows_iff ran).mpr each
  exact ⟨final, ran, running, mapped, throughout mappedRun List.prefix_rfl final ran⟩

/-- The first shell calls `vidmap` while another terminal is displayed. -/
theorem vidmap_draws_on_visible_page : ∃ final,
    Transition.run (State.step Image.sample Layout.sample) State.sample
      [.execute Image.shell ⟨0, 0⟩ .zeros, .openTerminal 1, .vidmap 0x08000000] = some final ∧
    ¬ Follows final := by
  have evaluated : (Transition.run (State.step Image.sample Layout.sample) State.sample
      [.execute Image.shell ⟨0, 0⟩ .zeros, .openTerminal 1, .vidmap 0x08000000]).map (fun final =>
        (final.kernel.newPid, final.mapped 0, final.kernel.currentPid 0, final.kernel.console.currentTerminal,
          (final.kernel.paging.vidTable 0).addy)) = some (0, true, 0, 1, 0xB8) := by decide +kernel
  obtain ⟨final, ran, values⟩ := Option.map_eq_some_iff.mp evaluated
  obtain ⟨running, mapped, own, displayed, page⟩ : final.kernel.newPid = 0 ∧ final.mapped 0 = true ∧
      final.kernel.currentPid 0 = 0 ∧ final.kernel.console.currentTerminal = 1 ∧
      (final.kernel.paging.vidTable 0).addy = 0xB8 := by simpa using values
  refine ⟨final, ran, fun follows => ?_⟩
  unfold Follows at follows
  rw [running, displayed, page] at follows
  have wrong := follows (Int.le_refl 0) mapped 0 own
  revert wrong
  decide

/-! ## Who has access -/

/-- The entry for video memory is present for user code. -/
def UserVideo (kernel : Kernel) : Prop :=
  (kernel.paging.pageDirectory vidIdx).present = true ∧ (kernel.paging.pageDirectory vidIdx).us = true

/-- The running process has access only if it has called `vidmap` itself. -/
def OwnAccess (state : State) : Prop :=
  0 ≤ state.kernel.newPid → UserVideo state.kernel → state.mapped state.kernel.newPid = true

theorem SameVideo.access_iff {kernel after : Kernel} (video : SameVideo kernel after) :
    UserVideo after ↔ UserVideo kernel := by
  rw [UserVideo, UserVideo, video.entry]

/-- A call of `vidmap` that succeeds. -/
def Grants : Event → Prop
  | .vidmap screenStart => InUserPage screenStart
  | _ => False

theorem not_grants_of_quiet {kernel : Kernel} {event : Event} (quiet : Quiet kernel event) :
    ¬ Grants event := by
  cases event with
  | vidmap screenStart => cases quiet
  | _ => exact id

theorem not_grants_of_launches {kernel : Kernel} {event : Event} (launches : Launches kernel event) :
    ¬ Grants event := by
  cases event with
  | vidmap screenStart => cases launches
  | _ => exact id

/-- `vidmap` gives access, and nothing takes it back. -/
theorem access_step {kernel after : Kernel} {event : Event} {transfer : Transfer}
    (moves : Moves kernel after event transfer) : UserVideo after ↔ UserVideo kernel ∨ Grants event := by
  have kept : SameVideo kernel after → ¬ Grants event →
      (UserVideo after ↔ UserVideo kernel ∨ Grants event) := by
    intro video grantless
    rw [video.access_iff]
    exact (or_iff_left grantless).symm
  cases moves with
  | @stays event ret quiet video place => exact kept video (not_grants_of_quiet quiet)
  | refuses outside video place => exact kept video outside
  | maps running inside place page entry => exact iff_of_true entry (Or.inr inside)
  | @starts event eip loaded launches video => exact kept video (not_grants_of_launches launches)
  | ends parent currentPid displayed video => exact kept video id
  | shows other newPid currentPid displayed video => exact kept video id
  | turns seen busy newPid currentPid displayed page entry =>
      rw [UserVideo, entry]
      exact (or_iff_left id).symm

theorem State.record_kernel (state : State) (event : Event) (transfer : Transfer) (after : Kernel) :
    (state.record event transfer after).kernel = after := by
  unfold State.record
  split <;> rfl

/-- Who is recorded as having called `vidmap` was so before, or the event is such a call. -/
theorem mapped_step {state : State} {event : Event} {transfer : Transfer} {after : Kernel}
    (moves : Moves state.kernel after event transfer) {pid : Int}
    (mapped : (state.record event transfer after).mapped pid = true) :
    state.mapped pid = true ∨ Grants event := by
  cases moves with
  | @stays event ret quiet video place =>
      rw [record_of_quiet quiet] at mapped
      exact Or.inl mapped
  | maps running inside place page entry => exact Or.inr inside
  | @starts event eip loaded launches video =>
      rw [record_of_program] at mapped
      by_cases own : pid = after.newPid
      · simp [own] at mapped
      · have before : update state.mapped after.newPid false pid = true := mapped
        rw [update_of_ne own] at before
        exact Or.inl before
  | _ => exact Or.inl mapped

/-- Video memory is accessible to whoever runs from the first successful call of `vidmap` on. -/
theorem access_iff_called {image : Image} {layout : Layout} {pcb : Int → Pcb} {rtc : Rtc} {leftovers : Leftovers}
    {events : List Event} {final : State}
    (ran : Transition.run (State.step image layout) (State.start layout pcb rtc leftovers) events = some final) :
    (UserVideo final.kernel ↔ ∃ event ∈ events, Grants event) ∧
      ∀ pid, final.mapped pid = true → UserVideo final.kernel := by
  refine Transition.run_invariant (State.step image layout) (P := fun past state =>
    (UserVideo state.kernel ↔ ∃ event ∈ past, Grants event) ∧
      ∀ pid, state.mapped pid = true → UserVideo state.kernel) ?_ ?_ ran
  · have absent : ¬ UserVideo (State.start layout pcb rtc leftovers).kernel := nofun
    exact ⟨iff_of_false absent nofun, nofun⟩
  · rintro past state event next ⟨called, own⟩ taken
    obtain ⟨transfer, after, moves, rfl⟩ := step_cases taken
    have access := access_step moves
    rw [State.record_kernel]
    constructor
    · rw [access, called]
      simp [or_and_right, exists_or]
    · intro pid mapped
      rw [access]
      exact (mapped_step moves mapped).imp_left (own pid)

theorem access_iff_called_sample : ∃ final,
    Transition.run (State.step Image.sample Layout.sample) State.sample mappedRun = some final ∧ UserVideo final.kernel := by
  have reached : (Transition.run (State.step Image.sample Layout.sample) State.sample mappedRun).isSome := by
    decide +kernel
  obtain ⟨final, ran⟩ := Option.isSome_iff_exists.mp reached
  refine ⟨final, ran, (access_iff_called ran).1.mpr ⟨.vidmap 0x08000000, by simp [mappedRun], ?_⟩⟩
  exact ⟨by decide, by decide⟩

/-- A program inherits the access of the one it was started from. -/
theorem access_is_inherited : ∃ final,
    Transition.run (State.step Image.sample Layout.sample) State.sample
      [.execute Image.shell ⟨0, 0⟩ .zeros, .vidmap 0x08000000, .execute Image.shell ⟨0, 0⟩ .zeros] = some final ∧
    final.kernel.newPid = 1 ∧ UserVideo final.kernel ∧ final.mapped 1 = false ∧ ¬ OwnAccess final := by
  have evaluated : (Transition.run (State.step Image.sample Layout.sample) State.sample
      [.execute Image.shell ⟨0, 0⟩ .zeros, .vidmap 0x08000000, .execute Image.shell ⟨0, 0⟩ .zeros]).map
      (fun final => (final.kernel.newPid, final.mapped 1, (final.kernel.paging.pageDirectory vidIdx).present,
          (final.kernel.paging.pageDirectory vidIdx).us)) = some (1, false, true, true) := by decide +kernel
  obtain ⟨final, ran, values⟩ := Option.map_eq_some_iff.mp evaluated
  obtain ⟨running, unmapped, present, user⟩ : final.kernel.newPid = 1 ∧ final.mapped 1 = false ∧
      (final.kernel.paging.pageDirectory vidIdx).present = true ∧
      (final.kernel.paging.pageDirectory vidIdx).us = true := by simpa using values
  refine ⟨final, ran, running, ⟨present, user⟩, unmapped, fun own => ?_⟩
  have called := own (by omega) ⟨present, user⟩
  rw [running, unmapped] at called
  cases called

end VideoMapping

end LinuxLikeOS
