import LinuxLikeOS.CachedLookup
import LinuxLikeOS.VideoMapping

/-!
# The translation lookaside buffer (`paging.c`)

The processor keeps the translations it has used. The kernel changes its tables in `execute`, `halt`, `vidmap` and
`pit_irq_handler` and calls `flush_tlb` in each, which in the last is not the end of the changes.
-/

namespace LinuxLikeOS.Tlb

open Function Paging Kernel VideoMapping CachedLookup

/-! ## The processor -/

structure Registers where
  cr0 : UInt32
  cr3 : UInt32
  cr4 : UInt32

/-- The directory is loaded, 4MB pages are turned on, and then paging. -/
def enabling (pageDirectory : UInt32) (registers : Registers) : Registers :=
  let registers := { registers with cr3 := pageDirectory }
  let registers := { registers with cr4 := registers.cr4 ||| 0x00000010 }
  { registers with cr0 := registers.cr0 ||| 0x80000001 }

/-- A page of 4KB, also where it is part of one of 4MB. -/
structure Translation where
  frame : Nat
  us : Bool
  g : Bool

/-- The walk to a page. -/
def walk (layout : Layout) (paging : Paging) (page : Nat) : Option Translation :=
  if inside : page < 2 ^ 20 then
    let entry := paging.pageDirectory ⟨page / 2 ^ 10, by omega⟩
    if entry.present then
      if entry.ps then some ⟨entry.addy / 2 ^ 10 * 2 ^ 10 + page % 2 ^ 10, entry.us, entry.g⟩
      else
        let entry' := tableAt layout paging entry.addy ⟨page % 2 ^ 10, by omega⟩
        if entry'.present then some ⟨entry'.addy, entry.us && entry'.us, entry'.g⟩ else none
    else none
  else none

/-- Where an access goes by a translation, unless user code may not make it. -/
def Translation.apply (privilege : Privilege) (linear : Nat) (translation : Translation) : Option Nat :=
  if privilege = .user → translation.us then some (translation.frame * 2 ^ 12 + linear % 2 ^ 12) else none

/-- The walk of the other results is this one, and then the check. -/
theorem translate_eq (layout : Layout) (paging : Paging) (privilege : Privilege) (linear : Nat) :
    translate layout paging privilege linear =
      (walk layout paging (linear / 2 ^ 12)).bind (Translation.apply privilege linear) := by
  by_cases inside : linear < 2 ^ 32
  · have index : linear / 2 ^ 12 / 2 ^ 10 = linear / 2 ^ 22 := by omega
    have page : linear / 2 ^ 12 < 2 ^ 20 := by omega
    simp only [Paging.translate, walk, dif_pos inside, dif_pos page, index]
    generalize paging.pageDirectory ⟨linear / 2 ^ 22, _⟩ = entry
    generalize tableAt layout paging entry.addy ⟨linear / 2 ^ 12 % 2 ^ 10, _⟩ = entry'
    have whole : entry.addy / 2 ^ 10 * 2 ^ 22 + linear % 2 ^ 22 =
        (entry.addy / 2 ^ 10 * 2 ^ 10 + linear / 2 ^ 12 % 2 ^ 10) * 2 ^ 12 + linear % 2 ^ 12 := by omega
    rw [whole]
    cases entry.present with
    | false => simp
    | true =>
        cases entry.ps with
        | true => simp [Translation.apply]
        | false =>
            cases entry'.present with
            | false => simp
            | true => cases privilege <;> cases entry.us <;> simp [Translation.apply]
  · have page : ¬ linear / 2 ^ 12 < 2 ^ 20 := by omega
    simp only [Paging.translate, walk, dif_neg inside, dif_neg page, Option.bind_none]

structure Mmu where
  registers : Registers
  tlb : Nat → Option Translation

namespace Mmu

def touch (layout : Layout) (paging : Paging) (linear : Nat) (mmu : Mmu) : Mmu :=
  { mmu with tlb := fill (walk layout paging) (linear / 2 ^ 12) mmu.tlb }

/-- CR3 is written; global pages stay where CR4 turns them on. -/
def flushTlb (mmu : Mmu) : Mmu :=
  { mmu with tlb := fun page =>
      (mmu.tlb page).filter fun translation => translation.g && mmu.registers.cr4.toBitVec.getLsbD 7 }

/-- The physical address of an access. -/
def translate (layout : Layout) (paging : Paging) (mmu : Mmu) (privilege : Privilege) (linear : Nat) : Option Nat :=
  (look (walk layout paging) mmu.tlb (linear / 2 ^ 12)).bind (Translation.apply privilege linear)

end Mmu

/-! ## The kernel -/

/-- What the kernel does to the tables and to the buffer. -/
inductive Store where
  | touch (linear : Nat)
  | mapUser (pid : Int)
  | mapVideo
  | setVideoPage (addy : Nat)
  | flushTlb

structure Paged where
  paging : Paging
  mmu : Mmu

def perform (layout : Layout) (paged : Paged) : Store → Paged
  | .touch linear => { paged with mmu := paged.mmu.touch layout paged.paging linear }
  | .mapUser pid => { paged with paging := paged.paging.mapUser pid }
  | .mapVideo => { paged with paging := paged.paging.mapVideo layout }
  | .setVideoPage addy => { paged with paging := paged.paging.setVideoPage addy }
  | .flushTlb => { paged with mmu := paged.mmu.flushTlb }

/-- The stores of an event by what has come of it, in the order of the source. -/
def stores (event : Event) (transfer : Transfer) (after : Kernel) : List Store :=
  match event, transfer with
  | .vidmap screenStart, .returns 0 => 
      [.mapVideo, .setVideoPage (0xB8000 / 2 ^ 12), .touch screenStart, .touch (screenStart + 3), .flushTlb]
  | .tick _ _ _, .stack _ =>
      [.mapUser (after.pcb after.newPid).pid, .flushTlb,
        .setVideoPage (pageOf after.console.currentTerminal after.schedTerminal)]
  | _, .program _ _ => [.mapUser after.newPid, .flushTlb]
  | _, .parent _ _ => [.mapUser after.newPid, .flushTlb]
  | _, _ => []

/-- Before each store the kernel has used addresses of its own. -/
def interleave (busy : Nat → List (Fin 0x800000)) : List Store → List Store
  | [] => []
  | store :: rest => (busy rest.length).map (fun linear => .touch linear.val) ++ store :: interleave busy rest

/-- An access goes where the tables say. -/
def Exact (layout : Layout) (paged : Paged) (linear : Nat) : Prop :=
  ∀ privilege, paged.mmu.translate layout paged.paging privilege linear =
    paged.paging.translate layout privilege linear

/-- Each access among these stores goes where the tables say at its time. -/
def EachExact (layout : Layout) : Paged → List Store → Prop
  | _, [] => True
  | paged, store :: rest =>
      (∀ linear, store = .touch linear → Exact layout paged linear) ∧ EachExact layout (perform layout paged store) rest

structure State where
  kernel : Kernel
  mmu : Mmu

inductive Action where
  | access (linear : Nat)
  | event (event : Event) (busy : Nat → List (Fin 0x800000))

def step (image : Image) (layout : Layout) (state : State) : Action → Option State
  | .access linear => some { state with mmu := state.mmu.touch layout state.kernel.paging linear }
  | .event event busy =>
      (state.kernel.step image layout event).map fun (transfer, after) =>
        ⟨after, ((interleave busy (stores event transfer after)).foldl (perform layout)
          ⟨state.kernel.paging, state.mmu⟩).mmu⟩

/-- After `page_init`. -/
def State.start (layout : Layout) (pcb : Int → Pcb) (rtc : Rtc) (leftovers : Leftovers) (pageDirectory : UInt32)
    (registers : Registers) : State :=
  ⟨entry layout pcb rtc leftovers, ⟨enabling pageDirectory registers, fun _ => none⟩⟩

/-! ## The tables after an event -/

/-- What the stores of an event can be, and the tables they leave. -/
inductive Remaps (layout : Layout) (before after : Paging) : List Store → Prop
  | nothing (same : after = before) : Remaps layout before after []
  | user {pid : Int} (mapped : after = before.mapUser pid) : Remaps layout before after [.mapUser pid, .flushTlb]
  | video {screenStart addy : Nat} (inside : InUserPage screenStart)
      (mapped : after = (before.mapVideo layout).setVideoPage addy) :
      Remaps layout before after
        [.mapVideo, .setVideoPage addy, .touch screenStart, .touch (screenStart + 3), .flushTlb]
  | turn {pid : Int} {addy : Nat} (mapped : after = (before.mapUser pid).setVideoPage addy) :
      Remaps layout before after [.mapUser pid, .flushTlb, .setVideoPage addy]

section

variable {image : Image} {layout : Layout} {kernel after : Kernel} {transfer : Transfer}

theorem execute_remaps {event : Event} {command : CString} {frame : Frame} {locals : Locals}
    (notVidmap : ∀ screenStart, event ≠ .vidmap screenStart)
    (executed : kernel.execute image command frame locals = some (transfer, after)) :
    Remaps layout kernel.paging after.paging (stores event transfer after) := by
  rcases execute_cases executed with ⟨_, ret, oldPid, rfl, rfl⟩ | ⟨slot, _, begun, eip, loaded, rfl⟩
  · cases event with
    | vidmap screenStart => exact absurd rfl (notVidmap screenStart)
    | _ => exact .nothing rfl
  · have stored : stores event (.program eip loaded) after = [.mapUser slot, .flushTlb] := by
      rw [← begun.newPid]
      cases event <;> rfl
    rw [stored]
    exact .user begun.paging

theorem halt_remaps {status : UInt8} {inner : Frame} {locals : Locals}
    (halted : kernel.halt image status inner locals = some (transfer, after)) :
    Remaps layout kernel.paging after.paging (stores (.halt status inner locals) transfer after) := by
  obtain ⟨running, left, leave, cases⟩ := halt_leaves halted
  have paging : (left.announce status).paging = kernel.paging := (leave_left leave).paging
  rcases cases with ⟨parent, rfl, rfl⟩ | ⟨orphan, inside, started, executed, answer⟩
  · exact .user (congrArg (fun paging => Paging.mapUser paging left.newPid) paging)
  · rcases answer with ⟨ret, rfl, rfl⟩ | ⟨rfl, rfl, notReturn⟩
    · have same : started.paging = kernel.paging := by
        rcases execute_cases executed with ⟨_, _, oldPid, _, rfl⟩ | ⟨slot, _, _, eip, loaded, other⟩
        · exact paging
        · cases other
      have answered : kernel.halt image status inner locals = some (_, started.resume) :=
        halt_of_returns running leave orphan executed
      obtain ⟨rfl, _⟩ := Prod.mk.inj (Option.some.inj (halted.symm.trans answered))
      exact .user (congrArg (fun paging => Paging.mapUser paging started.newPid) same)
    · rw [← paging]
      exact execute_remaps (fun _ other => by cases other) executed

theorem tick_remaps {frame inner : Frame} {locals : Locals}
    (ticked : kernel.pitIrqHandler image frame inner locals = some (transfer, after)) :
    Remaps layout kernel.paging after.paging (stores (.tick frame inner locals) transfer after) := by
  rcases tick_cases ticked with
    ⟨seen, ⟨idle, rfl, rfl⟩ | ⟨busy, switched⟩⟩ | ⟨fresh, inside, started, executed, answer⟩
  · exact .nothing rfl
  · obtain ⟨rfl, rfl⟩ := Prod.mk.inj switched
    have process : kernel.nextTurn.scheduled.currentPid kernel.nextTurn.scheduled.schedTerminal > 2 := busy
    refine .turn ?_
    simp only [if_pos process, update_self]
    rfl
  · have first : kernel.firstTurn.paging = kernel.paging := rfl
    rcases answer with ⟨ret, rfl, rfl, rfl⟩ | ⟨rfl, rfl, notReturn⟩
    · rcases execute_cases executed with ⟨_, _, oldPid, _, rfl⟩ | ⟨slot, _, _, eip, loaded, other⟩
      · exact .nothing rfl
      · cases other
    · rw [← first]
      exact execute_remaps (fun _ other => by cases other) executed

theorem step_remaps {event : Event} (taken : kernel.step image layout event = some (transfer, after)) :
    Remaps layout kernel.paging after.paging (stores event transfer after) := by
  cases event with
  | execute command frame locals => exact execute_remaps (fun _ other => by cases other) taken
  | halt status inner locals => exact halt_remaps taken
  | vidmap screenStart =>
      simp only [Kernel.step] at taken
      split at taken
      · cases taken
      · obtain ⟨rfl, rfl⟩ := Prod.mk.inj (Option.some.inj taken)
        unfold vidmap
        split
        · exact .nothing rfl
        · rename_i inside
          exact .video (by unfold InUserPage; omega) rfl
  | openTerminal terminalId =>
      obtain ⟨rfl, rfl⟩ := Prod.mk.inj (Option.some.inj taken)
      exact .nothing rfl
  | tick frame inner locals => exact tick_remaps taken

end

/-! ## Pages that a change touches -/

/-- What all tables of the kernel have in common: only the entry for video memory names `vid_table`. -/
structure Shape (layout : Layout) (paging : Paging) : Prop where
  first : (paging.pageDirectory 0).addy = layout.pageTable
  kernel : (paging.pageDirectory 1).ps = true
  user : (paging.pageDirectory usrIdx).present = true → (paging.pageDirectory usrIdx).ps = true
  absent : ∀ i : Fin 1024, i ≠ 0 → i ≠ 1 → i ≠ usrIdx → i ≠ vidIdx → (paging.pageDirectory i).present = false

/-- The pages below an entry of the directory. -/
def pagesOf (index : Fin 1024) : Set Nat := {page | page / 2 ^ 10 = index.val}

section

variable {layout : Layout} {paging other : Paging}

theorem shape_pageInit (layout : Layout) : Shape layout (Paging.pageInit layout Paging.loaded) where
  first := rfl
  kernel := rfl
  user := fun present => by cases present
  absent := (pageInit_confined layout).absent

theorem Shape.mapUser (shape : Shape layout paging) (pid : Int) : Shape layout (paging.mapUser pid) := by
  have others : ∀ i : Fin 1024, i ≠ usrIdx → (paging.mapUser pid).pageDirectory i = paging.pageDirectory i :=
    fun i apart => update_of_ne apart _ _
  refine ⟨?_, ?_, fun _ => ?_, fun i zero one user video => ?_⟩
  · rw [others 0 (by decide)]
    exact shape.first
  · rw [others 1 (by decide)]
    exact shape.kernel
  · rw [mapUser_usrIdx]
    rfl
  · rw [others i user]
    exact shape.absent i zero one user video

theorem Shape.mapVideo (shape : Shape layout paging) : Shape layout (paging.mapVideo layout) := by
  have others : ∀ i : Fin 1024, i ≠ vidIdx → (paging.mapVideo layout).pageDirectory i = paging.pageDirectory i :=
    fun i apart => update_of_ne apart _ _
  refine ⟨?_, ?_, ?_, fun i zero one user video => ?_⟩
  · rw [others 0 (by decide)]
    exact shape.first
  · rw [others 1 (by decide)]
    exact shape.kernel
  · rw [others usrIdx (by decide)]
    exact shape.user
  · rw [others i video]
    exact shape.absent i zero one user video

theorem Shape.setVideoPage (shape : Shape layout paging) (addy : Nat) : Shape layout (paging.setVideoPage addy) :=
  ⟨shape.first, shape.kernel, shape.user, shape.absent⟩

/-- A walk reads one entry of the directory, and the table which that names. -/
theorem walk_congr {page : Nat}
    (entry : ∀ index : Fin 1024, index.val = page / 2 ^ 10 →
      other.pageDirectory index = paging.pageDirectory index ∧
      ((paging.pageDirectory index).present = true → (paging.pageDirectory index).ps = false →
        tableAt layout other (paging.pageDirectory index).addy =
          tableAt layout paging (paging.pageDirectory index).addy)) :
    walk layout other page = walk layout paging page := by
  unfold walk
  split
  · rename_i inside
    obtain ⟨same, table⟩ := entry ⟨page / 2 ^ 10, by omega⟩ rfl
    simp only [same]
    split
    · rename_i present
      split
      · rfl
      · rename_i small
        rw [table present (Bool.eq_false_iff.mpr small)]
    · rfl
  · rfl

theorem walk_mapUser (pid : Int) : ∀ page ∉ pagesOf usrIdx,
    walk layout (paging.mapUser pid) page = walk layout paging page := by
  intro page apart
  refine walk_congr fun index place => ⟨update_of_ne ?_ _ _, fun _ _ => rfl⟩
  rintro rfl
  exact apart place.symm

theorem walk_mapVideo : ∀ page ∉ pagesOf vidIdx,
    walk layout (paging.mapVideo layout) page = walk layout paging page := by
  intro page apart
  refine walk_congr fun index place => ⟨update_of_ne ?_ _ _, fun _ _ => rfl⟩
  rintro rfl
  exact apart place.symm

theorem walk_setVideoPage (shape : Shape layout paging) (addy : Nat) : ∀ page ∉ pagesOf vidIdx,
    walk layout (paging.setVideoPage addy) page = walk layout paging page := by
  intro page apart
  refine walk_congr fun index place => ⟨rfl, fun present small => ?_⟩
  have video : index ≠ vidIdx := by
    rintro rfl
    exact apart place.symm
  have first : index = 0 := by
    by_contra notFirst
    rcases eq_or_ne index 1 with rfl | notSecond
    · rw [shape.kernel] at small
      cases small
    · rcases eq_or_ne index usrIdx with rfl | notUser
      · rw [shape.user present] at small
        cases small
      · rw [shape.absent index notFirst notSecond notUser video] at present
        cases present
  rw [first, shape.first]
  simp only [tableAt, if_true]
  rfl

end

/-! ## What the buffer holds -/

/-- The buffer is right for the tables outside a set of pages. -/
structure Fresh (layout : Layout) (stale : Set Nat) (paged : Paged) : Prop where
  shape : Shape layout paged.paging
  coherent : Coherent (walk layout paged.paging) stale paged.mmu.tlb
  pge : paged.mmu.registers.cr4.toBitVec.getLsbD 7 = false

/-- The buffer holds nothing but pages of the kernel. -/
def Own (paged : Paged) : Prop := ∀ page, 0x800 ≤ page → paged.mmu.tlb page = none

/-- The pages of the kernel are not among them. -/
def Above (stale : Set Nat) : Prop := ∀ page ∈ stale, 0x800 ≤ page

theorem above_pagesOf {index : Fin 1024} (large : 2 ≤ index.val) : Above (pagesOf index) := by
  intro page inside
  have place : page / 2 ^ 10 = index.val := inside
  omega

theorem Above.union {first second : Set Nat} (above : Above first) (above' : Above second) : Above (first ∪ second) :=
  fun page inside => inside.elim (above page) (above' page)

section

variable {layout : Layout} {stale : Set Nat} {paged : Paged}

theorem Fresh.exact (fresh : Fresh layout stale paged) {linear : Nat} (apart : linear / 2 ^ 12 ∉ stale) :
    Exact layout paged linear := by
  intro privilege
  rw [translate_eq, Mmu.translate, fresh.coherent.look apart]

theorem Fresh.touch (fresh : Fresh layout stale paged) {linear : Nat} (apart : linear / 2 ^ 12 ∉ stale) :
    Fresh layout stale (perform layout paged (.touch linear)) :=
  ⟨fresh.shape, fresh.coherent.fill apart, fresh.pge⟩

theorem Fresh.mapUser (fresh : Fresh layout stale paged) (pid : Int) :
    Fresh layout (stale ∪ pagesOf usrIdx) (perform layout paged (.mapUser pid)) :=
  ⟨fresh.shape.mapUser pid, fresh.coherent.change (walk_mapUser pid), fresh.pge⟩

theorem Fresh.mapVideo (fresh : Fresh layout stale paged) :
    Fresh layout (stale ∪ pagesOf vidIdx) (perform layout paged .mapVideo) :=
  ⟨fresh.shape.mapVideo, fresh.coherent.change walk_mapVideo, fresh.pge⟩

theorem Fresh.setVideoPage (fresh : Fresh layout stale paged) (addy : Nat) :
    Fresh layout (stale ∪ pagesOf vidIdx) (perform layout paged (.setVideoPage addy)) :=
  ⟨fresh.shape.setVideoPage addy, fresh.coherent.change (walk_setVideoPage fresh.shape addy), fresh.pge⟩

/-- Without global pages in CR4 nothing is kept, although the entries for the user are marked global. -/
theorem Fresh.flushed (fresh : Fresh layout stale paged) :
    (perform layout paged .flushTlb).mmu.tlb = fun _ => none := by
  funext page
  simp only [perform, Mmu.flushTlb, fresh.pge, Bool.and_false]
  cases paged.mmu.tlb page <;> rfl

theorem Fresh.flushTlb (fresh : Fresh layout stale paged) :
    Fresh layout ∅ (perform layout paged .flushTlb) ∧ Own (perform layout paged .flushTlb) := by
  refine ⟨⟨fresh.shape, ?_, fresh.pge⟩, fun page _ => ?_⟩
  · rw [fresh.flushed]
    exact coherent_none
  · rw [fresh.flushed]

/-- The accesses of the kernel to its own addresses. -/
theorem Fresh.busy (fresh : Fresh layout stale paged) (above : Above stale) (busy : List (Fin 0x800000)) :
    Fresh layout stale ((busy.map fun linear => Store.touch linear.val).foldl (perform layout) paged) := by
  induction busy generalizing paged with
  | nil => exact fresh
  | cons linear rest ih =>
      have low : linear.val / 2 ^ 12 < 0x800 := by omega
      exact ih (fresh.touch fun inside => Nat.not_le.mpr low (above _ inside))

theorem Fresh.busy_exact (fresh : Fresh layout stale paged) (above : Above stale) (busy : List (Fin 0x800000)) :
    EachExact layout paged (busy.map fun linear => Store.touch linear.val) := by
  induction busy generalizing paged with
  | nil => trivial
  | cons linear rest ih =>
      have low : linear.val / 2 ^ 12 < 0x800 := by omega
      have apart : linear.val / 2 ^ 12 ∉ stale := fun inside => Nat.not_le.mpr low (above _ inside)
      refine ⟨fun other same => ?_, ih (fresh.touch apart)⟩
      cases same
      exact fresh.exact apart

theorem eachExact_append {first rest : List Store} :
    EachExact layout paged (first ++ rest) ↔
      EachExact layout paged first ∧ EachExact layout (first.foldl (perform layout) paged) rest := by
  induction first generalizing paged with
  | nil => simp [EachExact]
  | cons store first ih => simp only [List.cons_append, EachExact, ih, and_assoc, List.foldl_cons]

/-- What the kernel has used before a store, the store, and what follows. -/
theorem eachExact_interleave {busy : Nat → List (Fin 0x800000)} {store : Store} {rest : List Store}
    (before : EachExact layout paged ((busy rest.length).map fun linear => .touch linear.val))
    (here : ∀ linear, store = .touch linear →
      Exact layout (((busy rest.length).map fun linear => Store.touch linear.val).foldl (perform layout) paged) linear)
    (after : EachExact layout (perform layout
      (((busy rest.length).map fun linear => Store.touch linear.val).foldl (perform layout) paged) store)
      (interleave busy rest)) :
    EachExact layout paged (interleave busy (store :: rest)) :=
  eachExact_append.mpr ⟨before, here, after⟩

theorem Own.busy (own : Own paged) (busy : List (Fin 0x800000)) :
    Own ((busy.map fun linear => Store.touch linear.val).foldl (perform layout) paged) := by
  induction busy generalizing paged with
  | nil => exact own
  | cons linear rest ih =>
      refine ih fun page high => ?_
      have apart : page ≠ linear.val / 2 ^ 12 := by omega
      exact (fill_of_ne apart).trans (own page high)

theorem busy_paging (busy : List (Fin 0x800000)) :
    ((busy.map fun linear => Store.touch linear.val).foldl (perform layout) paged).paging = paged.paging := by
  induction busy generalizing paged with
  | nil => rfl
  | cons linear rest ih => exact ih

end

/-- An event leaves the tables that the kernel has after it, and a buffer that is right for them; so it is at each
access on the way. -/
theorem Remaps.fresh {layout : Layout} {before after : Paging} {mmu : Mmu} {stores : List Store}
    (remaps : Remaps layout before after stores) (fresh : Fresh layout ∅ ⟨before, mmu⟩)
    (busy : Nat → List (Fin 0x800000)) :
    ((interleave busy stores).foldl (perform layout) ⟨before, mmu⟩).paging = after ∧
      Fresh layout ∅ ((interleave busy stores).foldl (perform layout) ⟨before, mmu⟩) ∧
      EachExact layout ⟨before, mmu⟩ (interleave busy stores) := by
  have user : Above (∅ ∪ pagesOf usrIdx) := by
    rw [Set.empty_union]
    exact above_pagesOf (by decide)
  have video : Above (∅ ∪ pagesOf vidIdx) := by
    rw [Set.empty_union]
    exact above_pagesOf (by decide)
  have none : Above ∅ := fun page inside => inside.elim
  cases remaps with
  | nothing same => exact ⟨same.symm, fresh, trivial⟩
  | @user pid mapped =>
      simp only [interleave, List.foldl_append, List.foldl_cons, List.foldl_nil]
      have started := fresh.busy none (busy 1)
      have stored := (started.mapUser pid).busy user (busy 0)
      refine ⟨?_, stored.flushTlb.1, ?_⟩
      · rw [mapped]
        simp only [perform, busy_paging]
      · exact eachExact_interleave (fresh.busy_exact none (busy 1)) (fun _ other => by cases other)
          (eachExact_interleave ((started.mapUser pid).busy_exact user (busy 0)) (fun _ other => by cases other)
            trivial)
  | @turn pid addy mapped =>
      simp only [interleave, List.foldl_append, List.foldl_cons, List.foldl_nil]
      have started := fresh.busy none (busy 2)
      have stored := (started.mapUser pid).busy user (busy 1)
      obtain ⟨flushed, own⟩ := stored.flushTlb
      have last := (flushed.busy none (busy 0)).setVideoPage addy
      refine ⟨?_, ⟨last.shape, last.coherent.of_nothing fun page inside => ?_, last.pge⟩, ?_⟩
      · rw [mapped]
        simp only [perform, busy_paging]
      · -- the buffer has been empty since the flush but for pages of the kernel
        exact own.busy (busy 0) page (video page inside)
      · exact eachExact_interleave (fresh.busy_exact none (busy 2)) (fun _ other => by cases other)
          (eachExact_interleave ((started.mapUser pid).busy_exact user (busy 1)) (fun _ other => by cases other)
            (eachExact_interleave (flushed.busy_exact none (busy 0)) (fun _ other => by cases other) trivial))
  | @video screenStart addy inside mapped =>
      simp only [interleave, List.foldl_append, List.foldl_cons, List.foldl_nil]
      have twice : Above (∅ ∪ pagesOf vidIdx ∪ pagesOf vidIdx) := video.union (above_pagesOf (by decide))
      have apart : ∀ linear, 0x08000000 ≤ linear → linear < 0x08400000 →
          linear / 2 ^ 12 ∉ ∅ ∪ pagesOf vidIdx ∪ pagesOf vidIdx := by
        intro linear low high member
        have place : linear / 2 ^ 12 / 2 ^ 10 = 34 := by
          rcases member with (member | member) | member
          · exact member.elim
          · exact member
          · exact member
        omega
      unfold InUserPage at inside
      have low := apart screenStart (by omega) (by omega)
      have high := apart (screenStart + 3) (by omega) (by omega)
      have started := fresh.busy none (busy 4)
      have entered := started.mapVideo.busy video (busy 3)
      have stored := (entered.setVideoPage addy).busy twice (busy 2)
      have answered := (stored.touch low).busy twice (busy 1)
      have whole := (answered.touch high).busy twice (busy 0)
      refine ⟨?_, whole.flushTlb.1, ?_⟩
      · rw [mapped]
        simp only [perform, busy_paging]
      · refine eachExact_interleave (fresh.busy_exact none (busy 4)) (fun _ other => by cases other)
          (eachExact_interleave (started.mapVideo.busy_exact video (busy 3)) (fun _ other => by cases other)
            (eachExact_interleave ((entered.setVideoPage addy).busy_exact twice (busy 2)) (fun _ same => ?_)
              (eachExact_interleave ((stored.touch low).busy_exact twice (busy 1)) (fun _ same => ?_)
                (eachExact_interleave ((answered.touch high).busy_exact twice (busy 0)) (fun _ other => by cases other)
                  trivial))))
        · cases same
          exact stored.exact low
        · cases same
          exact answered.exact high

/-! ## Runs -/

theorem step_fresh {image : Image} {layout : Layout} {state next : State} {action : Action}
    (fresh : Fresh layout ∅ ⟨state.kernel.paging, state.mmu⟩) (taken : step image layout state action = some next) :
    Fresh layout ∅ ⟨next.kernel.paging, next.mmu⟩ := by
  cases action with
  | access linear =>
      obtain rfl := Option.some.inj taken
      exact fresh.touch (fun inside => inside)
  | event event busy =>
      obtain ⟨⟨transfer, after⟩, stepped, rfl⟩ := Option.map_eq_some_iff.mp taken
      obtain ⟨paging, fresh, _⟩ := (step_remaps stepped).fresh fresh busy
      rw [← paging]
      exact fresh

theorem enabling_pge (pageDirectory : UInt32) (registers : Registers) :
    (enabling pageDirectory registers).cr4.toBitVec.getLsbD 7 = registers.cr4.toBitVec.getLsbD 7 := by
  have pse : (0x00000010 : UInt32).toBitVec.getLsbD 7 = false := rfl
  simp only [enabling, UInt32.toBitVec_or, BitVec.getLsbD_or, pse, Bool.or_false]

/-- Where CR4 has no global pages, the buffer is never stale: whatever has been accessed and whatever the kernel has
done, an access goes where the tables say, and so does each access of the kernel in the middle of what it does next. -/
theorem tlb_is_never_stale {image : Image} {layout : Layout} {registers : Registers}
    (pge : registers.cr4.toBitVec.getLsbD 7 = false) (pageDirectory : UInt32) (pcb : Int → Pcb) (rtc : Rtc)
    (leftovers : Leftovers) {actions : List Action} {final : State}
    (ran : Transition.run (step image layout) (.start layout pcb rtc leftovers pageDirectory registers) actions =
      some final) :
    (∀ linear, Exact layout ⟨final.kernel.paging, final.mmu⟩ linear) ∧
      ∀ event transfer after, final.kernel.step image layout event = some (transfer, after) → ∀ busy,
        EachExact layout ⟨final.kernel.paging, final.mmu⟩ (interleave busy (stores event transfer after)) := by
  have start : Fresh layout ∅ ⟨(State.start layout pcb rtc leftovers pageDirectory registers).kernel.paging,
      (State.start layout pcb rtc leftovers pageDirectory registers).mmu⟩ := by
    exact ⟨shape_pageInit layout, coherent_none, (enabling_pge pageDirectory registers).trans pge⟩
  have fresh : Fresh layout ∅ ⟨final.kernel.paging, final.mmu⟩ :=
    Transition.run_preserves (step image layout) start (fun _ _ _ fresh taken => step_fresh fresh taken) ran
  refine ⟨fun linear => fresh.exact fun inside => inside, fun event transfer after taken busy => ?_⟩
  exact ((step_remaps taken).fresh fresh busy).2.2

/-- A shell, its first instruction, and another shell in its place. -/
def sampleActions : List Action :=
  [.event (.execute Image.shell ⟨0, 0⟩ .zeros) fun _ => [⟨0x400000, by decide⟩], .access 0x08048000,
    .event (.execute Image.shell ⟨0, 0⟩ .zeros) fun _ => []]

theorem tlb_is_never_stale_sample : ∃ final transfer after,
    Transition.run (step Image.sample Layout.sample)
        (.start Layout.sample (fun _ => Pcb.zeros) ⟨0, false⟩ .zeros 0x402000 ⟨0x11, 0, 0⟩) sampleActions = some final ∧
      final.kernel.step Image.sample Layout.sample (.vidmap 0x08000000) = some (transfer, after) ∧
      (∀ linear, Exact Layout.sample ⟨final.kernel.paging, final.mmu⟩ linear) ∧
      EachExact Layout.sample ⟨final.kernel.paging, final.mmu⟩ (interleave (fun _ => [⟨0x400000, by decide⟩])
        (stores (.vidmap 0x08000000) transfer after)) := by
  have runs : ((Transition.run (step Image.sample Layout.sample)
      (.start Layout.sample (fun _ => Pcb.zeros) ⟨0, false⟩ .zeros 0x402000 ⟨0x11, 0, 0⟩) sampleActions).bind
        fun final => final.kernel.step Image.sample Layout.sample (.vidmap 0x08000000)).isSome := by
    decide +kernel
  obtain ⟨⟨transfer, after⟩, both⟩ := Option.isSome_iff_exists.mp runs
  obtain ⟨final, ran, taken⟩ := Option.bind_eq_some_iff.mp both
  obtain ⟨exact, each⟩ := tlb_is_never_stale (by decide) 0x402000 _ _ _ ran
  exact ⟨final, transfer, after, ran, taken, exact, each _ _ _ taken _⟩

end LinuxLikeOS.Tlb
