import LinuxLikeOS.Bytes
import Mathlib.Logic.Function.Basic

/-!
# Paging (`paging.c`)

The page directory, the two page tables, and the walk the processor makes over them. A page
directory entry without `ps` names a table by its frame; where the linker has put the two
tables, and what other frames would read as, is the layout.
-/

namespace LinuxLikeOS

open Function

/-- `page_directory_entry_t`. -/
structure PageDirectoryEntry where
  present : Bool
  rw : Bool
  us : Bool
  pwt : Bool
  pcd : Bool
  acc : Bool
  avl : Bool
  ps : Bool
  g : Bool
  avl3 : Nat
  addy : Nat
  deriving DecidableEq

/-- `page_table_entry_t`. -/
structure PageTableEntry where
  present : Bool
  rw : Bool
  us : Bool
  pwt : Bool
  pcd : Bool
  acc : Bool
  dirty : Bool
  pat : Bool
  g : Bool
  avl3 : Nat
  addy : Nat
  deriving DecidableEq

abbrev PageTable := Fin 1024 → PageTableEntry

instance neZero_1024 : NeZero 1024 := ⟨by decide⟩

/-- The frames of `page_table` and `vid_table`, and the other frames read as tables. -/
structure Layout where
  pageTable : Nat
  vidTable : Nat
  distinct : pageTable ≠ vidTable
  elsewhere : Nat → PageTable

def Layout.sample : Layout :=
  ⟨0x400, 0x401, by decide, fun _ _ => ⟨false, false, false, false, false, false, false, false, false, 0, 0⟩⟩

structure Paging where
  pageDirectory : Fin 1024 → PageDirectoryEntry
  pageTable : PageTable
  vidTable : PageTable

/-- `USR_IDX` and `VID_IDX`. -/
def usrIdx : Fin 1024 := 32
def vidIdx : Fin 1024 := 34

/-- `EIGHTMB + pid * FOURMB`. -/
def userFrame (pid : Int) : Int := 0x800000 + pid * 0x400000

namespace Paging

/-- The statics before `page_init`. -/
def loaded : Paging where
  pageDirectory := fun _ => ⟨false, false, false, false, false, false, false, false, false, 0, 0⟩
  pageTable := fun _ => ⟨false, false, false, false, false, false, false, false, false, 0, 0⟩
  vidTable := fun _ => ⟨false, false, false, false, false, false, false, false, false, 0, 0⟩

def pageInit (layout : Layout) (paging : Paging) : Paging where
  pageDirectory := fun i =>
    let entry : PageDirectoryEntry :=
      { present := false, rw := true, us := false, pwt := false, pcd := false, acc := false, avl := false
        ps := true, g := true, avl3 := 0, addy := (paging.pageDirectory i).addy }
    if i.val = 0 then { entry with present := true, ps := false, addy := layout.pageTable }
    else if i.val = 1 then { entry with present := true, addy := 0x400000 / 2 ^ 12 }
    else entry
  pageTable := fun i =>
    -- the pages of the three terminals, set up by the second loop
    if 0xBA000 / 2 ^ 12 ≤ i.val ∧ i.val < 0xBA000 / 2 ^ 12 + 3 then
      { present := true, rw := true, us := true, pwt := false, pcd := false, acc := false, dirty := false
        pat := false, g := false, avl3 := 0, addy := i.val }
    else
      { present := i.val * 2 ^ 12 = 0xB8000, rw := true, us := false, pwt := false, pcd := false, acc := false
        dirty := false, pat := false, g := false, avl3 := 0, addy := i.val }
  vidTable := paging.vidTable

/-- The entry for the page of a process. -/
def userPage (pid : Int) : PageDirectoryEntry :=
  { present := true, rw := true, us := true, pwt := false, pcd := false, acc := false, avl := false
    ps := true, g := true, avl3 := 0, addy := toUnsigned (userFrame pid) / 2 ^ 12 }

/-- The assignments to `page_directory[USR_IDX]`. -/
def mapUser (paging : Paging) (pid : Int) : Paging :=
  { paging with pageDirectory := update paging.pageDirectory usrIdx (userPage pid) }

@[simp] theorem mapUser_usrIdx (paging : Paging) (pid : Int) :
    (paging.mapUser pid).pageDirectory usrIdx = userPage pid :=
  update_self usrIdx _ paging.pageDirectory

@[simp] theorem mapUser_vidIdx (paging : Paging) (pid : Int) :
    (paging.mapUser pid).pageDirectory vidIdx = paging.pageDirectory vidIdx := by
  have other : vidIdx ≠ usrIdx := by decide
  exact update_of_ne other (userPage pid) paging.pageDirectory

/-- The assignments to `page_directory[VID_IDX]` in `vidmap`. -/
def mapVideo (layout : Layout) (paging : Paging) : Paging :=
  { paging with
    pageDirectory := update paging.pageDirectory vidIdx
      { paging.pageDirectory vidIdx with
        present := true, rw := true, us := true, ps := false, addy := layout.vidTable } }

@[simp] theorem mapVideo_usrIdx (layout : Layout) (paging : Paging) :
    (paging.mapVideo layout).pageDirectory usrIdx = paging.pageDirectory usrIdx := by
  have other : usrIdx ≠ vidIdx := by decide
  simp [mapVideo, other]

/-- The assignments to `vid_table[0]`. -/
def setVideoPage (paging : Paging) (addy : Nat) : Paging :=
  { paging with
    vidTable := update paging.vidTable 0
      { paging.vidTable 0 with present := true, rw := true, us := true, addy := addy } }

/-- The table in a frame. -/
def tableAt (layout : Layout) (paging : Paging) (frame : Nat) : PageTable :=
  if frame = layout.pageTable then paging.pageTable
  else if frame = layout.vidTable then paging.vidTable
  else layout.elsewhere frame

/-- Who makes an access: the flag `us` matters to user code only. -/
inductive Privilege where
  | user
  | supervisor
  deriving DecidableEq

/-- The physical address a linear address stands for, if the access does not fault. -/
def translate (layout : Layout) (paging : Paging) (privilege : Privilege) (linear : Nat) : Option Nat :=
  if inside : linear < 2 ^ 32 then
    let entry := paging.pageDirectory ⟨linear / 2 ^ 22, by omega⟩
    if entry.present ∧ (privilege = .user → entry.us) then
      if entry.ps then some (entry.addy / 2 ^ 10 * 2 ^ 22 + linear % 2 ^ 22)
      else
        let page := tableAt layout paging entry.addy ⟨linear / 2 ^ 12 % 2 ^ 10, by omega⟩
        if page.present ∧ (privilege = .user → page.us) then some (page.addy * 2 ^ 12 + linear % 2 ^ 12)
        else none
    else none
  else none

/-! ## What user code reaches -/

/-- The shape of the tables in every state after `page_init`: the first 8MB are the kernel's,
the pages of the running process and of the video memory are all there is besides. -/
structure Confined (layout : Layout) (vidmapped : Prop) (paging : Paging) : Prop where
  kernel : (paging.pageDirectory 0).us = false ∧ (paging.pageDirectory 1).us = false
  video : (paging.pageDirectory vidIdx).present = true →
    vidmapped ∧ (paging.pageDirectory vidIdx).ps = false ∧
      (paging.pageDirectory vidIdx).addy = layout.vidTable
  absent : ∀ i : Fin 1024, i ≠ 0 → i ≠ 1 → i ≠ usrIdx → i ≠ vidIdx →
    (paging.pageDirectory i).present = false
  videoPage : (paging.vidTable 0).present = true →
    (paging.vidTable 0).addy = 0xB8 ∨ ∃ t : Fin 3, (paging.vidTable 0).addy = 0xBA + t.val
  videoRest : ∀ i : Fin 1024, i ≠ 0 → (paging.vidTable i).present = false

theorem pageInit_confined (layout : Layout) : Confined layout False (pageInit layout loaded) where
  kernel := ⟨rfl, rfl⟩
  video := by
    intro present
    cases present
  absent := by
    intro i notZero notOne _ _
    have zero : i.val ≠ 0 := fun same => notZero (Fin.ext same)
    have one : i.val ≠ 1 := fun same => notOne (Fin.ext same)
    simp only [pageInit, if_neg zero, if_neg one]
  videoPage := by
    intro present
    cases present
  videoRest := fun _ _ => rfl

theorem mapUser_confined {layout : Layout} {vidmapped : Prop} {paging : Paging}
    (confined : Confined layout vidmapped paging) (pid : Int) :
    Confined layout vidmapped (paging.mapUser pid) := by
  have others : ∀ i : Fin 1024, i ≠ usrIdx →
    (paging.mapUser pid).pageDirectory i = paging.pageDirectory i :=
    fun i other => update_of_ne other _ _
  refine ⟨?_, ?_, ?_, confined.videoPage, confined.videoRest⟩
  · rw [others 0 (by decide), others 1 (by decide)]
    exact confined.kernel
  · rw [others vidIdx (by decide)]
    exact confined.video
  · intro i notZero notOne notUser notVideo
    rw [others i notUser]
    exact confined.absent i notZero notOne notUser notVideo

theorem mapVideo_confined {layout : Layout} {vidmapped : Prop} {paging : Paging}
    (confined : Confined layout vidmapped paging) : Confined layout True (paging.mapVideo layout) := by
  have others : ∀ i : Fin 1024, i ≠ vidIdx →
    (paging.mapVideo layout).pageDirectory i = paging.pageDirectory i :=
    fun i other => update_of_ne other _ _
  refine ⟨?_, ?_, ?_, confined.videoPage, confined.videoRest⟩
  · rw [others 0 (by decide), others 1 (by decide)]
    exact confined.kernel
  · intro _
    simp [mapVideo]
  · intro i notZero notOne notUser notVideo
    rw [others i notVideo]
    exact confined.absent i notZero notOne notUser notVideo

theorem setVideoPage_confined {layout : Layout} {vidmapped : Prop} {paging : Paging}
    (confined : Confined layout vidmapped paging) {addy : Nat}
    (video : addy = 0xB8 ∨ ∃ t : Fin 3, addy = 0xBA + t.val) :
    Confined layout vidmapped (paging.setVideoPage addy) := by
  refine ⟨confined.kernel, confined.video, confined.absent, ?_, ?_⟩
  · intro _
    simpa [setVideoPage] using video
  · intro i other
    have same : (paging.setVideoPage addy).vidTable i = paging.vidTable i := update_of_ne other _ _
    rw [same]
    exact confined.videoRest i other

theorem Confined.weaken {layout : Layout} {before after : Prop} {paging : Paging}
    (confined : Confined layout before paging) (implied : before → after) :
      Confined layout after paging :=
  { confined with
    video := fun present =>
      let ⟨mapped, rest⟩ := confined.video present
      ⟨implied mapped, rest⟩ }

/-- The walk of a user access that does not fault: one large page, or a page of a table. -/
theorem translate_user {layout : Layout} {paging : Paging} {linear physical : Nat}
    (reached : translate layout paging .user linear = some physical) :
    ∃ index : Fin 1024, index.val = linear / 2 ^ 22 ∧ (paging.pageDirectory index).present = true ∧
      (paging.pageDirectory index).us = true ∧
      (((paging.pageDirectory index).ps = true ∧
          physical = (paging.pageDirectory index).addy / 2 ^ 10 * 2 ^ 22 + linear % 2 ^ 22) ∨
        ((paging.pageDirectory index).ps = false ∧
          ∃ page : Fin 1024, page.val = linear / 2 ^ 12 % 2 ^ 10 ∧
            (tableAt layout paging (paging.pageDirectory index).addy page).present = true ∧
            physical = (tableAt layout paging (paging.pageDirectory index).addy page).addy * 2 ^ 12 +
              linear % 2 ^ 12)) := by
  unfold translate at reached
  split at reached
  case isFalse => cases reached
  case isTrue inside =>
    simp only [forall_const] at reached
    split at reached
    case isFalse => cases reached
    case isTrue allowed =>
      refine ⟨⟨linear / 2 ^ 22, by omega⟩, rfl, allowed.1, allowed.2, ?_⟩
      split at reached
      case isTrue large => exact Or.inl ⟨large, (Option.some.inj reached).symm⟩
      case isFalse small =>
        split at reached
        case isFalse => cases reached
        case isTrue pageAllowed =>
          exact Or.inr ⟨eq_false_of_ne_true small, ⟨linear / 2 ^ 12 % 2 ^ 10, by omega⟩, rfl, pageAllowed.1,
            (Option.some.inj reached).symm⟩

theorem toUnsigned_userFrame {pid : Int} (range : 0 ≤ pid ∧ pid ≤ 5) :
    (toUnsigned (userFrame pid) : Int) = 0x800000 + pid * 0x400000 := by
  refine toUnsigned_of_nonneg ?_ ?_ <;> unfold userFrame <;> omega

section Reach

variable {layout : Layout} {vidmapped : Prop} {paging : Paging}

/-- User code gets past two entries of the directory only. -/
theorem Confined.user_entry (confined : Confined layout vidmapped paging) {index : Fin 1024}
    (present : (paging.pageDirectory index).present = true) (user : (paging.pageDirectory index).us = true) :
    index = usrIdx ∨ index = vidIdx := by
  by_contra neither
  obtain ⟨notUser, notVideo⟩ := not_or.mp neither
  have kernel := confined.kernel
  by_cases zero : index = 0
  · rw [zero, kernel.1] at user
    cases user
  · by_cases one : index = 1
    · rw [one, kernel.2] at user
      cases user
    · rw [confined.absent index zero one notUser notVideo] at present
      cases present

/-- The video table maps its first page only. -/
theorem Confined.video_page (confined : Confined layout vidmapped paging) {page : Fin 1024}
    (present : (tableAt layout paging layout.vidTable page).present = true) :
    page = 0 ∧ ((tableAt layout paging layout.vidTable page).addy = 0xB8 ∨
      ∃ t : Fin 3, (tableAt layout paging layout.vidTable page).addy = 0xBA + t.val) := by
  have table : tableAt layout paging layout.vidTable = paging.vidTable := by
    unfold tableAt
    rw [if_neg layout.distinct.symm, if_pos rfl]
  rw [table] at present ⊢
  have first : page = 0 := by
    by_contra other
    rw [confined.videoRest page other] at present
    cases present
  rw [first] at present ⊢
  exact ⟨rfl, confined.videoPage present⟩

/-- A user access is to the page of the process that is mapped, or to the video page. -/
theorem Confined.reach (confined : Confined layout vidmapped paging) {pid : Int} (range : 0 ≤ pid ∧ pid ≤ 5)
    (mapped : paging.pageDirectory usrIdx = userPage pid) {linear physical : Nat}
    (reached : translate layout paging .user linear = some physical) :
    (0x08000000 ≤ linear ∧ linear < 0x08400000 ∧
      (physical : Int) = userFrame pid + ((linear : Int) - 0x08000000)) ∨
    (vidmapped ∧ 0x08800000 ≤ linear ∧ linear < 0x08801000 ∧
      ((physical : Int) = 0xB8000 + ((linear : Int) - 0x08800000) ∨
        ∃ t : Fin 3, (physical : Int) =
            0xBA000 + 0x1000 * (t.val : Int) + ((linear : Int) - 0x08800000))) := by
  obtain ⟨index, place, present, user, walk⟩ := translate_user reached
  rcases confined.user_entry present user with rfl | rfl
  · have number : linear / 2 ^ 22 = 32 := place.symm
    have frame := toUnsigned_userFrame range
    rw [mapped] at walk
    rcases walk with ⟨_, offset⟩ | ⟨small, _⟩
    · simp only [userPage] at offset
      refine Or.inl ⟨by omega, by omega, ?_⟩
      unfold userFrame
      omega
    · cases small
  · have number : linear / 2 ^ 22 = 34 := place.symm
    obtain ⟨allowed, small, table⟩ := confined.video present
    rcases walk with ⟨large, _⟩ | ⟨_, page, pageNumber, pagePresent, offset⟩
    · rw [small] at large
      cases large
    · rw [table] at pagePresent offset
      obtain ⟨rfl, addy⟩ := confined.video_page pagePresent
      have zero : linear / 2 ^ 12 % 2 ^ 10 = 0 := pageNumber.symm
      refine Or.inr ⟨allowed, by omega, by omega, ?_⟩
      rcases addy with addy | ⟨t, addy⟩
      · rw [addy] at offset
        exact Or.inl (by omega)
      · rw [addy] at offset
        exact Or.inr ⟨t, by omega⟩

end Reach

/-- Every address of the user page is mapped to the frame of the process. -/
theorem translate_userPage {layout : Layout} {paging : Paging} {pid : Int} (range : 0 ≤ pid ∧ pid ≤ 5)
    (mapped : paging.pageDirectory usrIdx = userPage pid) (privilege : Privilege) {linear : Nat}
    (inside : 0x08000000 ≤ linear ∧ linear < 0x08400000) :
    ∃ physical, translate layout paging privilege linear = some physical ∧
      (physical : Int) = userFrame pid + ((linear : Int) - 0x08000000) := by
  have small : linear < 2 ^ 32 := by omega
  have index : (⟨linear / 2 ^ 22, by omega⟩ : Fin 1024) = usrIdx :=
    Fin.ext (show linear / 2 ^ 22 = 32 by omega)
  have frame := toUnsigned_userFrame range
  refine ⟨toUnsigned (userFrame pid) / 2 ^ 12 / 2 ^ 10 * 2 ^ 22 + linear % 2 ^ 22, ?_, ?_⟩
  · rw [translate, dif_pos small, index, mapped]
    simp [userPage]
  · unfold userFrame at frame ⊢
    omega

end Paging

end LinuxLikeOS
