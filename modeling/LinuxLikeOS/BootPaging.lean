import LinuxLikeOS.Paging

/-!
# The tables of `page_init` (`paging.c`)

The two loops of `page_init`, entry by entry, and the walk of the processor through the
tables they leave: 4MB pages where `ps` is set, pages of `page_table` otherwise. `enabling` then
loads this directory with 4MB pages turned on.
-/

namespace LinuxLikeOS.BootPaging

open Function Paging

/-- `(uint32_t) page_table`; the table is aligned to 4096 bytes. -/
def pageTableAddress (layout : Layout) : Nat := 4096 * layout.pageTable

/-- What a round of the first loop assigns to `page_directory[i]`. -/
def directoryEntry (layout : Layout) (i : Fin 1024) (entry : PageDirectoryEntry) : PageDirectoryEntry :=
  let entry :=
    { entry with
      present := false, rw := true, us := false, pwt := false, pcd := false, acc := false, avl := false
      ps := true, g := true, avl3 := 0 }
  if i.val = 0 then { entry with present := true, ps := false, addy := pageTableAddress layout / 2 ^ 12 }
  else if i.val = 1 then { entry with present := true, addy := 0x400000 / 2 ^ 12 }
  else entry

/-- What it assigns to `page_table[i]`. -/
def tableEntry (i : Fin 1024) (entry : PageTableEntry) : PageTableEntry :=
  let entry :=
    { entry with
      present := false, rw := true, us := false, pwt := false, pcd := false, acc := false, dirty := false
      pat := false, g := false, avl3 := 0, addy := i.val }
  if i.val * 2 ^ 12 = 0xB8000 then { entry with present := true } else entry

/-- What a round of the second loop assigns to `page_table[i]`. -/
def terminalEntry (i : Fin 1024) (entry : PageTableEntry) : PageTableEntry :=
  { entry with
    present := true, rw := true, us := true, pwt := false, pcd := false, acc := false, dirty := false
    pat := false, g := false, avl3 := 0, addy := i.val }

/-- A round that changes the entries at its index only. -/
def onEntry (directory : Fin 1024 → PageDirectoryEntry → PageDirectoryEntry)
    (table : Fin 1024 → PageTableEntry → PageTableEntry) (i : Fin 1024) (paging : Paging) : Paging :=
  { paging with
    pageDirectory := update paging.pageDirectory i (directory i (paging.pageDirectory i))
    pageTable := update paging.pageTable i (table i (paging.pageTable i)) }

/-- `n` rounds of a loop from index `i` on; every index is one of the tables. -/
def rounds (body : Fin 1024 → Paging → Paging) : (i n : Nat) → i + n ≤ 1024 → Paging → Paging
  | _, 0, _, paging => paging
  | i, n + 1, inside, paging => rounds body (i + 1) n (by omega) (body ⟨i, by omega⟩ paging)

def pageInit (layout : Layout) (paging : Paging) : Paging :=
  let paging := rounds (onEntry (directoryEntry layout) tableEntry) 0 1024 (by decide) paging
  rounds (onEntry (fun _ entry => entry) terminalEntry) (0xBA000 / 2 ^ 12) 3 (by decide) paging

/-! ## The walk -/

/-- Page faults, by the lowest bit of their error code. -/
inductive Fault where
  | notPresent
  | protection
  deriving DecidableEq

/-- Whether the flags `us` on the way let an access through. -/
def allowed (privilege : Privilege) (us : Bool) : Bool := privilege == .supervisor || us

/-- An access to a linear address. User code needs `us` in the directory and in the table. -/
def access (layout : Layout) (paging : Paging) (privilege : Privilege) (linear : UInt32) : Except Fault Nat :=
  let entry := paging.pageDirectory ⟨linear.toNat / 2 ^ 22, by have := linear.toNat_lt; omega⟩
  if entry.present = false then .error .notPresent
  else if entry.ps then
    if allowed privilege entry.us then .ok (entry.addy / 2 ^ 10 * 2 ^ 22 + linear.toNat % 2 ^ 22)
    else .error .protection
  else
    let page := tableAt layout paging entry.addy ⟨linear.toNat / 2 ^ 12 % 2 ^ 10, by omega⟩
    if page.present = false then .error .notPresent
    else if allowed privilege (entry.us && page.us) then .ok (page.addy * 2 ^ 12 + linear.toNat % 2 ^ 12)
    else .error .protection

/-- An access that does not fault is one that the walk of the other results lets through. -/
theorem toOption_access (layout : Layout) (paging : Paging) (privilege : Privilege) (linear : UInt32) :
    (access layout paging privilege linear).toOption =
      Paging.translate layout paging privilege linear.toNat := by
  have small := linear.toNat_lt
  unfold access Paging.translate
  rw [dif_pos small]
  simp only []
  generalize paging.pageDirectory _ = entry
  generalize tableAt layout paging entry.addy _ = page
  generalize entry.present = present, entry.ps = large, entry.us = user, page.present = there, page.us = open'
  cases present with
  | false => rfl
  | true => cases large <;> cases privilege <;> cases user <;> cases there <;> cases open' <;> rfl

/-! ## What the loops leave -/

/-- The first entry of a range is set, and then the rest of the range. -/
theorem set_first {α : Type} (entries : Fin 1024 → α) (set : Fin 1024 → α → α) {i n : Nat} (here : i < 1024)
    (j : Fin 1024) :
    (if i + 1 ≤ j.val ∧ j.val < i + 1 + n then set j (update entries ⟨i, here⟩ (set ⟨i, here⟩ (entries ⟨i, here⟩)) j)
      else update entries ⟨i, here⟩ (set ⟨i, here⟩ (entries ⟨i, here⟩)) j) =
    if i ≤ j.val ∧ j.val < i + (n + 1) then set j (entries j) else entries j := by
  rcases eq_or_ne j ⟨i, here⟩ with rfl | other
  · have before : ¬ (i + 1 ≤ i ∧ i < i + 1 + n) := by omega
    have first : i ≤ i ∧ i < i + (n + 1) := by omega
    rw [if_neg before, if_pos first, update_self]
  · have apart : j.val ≠ i := fun same => other (Fin.ext same)
    have range : (i + 1 ≤ j.val ∧ j.val < i + 1 + n) ↔ (i ≤ j.val ∧ j.val < i + (n + 1)) := by omega
    simp only [update_of_ne other, range]

/-- Each entry in the range of a loop is set once; the others stay. -/
theorem rounds_onEntry {directory : Fin 1024 → PageDirectoryEntry → PageDirectoryEntry}
    {table : Fin 1024 → PageTableEntry → PageTableEntry} (i n : Nat) (inside : i + n ≤ 1024) (paging : Paging) :
    rounds (onEntry directory table) i n inside paging =
      { pageDirectory := fun j =>
          if i ≤ j.val ∧ j.val < i + n then directory j (paging.pageDirectory j) else paging.pageDirectory j
        pageTable := fun j =>
          if i ≤ j.val ∧ j.val < i + n then table j (paging.pageTable j) else paging.pageTable j
        vidTable := paging.vidTable } := by
  induction n generalizing i paging with
  | zero =>
      have empty : ∀ j : Fin 1024, ¬ (i ≤ j.val ∧ j.val < i + 0) := by omega
      simp only [rounds, if_neg (empty _)]
  | succ n ih =>
      rw [rounds, ih]
      simp only [onEntry, set_first]

/-- The loops build the tables of the model of the kernel. -/
theorem pageInit_eq (layout : Layout) (paging : Paging) :
    pageInit layout paging = Paging.pageInit layout paging := by
  have address : pageTableAddress layout / 2 ^ 12 = layout.pageTable :=
    Nat.mul_div_cancel_left layout.pageTable (by decide)
  have all : ∀ j : Fin 1024, 0 ≤ j.val ∧ j.val < 0 + 1024 := by omega
  unfold pageInit Paging.pageInit
  simp only [rounds_onEntry, if_pos (all _), ite_self]
  congr 1
  · funext j
    simp only [directoryEntry, address]
  · funext j
    simp only [terminalEntry, tableEntry]
    split
    · rfl
    · split <;> rename_i video <;> simp only [video, decide_true, decide_false]

/-- The video page, the three pages of the terminals, and the kernel's 4MB. -/
def Mapped (linear : UInt32) : Prop :=
  (0xB8000 ≤ linear.toNat ∧ linear.toNat < 0xB9000) ∨ (0xBA000 ≤ linear.toNat ∧ linear.toNat < 0xBD000) ∨
    (0x400000 ≤ linear.toNat ∧ linear.toNat < 0x800000)

instance (linear : UInt32) : Decidable (Mapped linear) := inferInstanceAs (Decidable (_ ∨ _ ∨ _))

section

variable (layout : Layout) (paging : Paging)

/-- The pages of `page_table` that are present, whoever asks. -/
theorem present_pageTable (page : Fin 1024) :
    ((Paging.pageInit layout paging).pageTable page).present =
      decide (page.val = 0xB8 ∨ (0xBA ≤ page.val ∧ page.val < 0xBD)) := by
  unfold Paging.pageInit
  simp only []
  by_cases terminal : 0xBA000 / 2 ^ 12 ≤ page.val ∧ page.val < 0xBA000 / 2 ^ 12 + 3
  · rw [if_pos terminal]
    simp only [true_eq_decide_iff]
    omega
  · rw [if_neg terminal]
    simp only [decide_eq_decide]
    omega

theorem addy_pageTable (page : Fin 1024) : ((Paging.pageInit layout paging).pageTable page).addy = page.val := by
  unfold Paging.pageInit
  simp only []
  split <;> rfl

/-- The first 4MB go through the table, and are the kernel's. -/
theorem access_low (privilege : Privilege) {linear : UInt32} (low : linear.toNat < 2 ^ 22) :
    access layout (Paging.pageInit layout paging) privilege linear =
      if Mapped linear then (if privilege = .user then .error .protection else .ok linear.toNat)
      else .error .notPresent := by
  have index : (⟨linear.toNat / 2 ^ 22, by omega⟩ : Fin 1024) = 0 := Fin.ext (Nat.div_eq_of_lt low)
  have table : tableAt layout (Paging.pageInit layout paging) layout.pageTable =
      (Paging.pageInit layout paging).pageTable := if_pos rfl
  have entry : (Paging.pageInit layout paging).pageDirectory 0 =
      { present := true, rw := true, us := false, pwt := false, pcd := false, acc := false, avl := false
        ps := false, g := true, avl3 := 0, addy := layout.pageTable } := rfl
  have frame : linear.toNat / 2 ^ 12 % 2 ^ 10 * 2 ^ 12 + linear.toNat % 2 ^ 12 = linear.toNat := by omega
  have present : (linear.toNat / 2 ^ 12 % 2 ^ 10 = 0xB8 ∨
      (0xBA ≤ linear.toNat / 2 ^ 12 % 2 ^ 10 ∧ linear.toNat / 2 ^ 12 % 2 ^ 10 < 0xBD)) ↔ Mapped linear := by
    unfold Mapped
    omega
  unfold access
  simp only [index, entry, table, present_pageTable, addy_pageTable, present, frame]
  by_cases mapped : Mapped linear
  · rw [if_pos mapped]
    cases privilege <;> simp [mapped, allowed]
  · rw [if_neg mapped]
    simp [mapped]

/-- The next 4MB are one page. -/
theorem access_kernel (privilege : Privilege) {linear : UInt32} (low : 2 ^ 22 ≤ linear.toNat)
    (high : linear.toNat < 2 ^ 23) :
    access layout (Paging.pageInit layout paging) privilege linear =
      if privilege = .user then .error .protection else .ok linear.toNat := by
  have index : (⟨linear.toNat / 2 ^ 22, by omega⟩ : Fin 1024) = 1 :=
    Fin.ext (show linear.toNat / 2 ^ 22 = 1 by omega)
  have entry : (Paging.pageInit layout paging).pageDirectory 1 =
      { present := true, rw := true, us := false, pwt := false, pcd := false, acc := false, avl := false
        ps := true, g := true, avl3 := 0, addy := 0x400000 / 2 ^ 12 } := rfl
  have frame : 0x400000 / 2 ^ 12 / 2 ^ 10 * 2 ^ 22 + linear.toNat % 2 ^ 22 = linear.toNat := by omega
  unfold access
  simp only [index, entry, frame]
  cases privilege <;> simp [allowed]

theorem access_high (privilege : Privilege) {linear : UInt32} (high : 2 ^ 23 ≤ linear.toNat) :
    access layout (Paging.pageInit layout paging) privilege linear = .error .notPresent := by
  have small := linear.toNat_lt
  have absent : ((Paging.pageInit layout paging).pageDirectory ⟨linear.toNat / 2 ^ 22, by omega⟩).present = false := by
    have zero : ¬ linear.toNat / 2 ^ 22 = 0 := by omega
    have one : ¬ linear.toNat / 2 ^ 22 = 1 := by omega
    simp only [Paging.pageInit, if_neg zero, if_neg one]
  unfold access
  simp only [absent, if_true]

end

/-- The tables of `page_init` map the video page, the pages of the terminals and the kernel to
themselves, for the supervisor; every other address is not present. -/
theorem page_init_maps_exactly (layout : Layout) (paging : Paging) (privilege : Privilege) (linear : UInt32) :
    access layout (pageInit layout paging) privilege linear =
      if Mapped linear then (if privilege = .user then .error .protection else .ok linear.toNat)
      else .error .notPresent := by
  rw [pageInit_eq]
  rcases Nat.lt_or_ge linear.toNat (2 ^ 22) with low | past
  · exact access_low layout paging privilege low
  · rcases Nat.lt_or_ge linear.toNat (2 ^ 23) with kernel | high
    · have mapped : Mapped linear := Or.inr (Or.inr ⟨past, kernel⟩)
      rw [if_pos mapped]
      exact access_kernel layout paging privilege past kernel
    · have unmapped : ¬ Mapped linear := by
        unfold Mapped
        omega
      rw [if_neg unmapped]
      exact access_high layout paging privilege high

end LinuxLikeOS.BootPaging
