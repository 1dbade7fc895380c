import LinuxLikeOS.Blocks
import LinuxLikeOS.ReadData
import LinuxLikeOS.Traced

/-!
# `read_dentry_by_index` byte by byte (`file_sys.c`, `lib.c`)

The entry is copied to a local variable, its name from there by `strcpy`, and the other fields after
it. A name of 32 bytes has no NUL of its own: `strcpy` runs on into the fields behind the name, which
are assigned later.
-/

namespace LinuxLikeOS.DentryCopy

open Function Blocks Traced ReadData

inductive Access where
  | read (address : Nat)
  | write (address : Nat)

/-- The bytes of an object, one after the other: an assignment, or `memcpy`. -/
def copyBytes (dest src n : Nat) (memory : Memory) : Traced Access Memory :=
  Traced.loop (fun i memory => do
    access (.read (src + i))
    access (.write (dest + i))
    pure (update memory (dest + i) (memory (src + i)))) 0 n memory

/-- The loop of `strcpy` from byte `i` on; `none` where it has not ended after `fuel` bytes. -/
def strcpy (dest src : Nat) : Nat → Nat → Memory → Traced Access (Option Memory)
  | 0, _, _ => pure none
  | fuel + 1, i, memory => do
      access (.read (src + i))
      if memory (src + i) ≠ 0 then do
        access (.read (src + i))
        access (.write (dest + i))
        strcpy dest src fuel (i + 1) (update memory (dest + i) (memory (src + i)))
      else do
        access (.write (dest + i))
        pure (some (update memory (dest + i) 0))

/-- `boot_block_ptr->direntries + index`. -/
def direntries (bootBlock index : Nat) : Nat := bootBlock + 64 + 64 * index

/-- `read_dentry_by_index`, with the local variable at `currDirectory`. -/
def readDentryByIndex (fuel bootBlock currDirectory index dentry : Nat) (memory : Memory) :
    Traced Access (Option (Int × Memory)) := do
  Traced.loop (fun i _ => access (.read (bootBlock + 4 + i))) 0 4 ()
  if index ≥ word32 memory (bootBlock + 4) then pure (some (-1, memory))
  else do
    let memory ← copyBytes currDirectory (direntries bootBlock index) 64 memory
    match ← strcpy dentry currDirectory fuel 0 memory with
    | none => pure none
    | some memory => do
        let memory ← copyBytes (dentry + 32) (currDirectory + 32) 4 memory
        let memory ← copyBytes (dentry + 36) (currDirectory + 36) 4 memory
        let memory ← copyBytes (dentry + 40) (currDirectory + 40) 24 memory
        pure (some (0, memory))

/-! ## What the copies do -/

/-- Reads in one block, writes in another. -/
def InBlocks (dest src n : Nat) : Access → Prop
  | .read address => Within src n address
  | .write address => Within dest n address

theorem copyBytes_ensures {dest src n : Nat} (memory : Memory) (apart : Apart dest n src n) :
    Ensures (InBlocks dest src n) (fun after => after = copied memory dest src n) (copyBytes dest src n memory) := by
  refine ensures_loop_zero (fun i after => after = copied memory dest src i) (copied_zero memory dest src).symm ?_
  intro i inside state reached
  have shorter : Apart dest (i + 1) src (i + 1) := apart.mono inside inside
  refine ensures_access_bind ⟨by omega, by omega⟩ (ensures_access_bind ⟨by omega, by omega⟩ (ensures_pure ?_))
  rw [reached]
  exact copied_succ memory shorter

/-- `strcpy` copies up to and with the NUL, and ends there. -/
theorem strcpy_ensures {dest src stop fuel i : Nat} (memory : Memory) (nul : memory (src + stop) = 0)
    (before : ∀ i < stop, memory (src + i) ≠ 0) (apart : Apart dest (stop + 1) src (stop + 1)) (reached : i ≤ stop)
    (enough : stop < i + fuel) :
    Ensures (InBlocks dest src (stop + 1)) (fun after => after = some (copied memory dest src (stop + 1)))
      (strcpy dest src fuel i (copied memory dest src i)) := by
  induction fuel generalizing i with
  | zero => omega
  | succ fuel ih =>
      have kept : copied memory dest src i (src + i) = memory (src + i) :=
        copied_source memory (apart.mono (Nat.le_succ_of_le reached) (Nat.le_refl _)) (Nat.lt_succ_of_le reached)
      have next : update (copied memory dest src i) (dest + i) (memory (src + i)) = copied memory dest src (i + 1) := by
        rw [← kept]
        exact copied_succ memory (apart.mono (Nat.succ_le_succ reached) (Nat.succ_le_succ reached))
      refine ensures_access_bind ⟨by omega, by omega⟩ ?_
      rw [kept]
      by_cases last : i = stop
      · subst last
        rw [if_neg (not_not.mpr nul)]
        refine ensures_access_bind ⟨by omega, by omega⟩ (ensures_pure ?_)
        rw [← nul, next]
      · rw [if_pos (before i (by omega)), next]
        refine ensures_access_bind ⟨by omega, by omega⟩ (ensures_access_bind ⟨by omega, by omega⟩ ?_)
        exact ih (by omega) (by omega)

/-! ## What is left in memory -/

/-- The structure at an address. -/
def dentryAt (memory : Memory) (address : Nat) : Dentry where
  filename := fun j => memory (address + j)
  filetype := word32 memory (address + 32)
  inodeNum := word32 memory (address + 36)
  reserved := fun j => memory (address + 40 + j)

theorem direntry_mounted (memory : Memory) (bootBlock index : Nat) :
    (mounted memory bootBlock).direntry index = dentryAt memory (direntries bootBlock index) := by
  have place : ∀ k, bootBlock + (64 + 64 * index + k) = direntries bootBlock index + k := by
    unfold direntries
    omega
  have word : ∀ k, word32 (mounted memory bootBlock).byte (64 + 64 * index + k) =
      word32 memory (direntries bootBlock index + k) := by
    intro k
    simp only [word32, mounted, Nat.add_assoc, ← place]
  rw [Image.direntry, dentryAt, word, word]
  congr 1 <;> funext j
  · exact congrArg memory (place j)
  · exact congrArg memory ((congrArg (bootBlock + ·) (Nat.add_assoc _ _ _)).trans
      ((place (40 + j)).trans (Nat.add_assoc _ _ _).symm))

/-- The bytes of the structure are those in memory. -/
theorem byte_dentryAt (memory : Memory) (address : Nat) {j : Nat} (inside : j < 64) :
    (dentryAt memory address).byte j = memory (address + j) := by
  simp only [Dentry.byte, dentryAt]
  by_cases inName : j < 32
  · rw [dif_pos inName]
  · rw [dif_neg inName]
    by_cases inType : j < 36
    · obtain ⟨k, rfl⟩ := Nat.exists_eq_add_of_le (Nat.le_of_not_lt inName)
      rw [if_pos inType, Nat.add_sub_cancel_left, byteOf_word32 _ _ (by omega), Nat.add_assoc]
    · rw [if_neg inType]
      by_cases inInode : j < 40
      · obtain ⟨k, rfl⟩ := Nat.exists_eq_add_of_le (Nat.le_of_not_lt inType)
        rw [if_pos inInode, Nat.add_sub_cancel_left, byteOf_word32 _ _ (by omega), Nat.add_assoc]
      · obtain ⟨k, rfl⟩ := Nat.exists_eq_add_of_le (Nat.le_of_not_lt inInode)
        rw [if_neg inInode, dif_pos (by omega), Nat.add_assoc]
        simp only [Nat.add_sub_cancel_left]

section

variable {memory : Memory} {bootBlock currDirectory index dentry stop : Nat}

/-- The local variable is an object of its own: apart from the structure to fill, and from the
entry. -/
structure Local (bootBlock currDirectory index dentry : Nat) : Prop where
  argument : Apart dentry 64 currDirectory 64
  entry : Apart currDirectory 64 (direntries bootBlock index) 64

/-- Memory when the name has been copied, and then the fields behind it. -/
def assigned (memory : Memory) (bootBlock currDirectory index dentry stop : Nat) : Memory :=
  copied (copied (copied memory currDirectory (direntries bootBlock index) 64) dentry currDirectory (stop + 1))
    (dentry + 32) (currDirectory + 32) 32

theorem assigned_outside {address : Nat} (short : stop < 64) (argument : ¬ Within dentry 64 address)
    (own : ¬ Within currDirectory 64 address) :
    assigned memory bootBlock currDirectory index dentry stop address = memory address := by
  unfold Within at argument
  rw [assigned, copied_outside, copied_outside, copied_outside _ own]
  · unfold Within
    omega
  · unfold Within
    omega

/-- Behind the name the entry's bytes, and in it as far as `strcpy` went. -/
theorem assigned_dentry (separate : Local bootBlock currDirectory index dentry) {j : Nat} (inside : j < 64)
    (short : stop < 64) : assigned memory bootBlock currDirectory index dentry stop (dentry + j) =
      if j ≤ stop ∨ 32 ≤ j then memory (direntries bootBlock index + j) else memory (dentry + j) := by
  have entry : ∀ k < 64, copied memory currDirectory (direntries bootBlock index) 64 (currDirectory + k) =
      memory (direntries bootBlock index + k) := fun k less => copied_inside memory less
  have source : ∀ k < 64, copied (copied memory currDirectory (direntries bootBlock index) 64) dentry currDirectory
      (stop + 1) (currDirectory + k) = memory (direntries bootBlock index + k) := by
    intro k less
    rw [copied_source _ (separate.argument.mono short (Nat.le_refl _)) less, entry k less]
  unfold assigned
  by_cases behind : 32 ≤ j
  · obtain ⟨i, rfl⟩ := Nat.exists_eq_add_of_le behind
    rw [if_pos (Or.inr behind), ← Nat.add_assoc, copied_inside _ (by omega), Nat.add_assoc, source _ inside]
  · rw [copied_outside _ (by unfold Within; omega)]
    by_cases named : j ≤ stop
    · rw [if_pos (Or.inl named), copied_inside _ (Nat.lt_succ_of_le named), entry j inside]
    · have apart := separate.argument
      unfold Apart at apart
      rw [if_neg (by omega), copied_outside _ (by unfold Within; omega), copied_outside _ (by unfold Within; omega)]

/-! ## The call -/

/-- What the call may look at and what it may change. -/
def Allowed (bootBlock currDirectory index dentry : Nat) : Access → Prop
  | .read address => Within (bootBlock + 4) 4 address ∨ Within (direntries bootBlock index) 64 address ∨
      Within currDirectory 64 address
  | .write address => Within currDirectory 64 address ∨ Within dentry 64 address

/-- A block of the local variable copied to the same place of the structure. -/
theorem allowed_field (offset : Nat) {n : Nat} (inside : offset + n ≤ 64) {place : Access}
    (held : InBlocks (dentry + offset) (currDirectory + offset) n place) :
    Allowed bootBlock currDirectory index dentry place := by
  cases place with
  | read address =>
      obtain ⟨low, high⟩ := held
      exact Or.inr (Or.inr ⟨by omega, by omega⟩)
  | write address =>
      obtain ⟨low, high⟩ := held
      exact Or.inr ⟨by omega, by omega⟩

theorem allowed_entry {place : Access} (held : InBlocks currDirectory (direntries bootBlock index) 64 place) :
    Allowed bootBlock currDirectory index dentry place := by
  cases place with
  | read address => exact Or.inr (Or.inl held)
  | write address => exact Or.inl held

theorem readDentryByIndex_ensures (separate : Local bootBlock currDirectory index dentry)
    (inside : index < word32 memory (bootBlock + 4))
    (terminated : (dentryAt memory (direntries bootBlock index)).strlen = some stop) {fuel : Nat}
    (enough : stop < fuel) :
    Ensures (Allowed bootBlock currDirectory index dentry)
      (fun answer => answer = some (0, assigned memory bootBlock currDirectory index dentry stop))
      (readDentryByIndex fuel bootBlock currDirectory index dentry memory) := by
  obtain ⟨short, nul, before⟩ := firstNul_eq_some.mp terminated
  have entry : ∀ k < 64, copied memory currDirectory (direntries bootBlock index) 64 (currDirectory + k) =
      (dentryAt memory (direntries bootBlock index)).byte k :=
    fun k less => (copied_inside memory less).trans (byte_dentryAt memory _ less).symm
  have count : Ensures (Allowed bootBlock currDirectory index dentry) (fun _ => True)
      (Traced.loop (fun i (_ : Unit) => access (.read (bootBlock + 4 + i))) 0 4 ()) :=
    ensures_loop_zero (fun _ _ => True) trivial fun i less _ _ =>
      ensures_access (Or.inl ⟨by omega, by omega⟩) trivial
  have name : Ensures _ _ (strcpy dentry currDirectory fuel 0 (copied _ dentry currDirectory 0)) :=
    strcpy_ensures (copied memory currDirectory (direntries bootBlock index) 64) ((entry stop short).trans nul)
      (fun k less => (entry k (Nat.lt_trans less short)).symm ▸ before k less)
      (separate.argument.mono short short) (Nat.zero_le stop) (by omega)
  rw [copied_zero] at name
  have field : ∀ offset n (memory : Memory), offset + n ≤ 64 →
      Ensures (Allowed bootBlock currDirectory index dentry)
        (fun after => after = copied memory (dentry + offset) (currDirectory + offset) n)
        (copyBytes (dentry + offset) (currDirectory + offset) n memory) := by
    intro offset n memory fits
    have apart := separate.argument
    refine (copyBytes_ensures memory ?_).mono fun _ => allowed_field offset fits
    unfold Apart at apart ⊢
    omega
  unfold readDentryByIndex
  refine count.bind fun _ _ => ?_
  rw [if_neg (Nat.not_le_of_lt inside)]
  refine ((copyBytes_ensures memory separate.entry).mono fun _ => allowed_entry).bind ?_
  rintro _ rfl
  refine (name.mono fun place held => ?_).bind ?_
  · exact allowed_field 0 (Nat.le_trans (Nat.le_of_eq (Nat.zero_add _)) short) held
  · rintro _ rfl
    refine (field 32 4 _ (by omega)).bind ?_
    rintro _ rfl
    refine (field 36 4 _ (by omega)).bind ?_
    rintro _ rfl
    refine (field 40 24 _ (by omega)).bind ?_
    rintro _ rfl
    refine ensures_pure ?_
    have apart := separate.argument
    unfold Apart at apart
    have first : ∀ memory : Memory, copied (copied memory (dentry + 32) (currDirectory + 32) 4) (dentry + 36)
        (currDirectory + 36) 4 = copied memory (dentry + 32) (currDirectory + 32) 8 :=
      fun memory => copied_copied memory (by unfold Apart; omega)
    have second : ∀ memory : Memory, copied (copied memory (dentry + 32) (currDirectory + 32) 8) (dentry + 40)
        (currDirectory + 40) 24 = copied memory (dentry + 32) (currDirectory + 32) 32 :=
      fun memory => copied_copied memory (by unfold Apart; omega)
    rw [first, second]
    rfl

/-! ## The structure that is filled in -/

theorem word32_assigned (separate : Local bootBlock currDirectory index dentry) (short : stop < 64) {offset : Nat}
    (behind : 32 ≤ offset) (inside : offset + 4 ≤ 64) :
    word32 (assigned memory bootBlock currDirectory index dentry stop) (dentry + offset) =
      word32 memory (direntries bootBlock index + offset) := by
  have byte : ∀ k < 4, assigned memory bootBlock currDirectory index dentry stop (dentry + offset + k) =
      memory (direntries bootBlock index + offset + k) := by
    intro k less
    rw [Nat.add_assoc, assigned_dentry separate (by omega) short, if_pos (Or.inr (by omega)), Nat.add_assoc]
  have zeroth := byte 0 (by decide)
  simp only [Nat.add_zero] at zeroth
  rw [word32, word32, zeroth, byte 1 (by decide), byte 2 (by decide), byte 3 (by decide)]

/-- It is the structure that the lookup by index answers with. -/
theorem readDentryByIndex_mounted (separate : Local bootBlock currDirectory index dentry)
    (inside : index < word32 memory (bootBlock + 4))
    (terminated : (dentryAt memory (direntries bootBlock index)).strlen = some stop) :
    (mounted memory bootBlock).readDentryByIndex index (dentryAt memory dentry) =
      .found (dentryAt (assigned memory bootBlock currDirectory index dentry stop) dentry) := by
  have short := (firstNul_eq_some.mp terminated).1
  have present : ¬ index ≥ (mounted memory bootBlock).inodeCount := Nat.not_le_of_lt inside
  simp only [Image.readDentryByIndex, if_neg present, direntry_mounted, Image.strcpyFilename, terminated,
    Option.map_some]
  refine congrArg Lookup.found ?_
  show Dentry.mk _ _ _ _ = Dentry.mk _ _ _ _
  congr 1
  · funext j
    rw [assigned_dentry separate (by omega) short]
    by_cases named : j.val ≤ stop
    · rw [if_pos named, if_pos (Or.inl named)]
      rfl
    · rw [if_neg named, if_neg (by omega)]
      rfl
  · exact (word32_assigned separate short (Nat.le_refl _) (by decide)).symm
  · exact (word32_assigned separate short (by decide) (by decide)).symm
  · funext j
    rw [Nat.add_assoc, assigned_dentry separate (by omega) short, if_pos (Or.inr (by omega)), ← Nat.add_assoc]
    rfl

end

/-- Two directory entries that name the same file in the same way. -/
structure SameEntry (first second : Dentry) : Prop where
  name : first.name = second.name
  filetype : first.filetype = second.filetype
  inodeNum : first.inodeNum = second.inodeNum
  reserved : first.reserved = second.reserved

theorem name_congr {first second : Dentry} {stop : Nat} (here : first.strlen = some stop)
    (there : second.strlen = some stop) (agree : ∀ j ≤ stop, first.byte j = second.byte j) :
    first.name = second.name := by
  unfold Dentry.name
  rw [Dentry.nameLength_of_strlen here, Dentry.nameLength_of_strlen there]
  refine List.map_congr_left fun j member => agree j ?_
  have less := List.mem_range.mp member
  omega

theorem sameEntry_found {image : Image} {index : Nat} {dentry copied : Dentry}
    (found : image.readDentryByIndex index dentry = .found copied) : SameEntry copied (image.direntry index) := by
  rcases image.readDentryByIndex_cases index dentry with ⟨-, failed⟩ | ⟨-, -, overrun⟩ |
    ⟨stop, other, inside, terminated, same, length, agree⟩
  · cases failed.symm.trans found
  · cases overrun.symm.trans found
  · obtain rfl := Lookup.found.inj (same.symm.trans found)
    have fields := found
    simp only [Image.readDentryByIndex, if_neg (Nat.not_le_of_lt inside), Image.strcpyFilename, terminated,
      Option.map_some] at fields
    obtain rfl := Lookup.found.inj fields
    exact ⟨name_congr length terminated agree, rfl, rfl, rfl⟩

/-- Whatever name an entry of the boot block has, and whether it ends in a NUL or not: the call ends,
the structure names the same file, nothing but the structure and the local variable is changed, and
nothing but the count of inodes, the entry and the local variable is read. -/
theorem unterminated_names_are_copied (memory : Memory) (bootBlock currDirectory index dentry fuel : Nat)
    (separate : Local bootBlock currDirectory index dentry)
    (accepted : index < (mounted memory bootBlock).inodeCount) (inBootBlock : index ≤ 62)
    (type : ((mounted memory bootBlock).direntry index).filetype < 256) (enough : 34 ≤ fuel) :
    (∃ after, (readDentryByIndex fuel bootBlock currDirectory index dentry memory).value = some (0, after) ∧
      SameEntry (dentryAt after dentry) ((mounted memory bootBlock).direntry index) ∧
      ∀ address, ¬ Within dentry 64 address → ¬ Within currDirectory 64 address → after address = memory address) ∧
    (∀ place ∈ (readDentryByIndex fuel bootBlock currDirectory index dentry memory).log,
      Allowed bootBlock currDirectory index dentry place) ∧
    ∀ address, Within (direntries bootBlock index) 64 address → Within bootBlock 4096 address := by
  obtain ⟨stop, terminated⟩ := Option.isSome_iff_exists.mp (Dentry.strlen_isSome_of_filetype_lt type)
  have place := direntry_mounted memory bootBlock index
  have short := (firstNul_eq_some.mp terminated).1
  have early := Dentry.strlen_le_of_filetype_lt type terminated
  obtain ⟨places, answer⟩ := readDentryByIndex_ensures separate accepted (place ▸ terminated)
    (Nat.lt_of_le_of_lt early enough)
  refine ⟨⟨_, answer, ?_, fun address argument own => assigned_outside short argument own⟩, places, ?_⟩
  · exact sameEntry_found (readDentryByIndex_mounted separate accepted (place ▸ terminated))
  · intro address inEntry
    unfold Within direntries at inEntry
    exact ⟨by omega, by omega⟩

/-- An image with a name of 32 letters. -/
def fullName : Memory := fun address =>
  (Image.layOut 1 1 [Image.entryBytes (List.replicate 32 97) 2 0] [[]] []).byte (address - 0x1000)

theorem unterminated_names_are_copied_sample :
    ∃ after, (readDentryByIndex 34 0x1000 0x200 0 0x100 fullName).value = some (0, after) ∧
      SameEntry (dentryAt after 0x100) ((mounted fullName 0x1000).direntry 0) ∧
      ∀ address, ¬ Within 0x100 64 address → ¬ Within 0x200 64 address → after address = fullName address :=
  (unterminated_names_are_copied fullName 0x1000 0x200 0 0x100 34 ⟨Or.inl (by decide), Or.inl (by decide)⟩
    (by decide +kernel) (by decide) (by decide +kernel) (Nat.le_refl _)).1

end LinuxLikeOS.DentryCopy
