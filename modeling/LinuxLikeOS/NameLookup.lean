import LinuxLikeOS.FileSystem
import LinuxLikeOS.Traced

/-!
# Lookup by name (`read_dentry_by_name`)

The lookup statement by statement, with the offsets from `fname` that it reads. What is to be
found is the first entry whose name is the string without one newline at its end.
-/

namespace LinuxLikeOS

namespace NameLookup

open Image Traced

/-- A byte at an offset from `fname`; -1 is the byte in front of the string. -/
def fetch (fname : CString) (offset : Int) : Traced Int UInt8 := do
  access offset
  pure (if offset < 0 then fname.before else fname.at offset.toNat)

/-- `while(fname[n] != '\0') n++`, with at most `fuel` rounds. -/
def lengthLoop (fname : CString) : Nat → Nat → Traced Int Nat
  | 0, n => pure n
  | fuel + 1, n => do
      let c ← fetch fname n
      if c ≠ 0 then lengthLoop fname fuel (n + 1) else pure n

/-- The loop of `strncmp` with `fname` as its first string. -/
def compareLoop (fname : CString) (s2 : Memory) : Nat → Nat → Traced Int Int
  | _, 0 => pure 0
  | index, n + 1 => do
      let c ← fetch fname index
      if c ≠ s2 index ∨ c = 0 then pure (c.toInt8.toInt - (s2 index).toInt8.toInt)
      else compareLoop fname s2 (index + 1) n

/-- The search loop over these entries. -/
def searchLoop (image : Image) (fname : CString) (length : Nat) : List Nat → Traced Int (Option Nat)
  | [] => pure none
  | i :: rest =>
      if length ≠ (image.direntry i).nameLength then searchLoop image fname length rest
      else do
        let difference ← compareLoop fname (image.direntry i).byte 0 length
        if difference = 0 then pure (some i) else searchLoop image fname length rest

def readDentryByName (image : Image) (fname : CString) (dentry : Dentry) : Traced Int Lookup := do
  let count ← lengthLoop fname (fname.chars.length + 1) 0
  -- an unsigned index; addresses wrap as well, so that index 2^32 - 1 is offset -1
  let last ← fetch fname (count - 1)
  let length := if last = 10 then (if count = 0 then 2 ^ 32 - 1 else count - 1) else count
  if length > 32 then pure .failed
  else do
    let found ← searchLoop image fname length (List.range image.dirCount)
    match found with
    | none => pure .failed
    | some i => pure (image.readDentryByIndex i dentry)

/-- The first entry with this name. -/
def FirstEntry (image : Image) (name : List UInt8) (index : Nat) : Prop :=
  index < image.dirCount ∧ (image.direntry index).name = name ∧
    ∀ lower < index, (image.direntry lower).name ≠ name

/-- The lookup answers for the names of the directory and for nothing else. -/
structure LooksUpExactly (image : Image) (fname : CString) : Prop where
  found_iff : ∀ dentry, (∃ copied, (readDentryByName image fname dentry).value = .found copied) ↔
    1 ≤ (stem fname).length ∧ (stem fname).length ≤ 32 ∧
      ∃ index < image.dirCount, (image.direntry index).name = stem fname
  fills : ∀ dentry copied, (readDentryByName image fname dentry).value = .found copied →
    ∃ index, FirstEntry image (stem fname) index ∧ copied.name = stem fname ∧
      copied.filetype = (image.direntry index).filetype ∧ copied.inodeNum = (image.direntry index).inodeNum
  fails : ∀ dentry, (¬ ∃ copied, (readDentryByName image fname dentry).value = .found copied) →
    (readDentryByName image fname dentry).value = .failed
  inside : ∀ dentry, ∀ offset ∈ (readDentryByName image fname dentry).log, 0 ≤ offset

/-- The condition: the string is not empty; no entry that is copied has an empty name; and the
entry of the name asked for is one of the first `inode_count`, with a NUL in its 64 bytes. -/
def Findable (image : Image) (fname : CString) : Prop :=
  fname.chars ≠ [] ∧ ∀ index, FirstEntry image (stem fname) index →
    if stem fname = [] then image.inodeCount ≤ index
    else index < image.inodeCount ∧ (image.direntry index).strlen ≠ none

section

variable {image : Image} {fname : CString}

theorem ensures_fetch {offset : Int} (inside : 0 ≤ offset) :
    Ensures (0 ≤ ·) (· = fname.at offset.toNat) (fetch fname offset) := by
  refine ensures_access_bind inside (ensures_pure ?_)
  exact if_neg (Int.not_lt.mpr inside)

/-- The loop stops at the NUL. -/
theorem ensures_lengthLoop (fuel n : Nat) (total : n + fuel = fname.chars.length + 1) (started : n ≤ fname.chars.length) :
    Ensures (0 ≤ ·) (· = fname.chars.length) (lengthLoop fname fuel n) := by
  induction fuel generalizing n with
  | zero => omega
  | succ fuel ih =>
      refine (ensures_fetch (Int.natCast_nonneg n)).bind fun c same => ?_
      have byte : c = fname.at n := same
      by_cases inside : n < fname.chars.length
      · have member : c ∈ fname.chars := by
          rw [byte, CString.at, List.getD_eq_getElem _ _ inside]
          exact List.getElem_mem inside
        have notNul : c ≠ 0 := fun nul => fname.noNul (nul ▸ member)
        rw [if_pos notNul]
        exact ih (n + 1) (by omega) inside
      · have nul : c = 0 := by
          rw [byte, CString.at, List.getD_eq_default _ _ (Nat.le_of_not_lt inside)]
        rw [if_neg (not_not.mpr nul)]
        exact ensures_pure (Nat.le_antisymm started (Nat.le_of_not_lt inside))

/-- The comparison is the one of `strncmp`. -/
theorem ensures_compareLoop (s2 : Memory) (index n : Nat) :
    Ensures (0 ≤ ·) (· = strncmpFrom fname.at s2 index n) (compareLoop fname s2 index n) := by
  induction n generalizing index with
  | zero => exact ensures_pure rfl
  | succ n ih =>
      refine (ensures_fetch (Int.natCast_nonneg index)).bind fun c same => ?_
      have byte : c = fname.at index := same
      subst byte
      unfold strncmpFrom
      split
      · exact ensures_pure rfl
      · exact ih (index + 1)

theorem ensures_searchLoop (length : Nat) (entries : List Nat) :
    Ensures (0 ≤ ·) (· = entries.find? (image.nameMatches fname length))
      (searchLoop image fname length entries) := by
  induction entries with
  | nil => exact ensures_pure rfl
  | cons i rest ih =>
      unfold searchLoop
      by_cases lengths : length = (image.direntry i).nameLength
      · rw [if_neg (not_not.mpr lengths)]
        refine (ensures_compareLoop (image.direntry i).byte 0 length).bind fun difference same => ?_
        have compared : difference = strncmp fname.at (image.direntry i).byte length := same
        by_cases equal : difference = 0
        · have hit : image.nameMatches fname length i = true := by
            rw [nameMatches, ← compared, equal, beq_iff_eq.mpr lengths]
            rfl
          rw [if_pos equal, List.find?_cons_of_pos hit]
          exact ensures_pure rfl
        · have miss : ¬ image.nameMatches fname length i = true := by
            simp [nameMatches, ← compared, equal]
          rw [if_neg equal, List.find?_cons_of_neg miss]
          exact ih
      · have miss : ¬ image.nameMatches fname length i = true := by simp [nameMatches, lengths]
        rw [if_pos lengths, List.find?_cons_of_neg miss]
        exact ih

/-- A string that is not empty is only read from its first byte on, and the answer is the one
of `Image.readDentryByName`. -/
theorem ensures_readDentryByName (nonempty : fname.chars ≠ []) (dentry : Dentry) :
    Ensures (0 ≤ ·) (· = image.readDentryByName fname dentry) (readDentryByName image fname dentry) := by
  have positive : fname.chars.length ≠ 0 := fun zero => nonempty (List.eq_nil_of_length_eq_zero zero)
  refine (ensures_lengthLoop _ 0 (by omega) (Nat.zero_le _)).bind fun count counted => ?_
  subst counted
  refine (ensures_fetch (by omega)).bind fun last same => ?_
  have index : ((fname.chars.length : Int) - 1).toNat = fname.chars.length - 1 := by omega
  have byte : last = fname.at (fname.chars.length - 1) := index ▸ same
  subst byte
  have length : fileNameLength fname = (if fname.at (fname.chars.length - 1) = 10 then
      (if fname.chars.length = 0 then 2 ^ 32 - 1 else fname.chars.length - 1)
        else fname.chars.length) := by
    simp only [fileNameLength, if_neg positive]
  dsimp only
  rw [← length]
  unfold Image.readDentryByName
  dsimp only
  by_cases long : fileNameLength fname > 32
  · rw [if_pos long, if_pos long]
    exact ensures_pure rfl
  · rw [if_neg long, if_neg long]
    refine (ensures_searchLoop _ _).bind fun found same => ?_
    subst same
    cases (List.range image.dirCount).find? (image.nameMatches fname (fileNameLength fname)) with
    | none => exact ensures_pure rfl
    | some i => exact ensures_pure rfl

/-- The byte tested for a newline is in front of the empty string. -/
theorem mem_log_of_nil (empty : fname.chars = []) (dentry : Dentry) :
    -1 ∈ (readDentryByName image fname dentry).log := by
  have count : lengthLoop fname (fname.chars.length + 1) 0 = ⟨0, [0]⟩ := by
    simp [lengthLoop, fetch, empty, access, CString.at, Bind.bind, Pure.pure]
  unfold readDentryByName
  rw [count]
  simp [Bind.bind, fetch, access]

theorem entryNamed_eq_some {index : Nat} :
    image.entryNamed fname = some index ↔ FirstEntry image (stem fname) index := by
  unfold entryNamed FirstEntry
  rw [List.find?_range_eq_some]
  simp only [beq_iff_eq, List.mem_range, Bool.not_eq_true', beq_eq_false_iff_ne]
  tauto

theorem entryNamed_eq_none :
    image.entryNamed fname = none ↔ ∀ index < image.dirCount, (image.direntry index).name ≠ stem fname := by
  simp [entryNamed, List.find?_eq_none]

theorem FirstEntry.unique {name : List UInt8} {first second : Nat} (left : FirstEntry image name first)
    (right : FirstEntry image name second) : first = second := by
  rcases Nat.lt_trichotomy first second with below | same | above
  · exact absurd left.2.1 (right.2.2 first below)
  · exact same
  · exact absurd right.2.1 (left.2.2 second above)

/-- Where the string is not empty, the lookup copies the first entry of its name. -/
theorem value_of_firstEntry (nonempty : fname.chars ≠ []) {index : Nat}
    (first : FirstEntry image (stem fname) index) (dentry : Dentry) :
    (readDentryByName image fname dentry).value = image.readDentryByIndex index dentry := by
  have same : (readDentryByName image fname dentry).value = image.readDentryByName fname dentry :=
    (ensures_readDentryByName nonempty dentry).2
  rw [same, image.readDentryByName_of_ne_nil nonempty, entryNamed_eq_some.mpr first]

theorem value_of_absent (nonempty : fname.chars ≠ [])
    (absent : ∀ index < image.dirCount, (image.direntry index).name ≠ stem fname) (dentry : Dentry) :
    (readDentryByName image fname dentry).value = .failed := by
  have same : (readDentryByName image fname dentry).value = image.readDentryByName fname dentry :=
    (ensures_readDentryByName nonempty dentry).2
  rw [same, image.readDentryByName_of_ne_nil nonempty, entryNamed_eq_none.mpr absent]

end

/-- A copy that agrees up to the NUL has the same name. -/
theorem name_eq_of_agree {copied entry : Dentry} {stop : Nat} (found : copied.strlen = some stop)
    (terminated : entry.strlen = some stop) (agree : ∀ j ≤ stop, copied.byte j = entry.byte j) :
    copied.name = entry.name := by
  have lengths : copied.nameLength = entry.nameLength := by
    rw [Dentry.nameLength_of_strlen found, Dentry.nameLength_of_strlen terminated]
  unfold Dentry.name
  rw [lengths]
  refine List.map_congr_left fun j inside => agree j ?_
  have below := List.mem_range.mp inside
  rw [Dentry.nameLength_of_strlen terminated] at below
  omega

/-- An entry with an empty name ends at its first byte. -/
theorem strlen_of_name_nil {entry : Dentry} (empty : entry.name = []) : entry.strlen = some 0 := by
  have zero : entry.nameLength = 0 := by rw [← Dentry.length_name, empty, List.length_nil]
  have nul : entry.byte 0 = 0 := by
    unfold Dentry.nameLength at zero
    cases found : firstNul entry.byte 32 with
    | none => rw [found] at zero; exact absurd zero (by decide)
    | some stop =>
        rw [found, Option.getD_some] at zero
        exact zero ▸ (firstNul_eq_some.mp found).2.1
  exact firstNul_eq_some.mpr ⟨by decide, nul, fun lower below => absurd below (Nat.not_lt_zero lower)⟩

section

variable {image : Image} {fname : CString}

theorem findable_of_looksUpExactly (exact : LooksUpExactly image fname) : Findable image fname := by
  have dentry : Dentry := ⟨fun _ => 0, 0, 0, fun _ => 0⟩
  have nonempty : fname.chars ≠ [] := fun empty =>
    absurd (exact.inside dentry (-1) (mem_log_of_nil empty dentry)) (by decide)
  refine ⟨nonempty, fun index first => ?_⟩
  have value := value_of_firstEntry nonempty first dentry
  by_cases empty : stem fname = []
  · rw [if_pos empty]
    refine Nat.le_of_not_lt fun inside => ?_
    obtain ⟨copied, found, _⟩ := image.readDentryByIndex_found dentry inside
      (strlen_of_name_nil (first.2.1.trans empty))
    have named := ((exact.found_iff dentry).mp ⟨copied, value.trans found⟩).1
    rw [empty] at named
    exact absurd named (by decide)
  · rw [if_neg empty]
    have short : (stem fname).length ≤ 32 := by
      rw [← first.2.1, Dentry.length_name]
      exact Dentry.nameLength_le _
    obtain ⟨copied, found⟩ := (exact.found_iff dentry).mpr
      ⟨List.length_pos_of_ne_nil empty, short, index, first.1, first.2.1⟩
    rw [value] at found
    rcases image.readDentryByIndex_cases index dentry with
      ⟨_, failed⟩ | ⟨_, _, overrun⟩ | ⟨stop, _, inside, terminated, _⟩
    · rw [failed] at found; exact absurd found nofun
    · rw [overrun] at found; exact absurd found nofun
    · exact ⟨inside, fun none => absurd (none.symm.trans terminated) nofun⟩

/-- What the lookup finds under the condition. -/
theorem value_of_findable (findable : Findable image fname) (dentry : Dentry) :
    (∃ index copied, FirstEntry image (stem fname) index ∧ stem fname ≠ [] ∧
      (readDentryByName image fname dentry).value = .found copied ∧ copied.name = stem fname ∧
      copied.filetype = (image.direntry index).filetype ∧
      copied.inodeNum = (image.direntry index).inodeNum) ∨
    ((stem fname = [] ∨ ∀ index < image.dirCount, (image.direntry index).name ≠ stem fname) ∧
      (readDentryByName image fname dentry).value = .failed) := by
  obtain ⟨nonempty, each⟩ := findable
  cases found : image.entryNamed fname with
  | none =>
      have absent := entryNamed_eq_none.mp found
      exact Or.inr ⟨Or.inr absent, value_of_absent nonempty absent dentry⟩
  | some index =>
      have first := entryNamed_eq_some.mp found
      have value := value_of_firstEntry nonempty first dentry
      have condition := each index first
      by_cases empty : stem fname = []
      · rw [if_pos empty] at condition
        exact Or.inr ⟨Or.inl empty, value.trans (image.readDentryByIndex_of_le dentry condition)⟩
      · rw [if_neg empty] at condition
        obtain ⟨inside, terminated⟩ := condition
        obtain ⟨stop, ends⟩ := Option.ne_none_iff_exists'.mp terminated
        obtain ⟨copied, lookup, filetype, inodeNum, length, agree⟩ :=
          image.readDentryByIndex_found dentry inside ends
        exact Or.inl ⟨index, copied, first, empty, value.trans lookup,
          (name_eq_of_agree length ends agree).trans first.2.1, filetype, inodeNum⟩

theorem looksUpExactly_of_findable (findable : Findable image fname) : LooksUpExactly image fname where
  found_iff := by
    intro dentry
    rcases value_of_findable findable dentry with
      ⟨index, copied, first, named, value, _⟩ | ⟨missing, value⟩
    · refine iff_of_true ⟨copied, value⟩ ⟨List.length_pos_of_ne_nil named, ?_, index, first.1, first.2.1⟩
      rw [← first.2.1, Dentry.length_name]
      exact Dentry.nameLength_le _
    · refine iff_of_false (fun found => ?_) fun entry => ?_
      · obtain ⟨copied, found⟩ := found
        exact absurd (value.symm.trans found) nofun
      · obtain ⟨positive, _, index, inside, same⟩ := entry
        rcases missing with empty | absent
        · rw [empty] at positive
          exact absurd positive (by decide)
        · exact absent index inside same
  fills := by
    intro dentry copied found
    rcases value_of_findable findable dentry with
      ⟨index, other, first, _, value, name, filetype, inodeNum⟩ | ⟨_, value⟩
    · rw [value, Lookup.found.injEq] at found
      subst found
      exact ⟨index, first, name, filetype, inodeNum⟩
    · exact absurd (value.symm.trans found) nofun
  fails := by
    intro dentry missing
    rcases value_of_findable findable dentry with ⟨_, copied, _, _, value, _⟩ | ⟨_, value⟩
    · exact absurd ⟨copied, value⟩ missing
    · exact value
  inside := fun dentry => (ensures_readDentryByName findable.1 dentry).1

/-- Exactly under the condition the lookup answers for the names of the directory and for
nothing else. -/
theorem looks_up_exactly_iff (image : Image) (fname : CString) :
    LooksUpExactly image fname ↔ Findable image fname :=
  ⟨findable_of_looksUpExactly, looksUpExactly_of_findable⟩

/-- In an image of zeros with one entry and one inode, a lone newline finds the entry without
a name, and for the empty string the byte in front of it is read. -/
theorem looks_up_nameless_entry :
    let image : Image := ⟨fun offset => if offset = 0 ∨ offset = 4 then 1 else 0⟩
    image.dirCount = 1 ∧ ¬ LooksUpExactly image ⟨0, [10], by decide⟩ ∧
      ¬ LooksUpExactly image ⟨0, [], by decide⟩ := by
  refine ⟨by decide, fun exact => ?_, fun exact => ?_⟩
  · have condition := (findable_of_looksUpExactly exact).2 0 ⟨by decide, by decide, nofun⟩
    exact absurd condition (by decide)
  · exact (findable_of_looksUpExactly exact).1 rfl

end

end NameLookup

end LinuxLikeOS
