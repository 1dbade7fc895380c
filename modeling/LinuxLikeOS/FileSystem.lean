import LinuxLikeOS.Bytes
import Mathlib.Data.List.GetD

/-!
# The file-system image (`file_sys.c`)

The image is the bytes of the boot module, addressed from `boot_block_ptr`: the boot block
with its 64-byte directory entries, then `inode_count` inode blocks, then the data blocks.
Offsets are not reduced modulo 2^32.

A directory entry is copied with `strcpy`, which stops at the first NUL of the 64-byte
structure and not at the end of the 32-byte name. An entry without any NUL makes it leave
the structure; what the stack holds there is not modelled and the answer is `overrun`.
-/

namespace LinuxLikeOS

/-- `dentry_t`. -/
structure Dentry where
  filename : Fin 32 → UInt8
  filetype : Nat
  inodeNum : Nat
  reserved : Fin 24 → UInt8

namespace Dentry

/-- The structure as it lies in memory. -/
def byte (dentry : Dentry) : Memory := fun index =>
  if inName : index < 32 then dentry.filename ⟨index, inName⟩
  else if index < 36 then byteOf dentry.filetype (index - 32)
  else if index < 40 then byteOf dentry.inodeNum (index - 36)
  else if inReserved : index - 40 < 24 then dentry.reserved ⟨index - 40, inReserved⟩
  else 0

/-- `strlen(filename)`: the count runs on through the structure. -/
def strlen (dentry : Dentry) : Option Nat := firstNul dentry.byte 64

/-- The loop that stops at the first NUL or after `MAX_NAME_LENGTH` bytes. -/
def nameLength (dentry : Dentry) : Nat := (firstNul dentry.byte 32).getD 32

/-- The name proper, without padding. -/
def name (dentry : Dentry) : List UInt8 := (List.range dentry.nameLength).map dentry.byte

@[simp] theorem length_name (dentry : Dentry) : dentry.name.length = dentry.nameLength := by
  simp [name]

theorem nameLength_le (dentry : Dentry) : dentry.nameLength ≤ 32 := by
  unfold nameLength
  cases found : firstNul dentry.byte 32 with
  | none => exact Nat.le_refl 32
  | some index => exact Nat.le_of_lt (firstNul_eq_some.mp found).1

theorem byte_ne_zero_of_lt_nameLength {dentry : Dentry} {index : Nat}
    (inside : index < dentry.nameLength) : dentry.byte index ≠ 0 := by
  unfold nameLength at inside
  cases found : firstNul dentry.byte 32 with
  | none =>
      rw [found] at inside
      exact firstNul_eq_none.mp found index inside
  | some stop =>
      rw [found] at inside
      exact (firstNul_eq_some.mp found).2.2 index inside

/-- The name ends where `strlen` does, unless that is past the 32 bytes of the name. -/
theorem nameLength_of_strlen {dentry : Dentry} {length : Nat} (found : dentry.strlen = some length) :
    dentry.nameLength = min length 32 := by
  obtain ⟨_, nul, before⟩ := firstNul_eq_some.mp found
  unfold nameLength
  by_cases short : length < 32
  · have inName : firstNul dentry.byte 32 = some length := firstNul_eq_some.mpr ⟨short, nul, before⟩
    rw [inName, Option.getD_some]
    omega
  · have full : firstNul dentry.byte 32 = none := by
      refine firstNul_eq_none.mpr fun index less => before index ?_
      omega
    rw [full, Option.getD_none]
    omega

/-- An entry whose file type is a single byte holds a NUL right after it. -/
theorem byte_filetype_high {dentry : Dentry} (small : dentry.filetype < 2 ^ 8) : dentry.byte 33 = 0 := by
  have place : dentry.byte 33 = byteOf dentry.filetype 1 := rfl
  have high : dentry.filetype / 2 ^ (8 * 1) = 0 := Nat.div_eq_of_lt small
  rw [place, byteOf, high]
  rfl

theorem strlen_isSome_of_filetype_lt {dentry : Dentry} (small : dentry.filetype < 2 ^ 8) :
    dentry.strlen.isSome := by
  cases found : dentry.strlen with
  | some length => rfl
  | none => exact absurd (byte_filetype_high small) (firstNul_eq_none.mp found 33 (by decide))

theorem strlen_le_of_filetype_lt {dentry : Dentry} (small : dentry.filetype < 2 ^ 8) {length : Nat}
    (found : dentry.strlen = some length) : length ≤ 33 := by
  obtain ⟨-, -, before⟩ := firstNul_eq_some.mp found
  by_contra past
  exact before 33 (Nat.lt_of_not_le past) (byte_filetype_high small)

end Dentry

/-- What a directory lookup leaves behind: a return value of -1, a copy that ran off the
entry, or 0 with the structure filled in. -/
inductive Lookup where
  | failed
  | overrun
  | found (dentry : Dentry)

structure Image where
  byte : Memory

namespace Image

variable (image : Image)

def dirCount : Nat := word32 image.byte 0
def inodeCount : Nat := word32 image.byte 4

/-- `boot_block_ptr->direntries[index]`. -/
def direntry (index : Nat) : Dentry where
  filename := fun j => image.byte (64 + 64 * index + j)
  filetype := word32 image.byte (64 + 64 * index + 32)
  inodeNum := word32 image.byte (64 + 64 * index + 36)
  reserved := fun j => image.byte (64 + 64 * index + 40 + j)

/-- `(inode_ptr + inode)->length`. -/
def length (inode : Nat) : Nat := word32 image.byte (4096 * (inode + 1))

/-- `(inode_ptr + inode)->data_block_num[block]`. -/
def dataBlockNum (inode block : Nat) : Nat := word32 image.byte (4096 * (inode + 1) + 4 + 4 * block)

/-- `dblock_ptr[block].data[index]`. -/
def dataByte (block index : Nat) : UInt8 := image.byte (4096 * (image.inodeCount + 1 + block) + index)

/-! ## Directory entries -/

/-- `strcpy(dentry->filename, entry.filename)`: the bytes up to and with the NUL are copied.
Bytes past the name are overwritten by the assignments that follow it. -/
def strcpyFilename (dentry entry : Dentry) : Option (Fin 32 → UInt8) :=
  entry.strlen.map fun stop => fun j => if j.val ≤ stop then entry.filename j else dentry.filename j

def readDentryByIndex (index : Nat) (dentry : Dentry) : Lookup :=
  if index ≥ image.inodeCount then .failed
  else
    let entry := image.direntry index
    match strcpyFilename dentry entry with
    | none => .overrun
    | some filename => .found ⟨filename, entry.filetype, entry.inodeNum, entry.reserved⟩

/-- `file_name_length`, after the newline at the end has been left out. For the empty string
the byte tested is the one in front of it, and the unsigned count wraps. -/
def fileNameLength (fname : CString) : Nat :=
  let count := fname.chars.length
  let last := if count = 0 then fname.before else fname.at (count - 1)
  if last = 10 then (if count = 0 then 2 ^ 32 - 1 else count - 1) else count

/-- The two tests of the search loop. -/
def nameMatches (fname : CString) (length index : Nat) : Bool :=
  length == (image.direntry index).nameLength &&
    strncmp fname.at (image.direntry index).byte length == 0

def readDentryByName (fname : CString) (dentry : Dentry) : Lookup :=
  let length := fileNameLength fname
  if length > 32 then .failed
  else
    match (List.range image.dirCount).find? (image.nameMatches fname length) with
    | none => .failed
    | some index => image.readDentryByIndex index dentry

theorem readDentryByIndex_of_le {index : Nat} (dentry : Dentry) (past : image.inodeCount ≤ index) :
    image.readDentryByIndex index dentry = .failed :=
  if_pos past

theorem readDentryByIndex_overrun {index : Nat} (dentry : Dentry) (inside : index < image.inodeCount)
    (unterminated : (image.direntry index).strlen = none) :
    image.readDentryByIndex index dentry = .overrun := by
  simp only [readDentryByIndex, strcpyFilename, if_neg (Nat.not_le_of_lt inside), unterminated,
    Option.map_none]

/-- A copied entry agrees with the one on disk up to the end of its string, and in the
fields that are assigned. -/
theorem readDentryByIndex_found {index stop : Nat} (dentry : Dentry) (inside : index < image.inodeCount)
    (terminated : (image.direntry index).strlen = some stop) :
    ∃ copied, image.readDentryByIndex index dentry = .found copied ∧
      copied.filetype = (image.direntry index).filetype ∧
      copied.inodeNum = (image.direntry index).inodeNum ∧
      copied.strlen = some stop ∧
      ∀ j ≤ stop, copied.byte j = (image.direntry index).byte j := by
  refine ⟨⟨fun j => if j.val ≤ stop then (image.direntry index).filename j else dentry.filename j,
    (image.direntry index).filetype, (image.direntry index).inodeNum,
    (image.direntry index).reserved⟩, ?_, rfl, rfl, ?_⟩
  · simp only [readDentryByIndex, strcpyFilename, if_neg (Nat.not_le_of_lt inside), terminated,
      Option.map_some]
  · have agree : ∀ j ≤ stop, Dentry.byte ⟨fun j =>
        if j.val ≤ stop then (image.direntry index).filename j else dentry.filename j,
        (image.direntry index).filetype, (image.direntry index).inodeNum,
        (image.direntry index).reserved⟩ j = (image.direntry index).byte j := by
      intro j before
      unfold Dentry.byte
      simp only [before, if_true]
    exact ⟨firstNul_congr terminated agree, agree⟩

/-- Every answer of the lookup by index. -/
theorem readDentryByIndex_cases (index : Nat) (dentry : Dentry) :
    (image.inodeCount ≤ index ∧ image.readDentryByIndex index dentry = .failed) ∨
    (index < image.inodeCount ∧ (image.direntry index).strlen = none ∧
      image.readDentryByIndex index dentry = .overrun) ∨
    (∃ stop copied, index < image.inodeCount ∧ (image.direntry index).strlen = some stop ∧
      image.readDentryByIndex index dentry = .found copied ∧ copied.strlen = some stop ∧
      ∀ j ≤ stop, copied.byte j = (image.direntry index).byte j) := by
  rcases Nat.lt_or_ge index image.inodeCount with inside | past
  · cases terminated : (image.direntry index).strlen with
    | none => exact Or.inr (Or.inl ⟨inside, rfl, image.readDentryByIndex_overrun dentry inside terminated⟩)
    | some stop =>
        obtain ⟨copied, found, _, _, length, agree⟩ :=
          image.readDentryByIndex_found dentry inside terminated
        exact Or.inr (Or.inr ⟨stop, copied, inside, rfl, found, length, agree⟩)
  · exact Or.inl ⟨past, image.readDentryByIndex_of_le dentry past⟩

/-! ## Lookup by name -/

/-- The name asked for: the string without one newline at its end. -/
def stem (fname : CString) : List UInt8 :=
  if fname.chars.getLast? = some 10 then fname.chars.dropLast else fname.chars

/-- Index of the first entry of the directory with the name asked for. -/
def entryNamed (fname : CString) : Option Nat :=
  (List.range image.dirCount).find? fun index => (image.direntry index).name == stem fname

/-- A directory that lists names only: what the file systems built for this kernel hold. -/
structure WellFormedDirectory : Prop where
  counts : image.dirCount ≤ image.inodeCount
  named : ∀ index < image.dirCount, 0 < (image.direntry index).nameLength
  typed : ∀ index < image.dirCount, (image.direntry index).filetype ≤ 2

theorem at_of_lt_stem {fname : CString} {index : Nat} (inside : index < (stem fname).length) :
    (stem fname)[index] = fname.at index := by
  unfold stem at inside ⊢
  split at inside
  · rename_i newline
    simp only [newline, if_true, List.getElem_dropLast, CString.at]
    rw [List.getD_eq_getElem]
  · rename_i newline
    simp only [newline, if_false, CString.at]
    rw [List.getD_eq_getElem]

theorem fileNameLength_of_ne_nil {fname : CString} (nonempty : fname.chars ≠ []) :
    fileNameLength fname = (stem fname).length := by
  have positive : fname.chars.length ≠ 0 := fun zero => nonempty (List.eq_nil_of_length_eq_zero zero)
  have last : fname.at (fname.chars.length - 1) = 10 ↔ fname.chars.getLast? = some 10 := by
    rw [List.getLast?_eq_getElem?, CString.at, List.getD_eq_getElem _ _ (by omega),
      List.getElem?_eq_getElem (by omega), Option.some.injEq]
  simp only [fileNameLength, stem, positive, if_false, last]
  split <;> simp

/-- The two tests of the loop decide equality of names. -/
theorem nameMatches_eq {fname : CString} {length index : Nat} (exact : length = (stem fname).length) :
    image.nameMatches fname length index = ((image.direntry index).name == stem fname) := by
  subst exact
  rw [Bool.eq_iff_iff]
  simp only [nameMatches, Bool.and_eq_true, beq_iff_eq]
  constructor
  · rintro ⟨lengths, same⟩
    rw [strncmp_eq_zero fun i less => Dentry.byte_ne_zero_of_lt_nameLength (by omega)] at same
    refine List.ext_getElem (by simpa using lengths.symm) fun i left right => ?_
    rw [at_of_lt_stem right, same i right]
    simp [Dentry.name]
  · intro same
    have lengths : (stem fname).length = (image.direntry index).nameLength := by
      rw [← same, Dentry.length_name]
    refine ⟨lengths, (strncmp_eq_zero fun i less => ?_).mpr fun i less => ?_⟩
    · exact Dentry.byte_ne_zero_of_lt_nameLength (by omega)
    · rw [← at_of_lt_stem less]
      simp only [← same]
      simp [Dentry.name]

theorem entryNamed_lt {fname : CString} {index : Nat} (found : image.entryNamed fname = some index) :
    index < image.dirCount := by
  unfold entryNamed at found
  exact List.mem_range.mp (List.mem_of_find?_eq_some found)

/-- For a string that is not empty the search finds the first entry of its name. -/
theorem readDentryByName_of_ne_nil {fname : CString} (nonempty : fname.chars ≠ []) (dentry : Dentry) :
    image.readDentryByName fname dentry =
      match image.entryNamed fname with
      | none => .failed
      | some index => image.readDentryByIndex index dentry := by
  have length := fileNameLength_of_ne_nil nonempty
  have tests : image.nameMatches fname (stem fname).length =
      fun index => (image.direntry index).name == stem fname :=
    funext fun index => image.nameMatches_eq rfl
  unfold readDentryByName
  simp only [length, tests]
  by_cases long : (stem fname).length > 32
  · have absent : image.entryNamed fname = none := by
      refine List.find?_eq_none.mpr fun index _ => ?_
      simp only [beq_iff_eq]
      intro same
      have bound := (image.direntry index).nameLength_le
      rw [← Dentry.length_name, same] at bound
      omega
    rw [if_pos long, absent]
  · rw [if_neg long]
    rfl

/-- On a directory of non-empty names the search finds the first entry of that name. -/
theorem readDentryByName_eq (named : ∀ index < image.dirCount, 0 < (image.direntry index).nameLength)
    (fname : CString) (dentry : Dentry) :
    image.readDentryByName fname dentry =
      match image.entryNamed fname with
      | none => .failed
      | some index => image.readDentryByIndex index dentry := by
  by_cases empty : fname.chars = []
  · have stemNil : stem fname = [] := by simp [stem, empty]
    have absent : image.entryNamed fname = none := by
      refine List.find?_eq_none.mpr fun index inside => ?_
      have positive := named index (List.mem_range.mp inside)
      simp only [stemNil, beq_iff_eq]
      intro same
      rw [← Dentry.length_name, same] at positive
      exact absurd positive (by decide)
    rw [absent]
    by_cases newline : fname.before = 10
    · simp [readDentryByName, fileNameLength, empty, newline]
    · have length : fileNameLength fname = 0 := by simp [fileNameLength, empty, newline]
      have same : (List.range image.dirCount).find? (image.nameMatches fname 0) = none := by
        refine List.find?_eq_none.mpr fun index inside => ?_
        have positive := named index (List.mem_range.mp inside)
        simp [nameMatches]
        omega
      simp [readDentryByName, length, same]
  · exact image.readDentryByName_of_ne_nil empty dentry

/-- The lookup in a well-formed directory: no such name, or the entry's type and inode. -/
theorem readDentryByName_cases (wellFormed : image.WellFormedDirectory) (fname : CString)
    (dentry : Dentry) :
    (image.entryNamed fname = none ∧ image.readDentryByName fname dentry = .failed) ∨
    ∃ index copied, image.entryNamed fname = some index ∧
      image.readDentryByName fname dentry = .found copied ∧
      copied.filetype = (image.direntry index).filetype ∧
      copied.inodeNum = (image.direntry index).inodeNum ∧ copied.filetype ≤ 2 := by
  rw [image.readDentryByName_eq wellFormed.named]
  cases found : image.entryNamed fname with
  | none => exact Or.inl ⟨rfl, rfl⟩
  | some index =>
      have inside := image.entryNamed_lt found
      have typed := wellFormed.typed index inside
      have small : (image.direntry index).filetype < 2 ^ 8 := by omega
      obtain ⟨stop, terminated⟩ := Option.isSome_iff_exists.mp (Dentry.strlen_isSome_of_filetype_lt small)
      obtain ⟨copied, read, sameType, sameInode, _⟩ :=
        image.readDentryByIndex_found dentry (Nat.lt_of_lt_of_le inside wellFormed.counts) terminated
      exact Or.inr ⟨index, copied, rfl, read, sameType, sameInode, sameType ▸ typed⟩

/-! ## File data -/

/-- The copy loop of `read_data`, entered at a byte of a block with `n` bytes to go. -/
def readLoop (inode blockNum byteIndex : Nat) : Nat → List UInt8
  | 0 => []
  | n + 1 =>
      image.dataByte (image.dataBlockNum inode blockNum) byteIndex ::
        if byteIndex + 1 ≥ 4096 then readLoop inode (blockNum + 1) 0 n
        else readLoop inode blockNum (byteIndex + 1) n

/-- The bytes `read_data` puts into the buffer; their number is what it returns. -/
def readData (inode offset len : Nat) : List UInt8 :=
  if inode ≥ image.inodeCount ∨ offset ≥ image.length inode then []
  else
    let len := if len > image.length inode then image.length inode else len
    let len := if (offset + len) % 2 ^ 32 > image.length inode then image.length inode - offset else len
    image.readLoop inode (offset / 4096) (offset % 4096) len

/-- Byte `k` of a file: byte `k mod 4096` of its block number `k div 4096`. -/
def fileByte (inode k : Nat) : UInt8 := image.dataByte (image.dataBlockNum inode (k / 4096)) (k % 4096)

/-- The file as a whole. -/
def file (inode : Nat) : List UInt8 := (List.range (image.length inode)).map (image.fileByte inode)

@[simp] theorem length_file (inode : Nat) : (image.file inode).length = image.length inode := by
  simp [file]

theorem length_readLoop (inode blockNum byteIndex n : Nat) :
    (image.readLoop inode blockNum byteIndex n).length = n := by
  induction n generalizing blockNum byteIndex with
  | zero => rfl
  | succ n ih =>
      unfold readLoop
      split <;> rw [List.length_cons, ih]

/-- The walk over block numbers and bytes is the walk over file offsets. -/
theorem readLoop_eq (inode offset n : Nat) :
    image.readLoop inode (offset / 4096) (offset % 4096) n =
      (List.range' offset n).map (image.fileByte inode) := by
  induction n generalizing offset with
  | zero => rfl
  | succ n ih =>
      have advanced : (if offset % 4096 + 1 ≥ 4096 then image.readLoop inode (offset / 4096 + 1) 0 n
          else image.readLoop inode (offset / 4096) (offset % 4096 + 1) n) =
          image.readLoop inode ((offset + 1) / 4096) ((offset + 1) % 4096) n := by
        split
        · rw [show (offset + 1) / 4096 = offset / 4096 + 1 by omega,
            show (offset + 1) % 4096 = 0 by omega]
        · rw [show (offset + 1) / 4096 = offset / 4096 by omega,
            show (offset + 1) % 4096 = offset % 4096 + 1 by omega]
      rw [readLoop, advanced, ih, List.range'_succ, List.map_cons]
      rfl

theorem length_readData_le (inode offset len : Nat) : (image.readData inode offset len).length ≤ len := by
  unfold readData
  split
  · exact Nat.zero_le len
  · simp only [length_readLoop]
    split <;> split <;> omega

/-- A file of a length that the index block can hold is read without wrap-around: the
bytes from the offset on, as many as asked for and left. -/
theorem readData_eq {inode : Nat} (present : inode < image.inodeCount)
    (fits : image.length inode ≤ 1023 * 4096) (offset len : Nat) :
    image.readData inode offset len = ((image.file inode).drop offset).take len := by
  unfold readData
  by_cases atEnd : offset ≥ image.length inode
  · have nothingLeft : (image.file inode).drop offset = [] := by simp [atEnd]
    rw [if_pos (Or.inr atEnd), nothingLeft, List.take_nil]
  · rw [if_neg (by omega)]
    have bytes : ∀ n, n ≤ image.length inode - offset →
        image.readLoop inode (offset / 4096) (offset % 4096) n =
            ((image.file inode).drop offset).take n := by
      intro n bounded
      rw [readLoop_eq]
      refine List.ext_getElem (by simp; omega) fun i left right => ?_
      simp [file]
    have whole : ((image.file inode).drop offset).take (image.length inode - offset) =
        (image.file inode).drop offset := List.take_of_length_le (by simp)
    have clamp : ∀ n, image.length inode - offset ≤ n →
        ((image.file inode).drop offset).take n = (image.file inode).drop offset :=
      fun n more => List.take_of_length_le (by simpa using more)
    simp only []
    split
    · split
      · rw [bytes _ (Nat.le_refl _), whole, clamp _ (by omega)]
      · rw [bytes _ (by omega), clamp _ (by omega), clamp _ (by omega)]
    · split
      · rw [bytes _ (Nat.le_refl _), whole, clamp _ (by omega)]
      · exact bytes _ (by omega)

/-! ## Laying out an image -/

/-- The 64 bytes of a directory entry. -/
def entryBytes (filename : List UInt8) (filetype inodeNum : UInt8) : List UInt8 :=
  filename ++ List.replicate (32 - filename.length) 0 ++ [filetype, 0, 0, 0, inodeNum, 0, 0, 0] ++
    List.replicate 24 0

/-- An image from its counts, entries, inode blocks and data blocks. -/
def layOut (dirCount inodeCount : UInt8) (entries inodes blocks : List (List UInt8)) : Image where
  byte := fun offset =>
    let boot := [dirCount, 0, 0, 0, inodeCount, 0, 0, 0, UInt8.ofNat blocks.length, 0, 0, 0] ++
      List.replicate 52 0 ++ entries.flatten
    let block := offset / 4096
    let content :=
      if block = 0 then boot
      else if block ≤ inodeCount.toNat then inodes.getD (block - 1) []
      else blocks.getD (block - 1 - inodeCount.toNat) []
    content.getD (offset % 4096) 0

def dot : CString := ⟨0, ascii ['.'], by decide⟩
def shell : CString := ⟨0, ascii ['s', 'h', 'e', 'l', 'l'], by decide⟩
def rtc : CString := ⟨0, ascii ['r', 't', 'c'], by decide⟩
def frame0 : CString := ⟨0, ascii ['f', 'r', 'a', 'm', 'e', '0'], by decide⟩

/-- The directory itself, an executable, the RTC and a text file. -/
def sample : Image :=
  layOut 4 4
    [entryBytes dot.chars 1 0, entryBytes shell.chars 2 1, entryBytes rtc.chars 0 0, entryBytes frame0.chars 2 2]
    [[], [32, 0, 0, 0, 0, 0, 0, 0], [5, 0, 0, 0, 1, 0, 0, 0], []]
    [[0x7F, 0x45, 0x4C, 0x46] ++ List.replicate 20 0 ++ [0x74, 0x80, 0x04, 0x08, 0, 0, 0, 0],
      ascii ['h', 'e', 'l', 'l', 'o']]

theorem sample_wellFormed : sample.WellFormedDirectory where
  counts := by decide +kernel
  named := by decide +kernel
  typed := by decide +kernel

end Image

end LinuxLikeOS
