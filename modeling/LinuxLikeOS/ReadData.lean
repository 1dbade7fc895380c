import LinuxLikeOS.Checked
import LinuxLikeOS.FileSystem

/-!
# `read_data` over addresses

`fileSystem_init` computes where inodes and data blocks begin, and `read_data` walks from there.
Here both compute addresses in the memory that the image lies in, with every addition and
subtraction checked, and are compared with the file the image holds.
-/

namespace LinuxLikeOS

namespace ReadData

open Checked

/-- `boot_block_ptr`, `inode_ptr` and `dblock_ptr`. -/
structure Pointers where
  bootBlock : Nat
  inode : Nat
  dblock : Nat

/-- The assignments to the pointers in `fileSystem_init`. -/
def fileSystemInit (memory : Memory) (fsStart : Nat) : Checked Pointers := do
  let inodePtr ← index fsStart 4096 1
  let inodeCount ← plus fsStart 4
  let dblockPtr ← index inodePtr 4096 (word32 memory inodeCount)
  pure ⟨fsStart, inodePtr, dblockPtr⟩

/-- The variables of the loop in `read_data`, and what has been stored in `buf`. -/
structure Loop where
  i : Nat
  numBytesReadTotal : Nat
  currDataBlockNum : Nat
  currByteIndex : Nat
  buf : Writes

section

variable (memory : Memory) (pointers : Pointers)

/-- One round of the loop. -/
def round (currInode : Nat) (state : Loop) : Checked Loop := do
  let dataBlockNum ← plus currInode 4
  let entry ← index dataBlockNum 4 state.currDataBlockNum
  let currDataBlock ← index pointers.dblock 4096 (word32 memory entry)
  let byte ← plus currDataBlock state.currByteIndex
  let currByteIndex ← plus state.currByteIndex 1
  let currDataBlockNum ←
    if currByteIndex ≥ 4096 then plus state.currDataBlockNum 1 else pure state.currDataBlockNum
  let numBytesReadTotal ← plus state.numBytesReadTotal 1
  let i ← plus state.i 1
  pure ⟨i, numBytesReadTotal, currDataBlockNum, if currByteIndex ≥ 4096 then 0 else currByteIndex,
    state.buf.andThen (.put state.i (memory byte))⟩

/-- The loop, with `len - i` rounds to go. -/
def loop (currInode : Nat) : Nat → Loop → Checked Loop
  | 0, state => pure state
  | n + 1, state => round memory pointers currInode state >>= loop currInode n

/-- The two adjustments of `len`. -/
def adjusted (length offset len : Nat) : Checked Nat := do
  let len := if len > length then length else len
  let sum ← plus offset len
  if sum > length then minus length offset else pure len

/-- `read_data`: the return value and the bytes stored in `buf`. -/
def readData (inode offset len : Nat) : Checked (Nat × Writes) := do
  let currInode ← index pointers.inode 4096 inode
  let inodeCount ← plus pointers.bootBlock 4
  if inode ≥ word32 memory inodeCount then pure (0, .nothing)
  else if offset ≥ word32 memory currInode then pure (0, .nothing)
  else
    let len ← adjusted (word32 memory currInode) offset len
    let last ← loop memory pointers currInode len ⟨0, 0, offset / 4096, offset % 4096, .nothing⟩
    pure (last.numBytesReadTotal, last.buf)

/-- `read_data` after `fileSystem_init`. -/
def mountAndRead (fsStart : Nat) (inode offset len : UInt32) : Checked (Nat × Writes) := do
  let pointers ← fileSystemInit memory fsStart
  readData memory pointers inode.toNat offset.toNat len.toNat

end

/-! ## Images in memory -/

/-- The image at an address. -/
def mounted (memory : Memory) (fsStart : Nat) : Image := ⟨fun offset => memory (fsStart + offset)⟩

def dataCount (image : Image) : Nat := word32 image.byte 8

/-- The image lies in memory, files are no longer than an inode can hold, and their blocks are
data blocks of the image. -/
structure WellFormed (memory : Memory) (fsStart : Nat) : Prop where
  inMemory : fsStart +
    4096 * (1 + (mounted memory fsStart).inodeCount + dataCount (mounted memory fsStart)) ≤ 2 ^ 32
  lengths : ∀ inode < (mounted memory fsStart).inodeCount, (mounted memory fsStart).length inode ≤ 1023 * 4096
  blocks : ∀ inode < (mounted memory fsStart).inodeCount, ∀ block,
    4096 * block < (mounted memory fsStart).length inode →
      (mounted memory fsStart).dataBlockNum inode block < dataCount (mounted memory fsStart)

/-- The pointers to the parts of an image. -/
def parts (memory : Memory) (fsStart : Nat) : Pointers :=
  ⟨fsStart, fsStart + 4096 * 1, fsStart + 4096 * 1 + 4096 * (mounted memory fsStart).inodeCount⟩

section

variable {memory : Memory} {fsStart : Nat}

theorem inodeCount_mounted (memory : Memory) (fsStart : Nat) :
    (mounted memory fsStart).inodeCount = word32 memory (fsStart + 4) := rfl

theorem length_mounted (memory : Memory) (fsStart inode : Nat) :
    (mounted memory fsStart).length inode = word32 memory (fsStart + 4096 * 1 + 4096 * inode) := by
  have place : fsStart + 4096 * 1 + 4096 * inode = fsStart + 4096 * (inode + 1) := by omega
  rw [place]
  rfl

theorem dataBlockNum_mounted (memory : Memory) (fsStart inode block : Nat) :
    (mounted memory fsStart).dataBlockNum inode block =
      word32 memory (fsStart + 4096 * 1 + 4096 * inode + 4 + 4 * block) := by
  have place : fsStart + 4096 * 1 + 4096 * inode + 4 + 4 * block =
      fsStart + (4096 * (inode + 1) + 4 + 4 * block) := by omega
  rw [place]
  rfl

theorem dataByte_mounted (memory : Memory) (fsStart block i : Nat) :
    (mounted memory fsStart).dataByte block i =
      memory (fsStart + 4096 * 1 + 4096 * (mounted memory fsStart).inodeCount + 4096 * block + i) := by
  have place : fsStart + 4096 * 1 + 4096 * (mounted memory fsStart).inodeCount + 4096 * block + i =
      fsStart + (4096 * ((mounted memory fsStart).inodeCount + 1 + block) + i) := by omega
  rw [place]
  rfl

/-- The pointers of an image with a data block, computed without wrap-around. -/
theorem fileSystemInit_eq (image : WellFormed memory fsStart)
    (blocks : 0 < dataCount (mounted memory fsStart)) :
    fileSystemInit memory fsStart = pure (parts memory fsStart) := by
  have inMemory := image.inMemory
  unfold fileSystemInit
  rw [index_eq (by omega), bind_of_pure, plus_eq (by omega), bind_of_pure, ← inodeCount_mounted,
    index_eq (by omega), bind_of_pure]
  rfl

/-- The loop after `k` bytes of a file from an offset on. -/
def reached (memory : Memory) (fsStart inode offset k : Nat) : Loop :=
  ⟨k, k, (offset + k) / 4096, (offset + k) % 4096,
    .copy (fun i => (mounted memory fsStart).fileByte inode (offset + i)) k⟩

/-- A round within the file stores the next byte. -/
theorem round_eq (image : WellFormed memory fsStart) {inode offset k : Nat}
    (present : inode < (mounted memory fsStart).inodeCount)
    (inside : offset + k < (mounted memory fsStart).length inode) :
    round memory (parts memory fsStart) (fsStart + 4096 * 1 + 4096 * inode)
        (reached memory fsStart inode offset k) =
      pure (reached memory fsStart inode offset (k + 1)) := by
  have inMemory := image.inMemory
  have short := image.lengths inode present
  have block := image.blocks inode present ((offset + k) / 4096) (by omega)
  have number := dataBlockNum_mounted memory fsStart inode ((offset + k) / 4096)
  have byte : memory (fsStart + 4096 * 1 + 4096 * (mounted memory fsStart).inodeCount +
      4096 * (mounted memory fsStart).dataBlockNum inode ((offset + k) / 4096) + (offset + k) % 4096) =
      (mounted memory fsStart).fileByte inode (offset + k) :=
    (dataByte_mounted memory fsStart _ _).symm
  simp only [round, parts, reached]
  rw [plus_eq (by omega), bind_of_pure, index_eq (by omega), bind_of_pure, ← number, index_eq (by omega),
    bind_of_pure, plus_eq (by omega), bind_of_pure, plus_eq (by omega), bind_of_pure, byte, Writes.copy_succ]
  by_cases last : (offset + k) % 4096 + 1 ≥ 4096
  · have blockNum : (offset + k) / 4096 + 1 = (offset + (k + 1)) / 4096 := by omega
    have byteIndex : 0 = (offset + (k + 1)) % 4096 := by omega
    rw [if_pos last, if_pos last, plus_eq (by omega), bind_of_pure, plus_eq (by omega), bind_of_pure,
      bind_of_pure, blockNum, ← byteIndex]
  · have blockNum : (offset + k) / 4096 = (offset + (k + 1)) / 4096 := by omega
    have byteIndex : (offset + k) % 4096 + 1 = (offset + (k + 1)) % 4096 := by omega
    rw [if_neg last, if_neg last, bind_of_pure, plus_eq (by omega), bind_of_pure, bind_of_pure, blockNum,
      byteIndex]

/-- So do the rounds up to the end of the file. -/
theorem loop_eq (image : WellFormed memory fsStart) {inode offset : Nat}
    (present : inode < (mounted memory fsStart).inodeCount) (n k : Nat)
    (inside : offset + k + n ≤ (mounted memory fsStart).length inode) :
    loop memory (parts memory fsStart) (fsStart + 4096 * 1 + 4096 * inode) n
        (reached memory fsStart inode offset k) =
      pure (reached memory fsStart inode offset (k + n)) := by
  induction n generalizing k with
  | zero => rfl
  | succ n ih =>
      have next := ih (k + 1) (by omega)
      have count : k + 1 + n = k + (n + 1) := by omega
      rw [loop, round_eq image present (by omega), bind_of_pure, next, count]

/-- What is asked for and there is left of `len`. -/
theorem adjusted_eq {length offset : Nat} (short : length ≤ 1023 * 4096) (before : offset < length)
    (len : Nat) :
    adjusted length offset len = pure (min len (length - offset)) := by
  have first : (if len > length then length else len) = min len length := by
    split <;> omega
  unfold adjusted
  simp only [first]
  rw [plus_eq (by omega), bind_of_pure]
  by_cases past : offset + min len length > length
  · have rest : length - offset = min len (length - offset) := by omega
    rw [if_pos past, minus_eq (by omega) (by omega), ← rest]
  · have whole : min len length = min len (length - offset) := by omega
    rw [if_neg past, whole]

/-- Before the end of a file, `read_data` reads on without wrap-around. -/
theorem readData_inside (image : WellFormed memory fsStart) {inode offset : Nat}
    (present : inode < (mounted memory fsStart).inodeCount)
    (before : offset < (mounted memory fsStart).length inode) (len : Nat) :
    readData memory (parts memory fsStart) inode offset len =
      pure (min len ((mounted memory fsStart).length inode - offset),
        .copy (fun i => (mounted memory fsStart).fileByte inode (offset + i))
          (min len ((mounted memory fsStart).length inode - offset))) := by
  have inMemory := image.inMemory
  have short := image.lengths inode present
  have start : (⟨0, 0, offset / 4096, offset % 4096, .nothing⟩ : Loop) =
      reached memory fsStart inode offset 0 := by
    rw [reached, Nat.add_zero, Writes.copy_zero]
  have looped : loop memory (parts memory fsStart) (fsStart + 4096 * 1 + 4096 * inode)
      (min len ((mounted memory fsStart).length inode - offset)) (reached memory fsStart inode offset 0) = _ :=
    loop_eq image present _ 0 (by omega)
  have inodePtr : (parts memory fsStart).inode = fsStart + 4096 * 1 := rfl
  have bootBlock : (parts memory fsStart).bootBlock = fsStart := rfl
  unfold readData
  rw [inodePtr, bootBlock, index_eq (by omega), bind_of_pure, plus_eq (by omega), bind_of_pure,
    ← inodeCount_mounted, ← length_mounted, if_neg (Nat.not_le_of_lt present),
    if_neg (Nat.not_le_of_lt before), adjusted_eq short before, bind_of_pure, start, looped, bind_of_pure, Nat.zero_add]
  rfl

/-- What is not in the image, or past the end of a file, is not read. -/
theorem readData_outside (image : WellFormed memory fsStart) {inode offset : Nat}
    (outside : (mounted memory fsStart).inodeCount ≤ inode ∨ (mounted memory fsStart).length inode ≤ offset)
    (len : Nat) :
    (fileSystemInit memory fsStart >>= fun pointers => readData memory pointers inode offset len).value =
      (0, .nothing) := by
  have inMemory := image.inMemory
  have counted : (plus fsStart 4).value = fsStart + 4 := by
    rw [plus_eq (by omega)]
    rfl
  simp only [fileSystemInit, readData, value_bind, value_pure, counted, ← inodeCount_mounted]
  by_cases absent : (mounted memory fsStart).inodeCount ≤ inode
  · rw [if_pos absent]
    rfl
  · have atEnd := outside.resolve_left absent
    have inodePtr : (index fsStart 4096 1).value = fsStart + 4096 * 1 := by
      rw [index_eq (by omega)]
      rfl
    have currInode : (index (fsStart + 4096 * 1) 4096 inode).value = fsStart + 4096 * 1 + 4096 * inode := by
      rw [index_eq (by omega)]
      rfl
    rw [if_neg absent, inodePtr, currInode, ← length_mounted, if_pos atEnd]
    rfl

/-- `read_data` decodes the image: nothing where there is no such byte, else the bytes of the file
from the offset on, as many as asked for and there, with no step that wraps. -/
theorem read_data_decodes (image : WellFormed memory fsStart) (inode offset len : UInt32) :
    ((mounted memory fsStart).inodeCount ≤ inode.toNat ∨
        (mounted memory fsStart).length inode.toNat ≤ offset.toNat →
      (mountAndRead memory fsStart inode offset len).value = (0, .nothing)) ∧
    (inode.toNat < (mounted memory fsStart).inodeCount →
      offset.toNat < (mounted memory fsStart).length inode.toNat →
      (mountAndRead memory fsStart inode offset len).value =
        (min len.toNat ((mounted memory fsStart).length inode.toNat - offset.toNat),
          .copy (fun i => (mounted memory fsStart).fileByte inode.toNat (offset.toNat + i))
            (min len.toNat ((mounted memory fsStart).length inode.toNat - offset.toNat))) ∧
      (mountAndRead memory fsStart inode offset len).wrapped = false) := by
  refine ⟨fun outside => readData_outside image outside len.toNat, fun present before => ?_⟩
  have some := image.blocks inode.toNat present 0 (by omega)
  unfold mountAndRead
  rw [fileSystemInit_eq image (Nat.zero_lt_of_lt some), bind_of_pure, readData_inside image present before]
  exact ⟨rfl, rfl⟩

/-- The bytes are those of the list that the descriptor calls work with. -/
theorem mountAndRead_eq_readData (image : WellFormed memory fsStart) (inode offset len : UInt32) :
    (mountAndRead memory fsStart inode offset len).value =
      (((mounted memory fsStart).readData inode.toNat offset.toNat len.toNat).length,
        .copy (fun i => ((mounted memory fsStart).readData inode.toNat offset.toNat len.toNat).getD i 0)
          ((mounted memory fsStart).readData inode.toNat offset.toNat len.toNat).length) := by
  by_cases outside : (mounted memory fsStart).inodeCount ≤ inode.toNat ∨
      (mounted memory fsStart).length inode.toNat ≤ offset.toNat
  · have none : (mounted memory fsStart).readData inode.toNat offset.toNat len.toNat = [] := if_pos outside
    have answered : (mountAndRead memory fsStart inode offset len).value = (0, .nothing) :=
      readData_outside image outside len.toNat
    rw [answered, none, List.length_nil, Writes.copy_zero]
  · obtain ⟨present, before⟩ := not_or.mp outside
    have inside := Nat.lt_of_not_le present
    have some := image.blocks inode.toNat inside 0 (by omega)
    have list := (mounted memory fsStart).readData_eq inside (image.lengths _ inside) offset.toNat len.toNat
    have count : ((mounted memory fsStart).readData inode.toNat offset.toNat len.toNat).length =
        min len.toNat ((mounted memory fsStart).length inode.toNat - offset.toNat) := by
      rw [list, List.length_take, List.length_drop, Image.length_file]
    unfold mountAndRead
    rw [fileSystemInit_eq image (Nat.zero_lt_of_lt some), bind_of_pure,
      readData_inside image inside (Nat.lt_of_not_le before), count, value_pure]
    refine Prod.ext rfl (Writes.copy_congr fun i less => ?_)
    rw [list, List.getD_eq_getElem _ _ (by simp; omega)]
    simp [Image.file]

end

/-- The sample image at 0x1000. -/
def sampleMemory : Memory := fun address => Image.sample.byte (address - 0x1000)

theorem sample_inMemory : mounted sampleMemory 0x1000 = Image.sample := by
  have same : (fun offset => sampleMemory (0x1000 + offset)) = Image.sample.byte := by
    funext offset
    unfold sampleMemory
    rw [Nat.add_sub_cancel_left]
  exact congrArg Image.mk same

theorem sample_decodable : WellFormed sampleMemory 0x1000 := by
  have counts : Image.sample.inodeCount = 4 ∧ dataCount Image.sample = 2 := by decide +kernel
  have lengths : ∀ inode < 4, Image.sample.length inode ≤ 4096 := by decide +kernel
  have blocks : ∀ inode < 4, Image.sample.dataBlockNum inode 0 < 2 := by decide +kernel
  refine ⟨?_, ?_, ?_⟩
  · rw [sample_inMemory, counts.1, counts.2]
    decide
  · rw [sample_inMemory, counts.1]
    intro inode present
    exact Nat.le_trans (lengths inode present) (by decide)
  · rw [sample_inMemory, counts.1, counts.2]
    intro inode present block inside
    have bound := lengths inode present
    obtain rfl : block = 0 := by omega
    exact blocks inode present

/-- Two bytes from the middle of "hello". -/
theorem read_data_decodes_sample :
    (mountAndRead sampleMemory 0x1000 2 3 9).value =
      (2, .copy (fun i => Image.sample.fileByte 2 (3 + i)) 2) := by
  have decoded := (read_data_decodes sample_decodable 2 3 9).2
  rw [sample_inMemory] at decoded
  have length : Image.sample.length (2 : UInt32).toNat = 5 := by decide +kernel
  rw [length] at decoded
  exact (decoded (by decide +kernel) (by decide)).1

end ReadData

end LinuxLikeOS
