import LinuxLikeOS.ReadData

/-!
# `read_data` on corrupt images (`file_sys.c`)

Nothing is assumed of what lies in memory: the counts, the lengths and the block numbers are any
words, and the additions wrap. A round of the loop is watched for the entry of the block list that it
looks at and for the data block it goes to.
-/

namespace LinuxLikeOS.CorruptImages

open Checked ReadData

/-- What one round of the loop goes through: an index into `data_block_num`, and the number there. -/
structure BlockUse where
  index : Nat
  number : Nat

section

variable (memory : Memory) (pointers : Pointers) (inode : Nat)

/-- `inode_ptr + inode`. -/
def currInode : Nat := (index pointers.inode 4096 inode).value

/-- `curr_inode->length`. -/
def fileLength : Nat := word32 memory (currInode pointers inode)

/-- `curr_inode->data_block_num[block]`, an index of any size. -/
def blockNumber (block : Nat) : Nat :=
  word32 memory (index (plus (currInode pointers inode) 4).value 4 block).value

/-- `boot_block_ptr->inode_count`. -/
def bootInodes : Nat := word32 memory (plus pointers.bootBlock 4).value

/-- `boot_block_ptr->data_count`, which the source declares and never reads. -/
def bootData : Nat := word32 memory (plus pointers.bootBlock 8).value

def blockUse (state : Loop) : BlockUse :=
  ⟨state.currDataBlockNum, blockNumber memory pointers inode state.currDataBlockNum⟩

/-- What the rounds of the loop go through. -/
def loopUses : Nat → Loop → List BlockUse
  | 0, _ => []
  | n + 1, state =>
      blockUse memory pointers inode state ::
        loopUses n (round memory pointers (currInode pointers inode) state).value

variable (offset len : Nat)

/-- How many rounds a call makes: none where it returns at once. -/
def rounds : Nat :=
  if inode ≥ bootInodes memory pointers then 0
  else if offset ≥ fileLength memory pointers inode then 0
  else (adjusted (fileLength memory pointers inode) offset len).value

def blockUses : List BlockUse :=
  loopUses memory pointers inode (rounds memory pointers inode offset len)
    ⟨0, 0, offset / 4096, offset % 4096, .nothing⟩

/-- The call keeps to the block list and to the data blocks of the image, and reports no byte past
the end of the file. -/
structure Safe : Prop where
  list : ∀ use ∈ blockUses memory pointers inode offset len, use.index ≤ 1022
  blocks : ∀ use ∈ blockUses memory pointers inode offset len, use.number < bootData memory pointers
  reported : (readData memory pointers inode offset len).value.1 ≤ fileLength memory pointers inode - offset

/-- A byte of the file that the call asks for. -/
def Requested (position : Nat) : Prop :=
  offset ≤ position ∧ position < offset + len ∧ position < fileLength memory pointers inode

/-- The part of the file that is asked for fits in the block list, and the list names data blocks
for it. -/
structure Consistent : Prop where
  fits : ∀ position, Requested memory pointers inode offset len position → position < 1023 * 4096
  named : ∀ position, Requested memory pointers inode offset len position →
    blockNumber memory pointers inode (position / 4096) < bootData memory pointers

end

section

variable {memory : Memory} {pointers : Pointers} {inode offset len : Nat}

/-! ## The loop -/

/-- Where the loop stands before round `k`, with every counter still below `2 ^ 32`. -/
structure Reached (offset k : Nat) (state : Loop) : Prop where
  total : state.numBytesReadTotal = k
  block : state.currDataBlockNum = (offset + k) / 4096
  byte : state.currByteIndex = (offset + k) % 4096

theorem reached_start (offset : Nat) : Reached offset 0 ⟨0, 0, offset / 4096, offset % 4096, .nothing⟩ :=
  ⟨rfl, rfl, rfl⟩

/-- A round goes on to the next byte, wherever in memory it reads it. -/
theorem Reached.round (memory : Memory) (pointers : Pointers) (inode : Nat) {k : Nat} {state : Loop}
    (reached : Reached offset k state) (small : offset < 2 ^ 32) (few : k + 1 < 2 ^ 32) :
    Reached offset (k + 1) (round memory pointers (currInode pointers inode) state).value := by
  obtain ⟨total, block, byte⟩ := reached
  have next : (plus state.currByteIndex 1).value = (offset + k) % 4096 + 1 := by
    rw [byte, plus_eq (by omega)]
    rfl
  have count : (plus state.numBytesReadTotal 1).value = k + 1 := by
    rw [total, plus_eq few]
    rfl
  have more : (plus state.currDataBlockNum 1).value = (offset + k) / 4096 + 1 := by
    rw [block, plus_eq (by omega)]
    rfl
  simp only [ReadData.round, value_bind, next]
  by_cases last : (offset + k) % 4096 + 1 ≥ 4096
  · have blockNum : (offset + k) / 4096 + 1 = (offset + (k + 1)) / 4096 := by omega
    have byteIndex : 0 = (offset + (k + 1)) % 4096 := by omega
    simp only [if_pos last, value_bind, value_pure, count, more]
    exact ⟨rfl, blockNum, byteIndex⟩
  · have blockNum : (offset + k) / 4096 = (offset + (k + 1)) / 4096 := by omega
    have byteIndex : (offset + k) % 4096 + 1 = (offset + (k + 1)) % 4096 := by omega
    simp only [if_neg last, value_bind, value_pure, count, block]
    exact ⟨rfl, blockNum, byteIndex⟩

theorem Reached.loop (memory : Memory) (pointers : Pointers) (inode : Nat) {k n : Nat} {state : Loop}
    (reached : Reached offset k state) (small : offset < 2 ^ 32) (few : k + n < 2 ^ 32) :
    Reached offset (k + n) (loop memory pointers (currInode pointers inode) n state).value := by
  induction n generalizing k state with
  | zero => exact reached
  | succ n ih =>
      have rest := ih (reached.round memory pointers inode small (by omega)) (by omega)
      rwa [Nat.add_right_comm k 1 n] at rest

/-- The loop goes through the block of each byte it reads. -/
theorem mem_loopUses {k n : Nat} {state : Loop} {use : BlockUse} (reached : Reached offset k state)
    (small : offset < 2 ^ 32) (few : k + n < 2 ^ 32) :
    use ∈ loopUses memory pointers inode n state ↔
      ∃ position, offset + k ≤ position ∧ position < offset + k + n ∧
        use = ⟨position / 4096, blockNumber memory pointers inode (position / 4096)⟩ := by
  induction n generalizing k state with
  | zero =>
      refine iff_of_false (fun member => nomatch member) ?_
      rintro ⟨position, low, high, -⟩
      omega
  | succ n ih =>
      have first : blockUse memory pointers inode state =
          ⟨(offset + k) / 4096, blockNumber memory pointers inode ((offset + k) / 4096)⟩ := by
        rw [blockUse, reached.block]
      rw [loopUses, List.mem_cons, first, ih (reached.round memory pointers inode small (by omega)) (by omega)]
      constructor
      · rintro (rfl | ⟨position, low, high, rfl⟩)
        · exact ⟨offset + k, by omega, by omega, rfl⟩
        · exact ⟨position, by omega, by omega, rfl⟩
      · rintro ⟨position, low, high, rfl⟩
        by_cases now : position = offset + k
        · exact Or.inl (by rw [now])
        · exact Or.inr ⟨position, by omega, by omega, rfl⟩

/-! ## The number of rounds -/

/-- Without wrap-around `len` is adjusted to what is left of the file. -/
theorem adjusted_value {length : Nat} (small : length < 2 ^ 32) (before : offset < length)
    (fits : offset + min len length < 2 ^ 32) : (adjusted length offset len).value = min len (length - offset) := by
  have first : (if len > length then length else len) = min len length := by
    split <;> omega
  unfold adjusted
  simp only [first]
  rw [plus_eq fits, bind_of_pure]
  by_cases past : offset + min len length > length
  · rw [if_pos past, minus_eq small (by omega), value_pure]
    omega
  · rw [if_neg past, value_pure]
    omega

/-- Where `offset + len` wraps, the second adjustment is missed. -/
theorem adjusted_wrapped {length : Nat} (small : length < 2 ^ 32) (before : offset < length)
    (wraps : 2 ^ 32 ≤ offset + min len length) : (adjusted length offset len).value = min len length := by
  have first : (if len > length then length else len) = min len length := by
    split <;> omega
  have sum : (plus offset (min len length)).value ≤ length := by
    show (offset + min len length) % 2 ^ 32 ≤ length
    omega
  unfold adjusted
  simp only [first, value_bind]
  rw [if_neg (Nat.not_lt_of_le sum), value_pure]

theorem adjusted_le (length offset len : Nat) (before : offset < length) (small : length < 2 ^ 32) :
    (adjusted length offset len).value ≤ length := by
  by_cases fits : offset + min len length < 2 ^ 32
  · rw [adjusted_value small before fits]
    omega
  · rw [adjusted_wrapped small before (by omega)]
    omega

theorem rounds_inside (present : inode < bootInodes memory pointers)
    (before : offset < fileLength memory pointers inode) :
    rounds memory pointers inode offset len = (adjusted (fileLength memory pointers inode) offset len).value := by
  unfold rounds
  rw [if_neg (Nat.not_le_of_lt present), if_neg (Nat.not_le_of_lt before)]

/-- A call returns its number of rounds. -/
theorem readData_returns (small : offset < 2 ^ 32) :
    (readData memory pointers inode offset len).value.1 = rounds memory pointers inode offset len := by
  simp only [readData, value_bind]
  by_cases absent : inode ≥ bootInodes memory pointers
  · rw [rounds, if_pos absent]
    exact congrArg (fun returned : Checked (Nat × Writes) => returned.value.1) (if_pos absent)
  · by_cases past : offset ≥ fileLength memory pointers inode
    · rw [rounds, if_neg absent, if_pos past]
      refine (congrArg (fun returned : Checked (Nat × Writes) => returned.value.1) (if_neg absent)).trans ?_
      exact congrArg (fun returned : Checked (Nat × Writes) => returned.value.1) (if_pos past)
    · rw [rounds_inside (Nat.lt_of_not_le absent) (Nat.lt_of_not_le past)]
      refine (congrArg (fun returned : Checked (Nat × Writes) => returned.value.1) (if_neg absent)).trans ?_
      refine (congrArg (fun returned : Checked (Nat × Writes) => returned.value.1) (if_neg past)).trans ?_
      have length : fileLength memory pointers inode < 2 ^ 32 := word32_lt memory (currInode pointers inode)
      have bound := adjusted_le (fileLength memory pointers inode) offset len (Nat.lt_of_not_le past) length
      have looped := (reached_start offset).loop memory pointers inode small
        (Nat.lt_of_le_of_lt (Nat.le_trans (Nat.le_of_eq (Nat.zero_add _)) bound) length)
      exact looped.total.trans (Nat.zero_add _)

/-! ## Safety -/

/-- A call that returns at once does no harm. -/
theorem safe_of_outside (small : offset < 2 ^ 32)
    (outside : bootInodes memory pointers ≤ inode ∨ fileLength memory pointers inode ≤ offset) :
    Safe memory pointers inode offset len := by
  have none : rounds memory pointers inode offset len = 0 := by
    unfold rounds
    by_cases absent : inode ≥ bootInodes memory pointers
    · exact if_pos absent
    · rw [if_neg absent, if_pos (outside.resolve_left absent)]
  have unused : blockUses memory pointers inode offset len = [] := by
    rw [blockUses, none, loopUses]
  refine ⟨fun use member => ?_, fun use member => ?_, ?_⟩
  · rw [unused] at member
    cases member
  · rw [unused] at member
    cases member
  · rw [readData_returns small, none]
    exact Nat.zero_le _

/-- Without wrap-around the call goes through the blocks of the bytes that it is asked for and that
the file has. -/
theorem mem_blockUses (present : inode < bootInodes memory pointers)
    (before : offset < fileLength memory pointers inode)
    (fits : offset + min len (fileLength memory pointers inode) < 2 ^ 32) (use : BlockUse) :
    use ∈ blockUses memory pointers inode offset len ↔
      ∃ position, Requested memory pointers inode offset len position ∧
        use = ⟨position / 4096, blockNumber memory pointers inode (position / 4096)⟩ := by
  have length : fileLength memory pointers inode < 2 ^ 32 := word32_lt memory (currInode pointers inode)
  have count : rounds memory pointers inode offset len = _ := rounds_inside present before
  rw [adjusted_value length before fits] at count
  rw [blockUses, mem_loopUses (reached_start offset) (by omega) (by omega), count]
  refine exists_congr fun position => ?_
  rw [← and_assoc]
  refine and_congr_left fun _ => ?_
  unfold Requested
  omega

theorem safe_iff_consistent (present : inode < bootInodes memory pointers)
    (before : offset < fileLength memory pointers inode) :
    Safe memory pointers inode offset len ↔ Consistent memory pointers inode offset len := by
  have length : fileLength memory pointers inode < 2 ^ 32 := word32_lt memory (currInode pointers inode)
  have returned : (readData memory pointers inode offset len).value.1 = _ :=
    readData_returns (Nat.lt_trans before length)
  rw [rounds_inside present before] at returned
  by_cases fits : offset + min len (fileLength memory pointers inode) < 2 ^ 32
  · have uses := mem_blockUses present before fits
    rw [adjusted_value length before fits] at returned
    constructor
    · intro safe
      refine ⟨fun position requested => ?_, fun position requested => ?_⟩
      · have index := safe.list _ ((uses _).mpr ⟨position, requested, rfl⟩)
        simp only at index
        omega
      · exact safe.blocks _ ((uses _).mpr ⟨position, requested, rfl⟩)
    · intro consistent
      refine ⟨fun use member => ?_, fun use member => ?_, ?_⟩
      · obtain ⟨position, requested, rfl⟩ := (uses use).mp member
        have inside := consistent.fits position requested
        show position / 4096 ≤ 1022
        omega
      · obtain ⟨position, requested, rfl⟩ := (uses use).mp member
        exact consistent.named position requested
      · omega
  · -- A file that long does not fit in the block list.
    rw [adjusted_wrapped length before (by omega)] at returned
    refine iff_of_false (fun safe => ?_) fun consistent => ?_
    · have reported := safe.reported
      omega
    · have last := consistent.fits (fileLength memory pointers inode - 1) ⟨by omega, by omega, by omega⟩
      omega

end

/-- Whatever lies in memory: a call is safe exactly when it names no inode of the image, or the part
of the file that it asks for fits in the block list and the list names data blocks of the image for
it. -/
theorem read_data_safe_iff (memory : Memory) (fsStart inode offset len : UInt32) :
    Safe memory (ReadData.fileSystemInit memory fsStart.toNat).value inode.toNat offset.toNat len.toNat ↔
      bootInodes memory (ReadData.fileSystemInit memory fsStart.toNat).value ≤ inode.toNat ∨
        Consistent memory (ReadData.fileSystemInit memory fsStart.toNat).value inode.toNat offset.toNat len.toNat := by
  generalize (ReadData.fileSystemInit memory fsStart.toNat).value = pointers
  by_cases absent : bootInodes memory pointers ≤ inode.toNat
  · exact iff_of_true (safe_of_outside offset.toNat_lt (Or.inl absent)) (Or.inl absent)
  · by_cases past : fileLength memory pointers inode.toNat ≤ offset.toNat
    · have nothing : ∀ position, ¬ Requested memory pointers inode.toNat offset.toNat len.toNat position := by
        unfold Requested
        omega
      refine iff_of_true (safe_of_outside offset.toNat_lt (Or.inr past)) (Or.inr ⟨?_, ?_⟩)
      · exact fun position requested => absurd requested (nothing position)
      · exact fun position requested => absurd requested (nothing position)
    · rw [or_iff_right absent]
      exact safe_iff_consistent (Nat.lt_of_not_le absent) (Nat.lt_of_not_le past)

/-- The images that the decoding of files is about are consistent wherever they are read. -/
theorem consistent_of_wellFormed {memory : Memory} {fsStart inode : Nat} (image : WellFormed memory fsStart)
    (present : inode < (mounted memory fsStart).inodeCount) (offset len : Nat) :
    Consistent memory (parts memory fsStart) inode offset len := by
  have inMemory := image.inMemory
  have place : currInode (parts memory fsStart) inode = fsStart + 4096 * 1 + 4096 * inode := by
    show (index (fsStart + 4096 * 1) 4096 inode).value = _
    rw [index_eq (by omega), value_pure]
  have length : fileLength memory (parts memory fsStart) inode = (mounted memory fsStart).length inode := by
    rw [fileLength, place, length_mounted]
  have data : bootData memory (parts memory fsStart) = dataCount (mounted memory fsStart) := by
    show word32 memory (plus fsStart 8).value = _
    rw [plus_eq (by omega)]
    rfl
  have fits : ∀ position, Requested memory (parts memory fsStart) inode offset len position →
      position < (mounted memory fsStart).length inode ∧ position < 1023 * 4096 := by
    intro position requested
    have before : position < (mounted memory fsStart).length inode := length ▸ requested.2.2
    exact ⟨before, Nat.lt_of_lt_of_le before (image.lengths inode present)⟩
  refine ⟨fun position requested => (fits position requested).2, fun position requested => ?_⟩
  obtain ⟨before, inList⟩ := fits position requested
  have number : blockNumber memory (parts memory fsStart) inode (position / 4096) =
      (mounted memory fsStart).dataBlockNum inode (position / 4096) := by
    rw [blockNumber, place, plus_eq (by omega), value_pure, index_eq (by omega), value_pure, dataBlockNum_mounted]
  rw [number, data]
  exact image.blocks inode present (position / 4096) (by omega)

/-- An image with one file, whose length is `2 ^ 32 - 1`. -/
def overlong : Memory := fun address =>
  (Image.layOut 0 1 [] [[255, 255, 255, 255]] [[]]).byte (address - 0x1000)

/-- Two bytes asked for where one is left: `offset + len` is 0, and 2 are reported. -/
theorem past_the_end_is_read :
    (readData overlong (ReadData.fileSystemInit overlong 0x1000).value 0 (2 ^ 32 - 2) 2).value.1 = 2 ∧
      ¬ Safe overlong (ReadData.fileSystemInit overlong 0x1000).value 0 (2 ^ 32 - 2) 2 := by
  have returned :
      (readData overlong (ReadData.fileSystemInit overlong 0x1000).value 0 (2 ^ 32 - 2) 2).value.1 = 2 := by
    decide +kernel
  have length : fileLength overlong (ReadData.fileSystemInit overlong 0x1000).value 0 = 2 ^ 32 - 1 := by
    decide +kernel
  refine ⟨returned, fun safe => ?_⟩
  have reported := safe.reported
  omega

end LinuxLikeOS.CorruptImages
