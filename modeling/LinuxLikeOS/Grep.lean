import LinuxLikeOS.Programs

/-!
# `grep` (`ece391grep.c`)

The program reads a file into a buffer of 1024 bytes, searches the lines that are complete, and
moves the incomplete line at the end to the front before it reads on.
-/

namespace LinuxLikeOS.Programs

open Function Blocks Fueled LinuxLikeOS.Task LinuxLikeOS.ProcessTable LinuxLikeOS.DescriptorRefinement

section

variable (image : Image) (world : World) (fuel s sLen fname data : Nat)

/-- The variables of the loop over a line; `found` after its `break`. -/
structure Searching where
  check : Nat
  found : Bool
  process : Process

/-- The comparison at one place of the line. `s` points to `char`, which is signed. -/
def searchAt (lineStart : Nat) (searching : Searching) : Fueled Nat Searching := do
  let process := searching.process
  access s
  access (data + searching.check)
  if (process.memory s).toInt8.toInt = (process.memory (data + searching.check)).toNat then do
    let differs ← ece391Strncmp fuel (data + searching.check) s sLen process.memory
    if differs = 0 then do
      let process ← ece391Fdputs image world fuel 1 fname process
      let process ← fdputsLiteral image world 1 (ascii [':']) process
      let process ← ece391Fdputs image world fuel 1 (data + lineStart) process
      let process ← fdputsLiteral image world 1 (ascii ['\n']) process
      pure ⟨searching.check, true, process⟩
    else pure ⟨searching.check + 1, false, process⟩
  else pure ⟨searching.check + 1, false, process⟩

/-- `search the line`. -/
def searchLine (lineStart lineEnd : Nat) (process : Process) : Fueled Nat Process := do
  let searching ← whileLoop (fun searching => pure (!searching.found && decide (searching.check < lineEnd)))
    (searchAt image world fuel s sLen fname data lineStart) fuel ⟨lineStart, false, process⟩
  pure searching.process

/-- The index of the next newline, or of the end of what is in the buffer. -/
def findLineEnd (last lineStart : Nat) (memory : Memory) : Fueled Nat Nat :=
  whileLoop (fun lineEnd =>
      if lineEnd < last then do access (data + lineEnd); pure (memory (data + lineEnd) != 10) else pure false)
    (fun lineEnd => pure (lineEnd + 1)) fuel lineStart

/-- The variables of the loop over the buffer; `done` after a `break`. -/
structure Scanning where
  last : Nat
  lineStart : Nat
  done : Bool
  process : Process

def scanLine (cnt : Int) (scanning : Scanning) : Fueled Nat Scanning := do
  let { last, lineStart, process, .. } := scanning
  let lineEnd ← findLineEnd fuel data last lineStart process.memory
  access (data + lineEnd)
  let ended := update process.memory (data + lineEnd) 0
  if process.memory (data + lineEnd) ≠ 10 ∧ cnt ≠ 0 ∧ lineStart ≠ 0 then do
    let memory ← ece391Strcpy fuel data (data + lineStart) ended
    pure ⟨last - lineStart, lineStart, true, { process with memory := memory }⟩
  else do
    let process ← searchLine image world fuel s sLen fname data lineStart lineEnd { process with memory := ended }
    if last ≤ lineEnd + 1 then pure ⟨0, lineEnd + 1, true, process⟩
    else pure ⟨last, lineEnd + 1, false, process⟩

/-- The variables of the loop over the file; `done` after its `break`, `failed` after a `return -1`. -/
structure Reading where
  last : Nat
  done : Bool
  failed : Bool
  process : Process

def readChunk (fd : Int) (reading : Reading) : Fueled Nat Reading := do
  let (cnt, process) ← ece391Read image world fd (data + reading.last) (1024 - reading.last) reading.process
  if cnt = -1 then do
    let process ← fdputsLiteral image world 1 (ascii "file read failed\n".toList) process
    pure ⟨reading.last, true, true, process⟩
  else do
    let scanning ← whileLoop (fun scanning => pure !scanning.done) (scanLine image world fuel s sLen fname data cnt) fuel
      ⟨reading.last + cnt.toNat, 0, false, process⟩
    pure ⟨scanning.last, decide (cnt = 0), false, scanning.process⟩

end

def doOneFile (image : Image) (world : World) (fuel s fname data : Nat) (process : Process) :
    Fueled Nat (Int × Process) := do
  let sLen ← ece391Strlen fuel s process.memory
  let (fd, process) ← ece391Open image world fuel fname process
  if fd = -1 then do
    let process ← fdputsLiteral image world 1 (ascii "file open failed\n".toList) process
    pure (-1, process)
  else do
    let reading ← whileLoop (fun reading => pure !reading.done) (readChunk image world fuel s sLen fname data fd) fuel
      ⟨0, false, false, process⟩
    if reading.failed then pure (-1, reading.process)
    else do
      let (closed, process) ← ece391Close image world fd reading.process
      if closed = -1 then do
        let process ← fdputsLiteral image world 1 (ascii "file close failed\n".toList) process
        pure (-1, process)
      else pure (0, process)

/-! ## What it ought to print -/

def linesOf (text : List UInt8) : List (List UInt8) := text.splitOn 10

/-- What is printed for a line: nothing, or the name of the file and the line. A string that starts
with a byte from 128 on is never found. -/
def hit (search name line : List UInt8) : List UInt8 :=
  if (∃ c ∈ search.head?, c < 128) ∧ search <:+: line then name ++ ascii [':'] ++ line ++ ascii ['\n'] else []

def matchingLines (search name text : List UInt8) : List UInt8 := (linesOf text).flatMap (hit search name)

/-- A text that the buffer is large enough for. -/
structure Plain (text : List UInt8) : Prop where
  noNul : 0 ∉ text
  short : ∀ line ∈ linesOf text, line.length ≤ 1024

section

variable {search name line text rest : List UInt8}

theorem linesOf_line (oneLine : 10 ∉ line) : linesOf line = [line] := List.splitOn_eq_singleton oneLine

theorem linesOf_append (oneLine : 10 ∉ line) (rest : List UInt8) : linesOf
    (line ++ 10 :: rest) = line :: linesOf rest :=
  List.splitOn_append_cons_self_of_not_mem oneLine rest

theorem hit_nil (search name : List UInt8) : hit search name [] = [] := by
  refine if_neg fun both => ?_
  obtain ⟨⟨c, head, -⟩, inside⟩ := both
  rw [List.eq_nil_of_infix_nil inside] at head
  cases head

theorem matchingLines_line (oneLine : 10 ∉ line) : matchingLines search name line = hit search name line := by
  rw [matchingLines, linesOf_line oneLine, List.flatMap_singleton]

theorem matchingLines_append (oneLine : 10 ∉ line) (rest : List UInt8) :
    matchingLines search name (line ++ 10 :: rest) = hit search name line ++ matchingLines search name rest := by
  rw [matchingLines, linesOf_append oneLine, List.flatMap_cons]
  rfl

theorem matchingLines_nil (search name : List UInt8) : matchingLines search name [] = [] :=
  (matchingLines_line List.not_mem_nil).trans (hit_nil search name)

/-- A newline in front makes an empty line, which never matches. -/
theorem matchingLines_newline (search name rest : List UInt8) :
    matchingLines search name (10 :: rest) = matchingLines search name rest := by
  have empty : matchingLines search name ([] ++ 10 :: rest) = _ := matchingLines_append List.not_mem_nil rest
  rwa [hit_nil, List.nil_append, List.nil_append] at empty

theorem Plain.behind (plain : Plain (line ++ 10 :: rest)) (oneLine : 10 ∉ line) : Plain rest where
  noNul member := plain.noNul (List.mem_append_right _ (List.mem_cons_of_mem _ member))
  short other member := plain.short other (by
    rw [linesOf_append oneLine]
    exact List.mem_cons_of_mem _ member)

theorem Plain.newline (plain : Plain rest) : Plain (10 :: rest) where
  noNul member := (List.mem_cons.mp member).elim nofun plain.noNul
  short other member := by
    have split : linesOf ([] ++ 10 :: rest) = [] :: linesOf rest := linesOf_append List.not_mem_nil rest
    rw [List.nil_append] at split
    rw [split] at member
    exact (List.mem_cons.mp member).elim (fun empty => empty ▸ Nat.zero_le 1024) (plain.short other)

/-- A line that fills the buffer ends there. -/
theorem Plain.full (plain : Plain (line ++ rest)) (oneLine : 10 ∉ line) (full : 1024 ≤ line.length) :
    rest = [] ∨ ∃ more, rest = 10 :: more := by
  cases rest with
  | nil => exact Or.inl rfl
  | cons c more =>
      by_cases newline : c = 10
      · exact Or.inr ⟨more, by rw [newline]⟩
      · have whole : ∀ start, 10 ∉ start → 10 ∉ line ++ c :: start := by
          intro start without member
          rcases List.mem_append.mp member with early | late
          · exact oneLine early
          · exact (List.mem_cons.mp late).elim (fun same => newline same.symm) without
        have longer : ∃ first ∈ linesOf (line ++ c :: more), 1024 < first.length := by
          by_cases ends : 10 ∈ more
          · obtain ⟨start, later, rfl, without⟩ := List.eq_append_cons_of_mem ends
            refine ⟨line ++ c :: start, ?_, ?_⟩
            · have split := linesOf_append (whole start without) later
              rw [List.append_assoc, List.cons_append] at split
              rw [split]
              exact List.mem_cons_self
            · rw [List.length_append, List.length_cons]
              omega
          · refine ⟨line ++ c :: more, ?_, ?_⟩
            · rw [linesOf_line (whole more ends)]
              exact List.mem_singleton_self _
            · rw [List.length_append, List.length_cons]
              omega
        obtain ⟨first, member, long⟩ := longer
        exact absurd (plain.short first member) (Nat.not_le_of_lt long)

/-- A line that was searched as a whole, and what is behind it. -/
theorem Plain.searched (plain : Plain (line ++ rest)) (oneLine : 10 ∉ line)
    (ends : rest = [] ∨ ∃ more, rest = 10 :: more) :
    matchingLines search name (line ++ rest) = hit search name line ++ matchingLines search name rest ∧
      Plain rest := by
  rcases ends with rfl | ⟨more, rfl⟩
  · rw [List.append_nil, matchingLines_line oneLine, matchingLines_nil, List.append_nil]
    exact ⟨rfl, ⟨List.not_mem_nil, fun other member => by
      rw [linesOf_line List.not_mem_nil, List.mem_singleton] at member
      exact member ▸ Nat.zero_le 1024⟩⟩
  · rw [matchingLines_append oneLine, matchingLines_newline]
    exact ⟨rfl, (plain.behind oneLine).newline⟩

end

/-! ## One line -/

/-- Where the strings and the buffer lie. -/
structure Laid (memory : Memory) (s fname data : Nat) (search name : List UInt8) : Prop where
  pattern : StringAt memory s search
  file : StringAt memory fname name
  apartSearch : Apart data 1025 s (search.length + 1)
  apartName : Apart data 1025 fname (name.length + 1)

/-- The bytes the program may touch. -/
def Allowed (s fname data : Nat) (search name : List UInt8) (address : Nat) : Prop :=
  Within data 1025 address ∨ Within s (search.length + 1) address ∨ Within fname (name.length + 1) address

/-- The string is found at an index of the line. -/
def FoundAt (search line : List UInt8) (k : Nat) : Prop := (∃ c ∈ search.head?, c < 128) ∧ search <+: line.drop k

section

variable {search name line : List UInt8}

theorem hit_of_foundAt {k : Nat} (found : FoundAt search line k) :
    hit search name line = name ++ ascii [':'] ++ line ++ ascii ['\n'] :=
  if_pos ⟨found.1, found.2.isInfix.trans (List.drop_suffix k line).isInfix⟩

theorem hit_of_not_foundAt (nowhere : ∀ k < line.length, ¬ FoundAt search line k) : hit search name line = [] := by
  refine if_neg fun both => ?_
  obtain ⟨⟨c, head, low⟩, inside⟩ := both
  obtain ⟨tail, starts, ends⟩ := List.infix_iff_prefix_suffix.mp inside
  have place := List.suffix_iff_eq_drop.mp ends
  have nonempty : 0 < tail.length := by
    refine Nat.lt_of_lt_of_le (List.length_pos_iff.mpr ?_) starts.length_le
    rintro rfl
    cases head
  have shorter := ends.length_le
  exact nowhere (line.length - tail.length) (by omega) ⟨⟨c, head, low⟩, place ▸ starts⟩

theorem signed_eq_iff {c d : UInt8} : c.toInt8.toInt = (d.toNat : Int) ↔ c = d ∧ c < 128 := by
  have value : c.toInt8.toInt = if c.toNat < 128 then (c.toNat : Int) else c.toNat - 256 := by
    have cond := BitVec.toInt_eq_toNat_cond c.toBitVec
    have bound := c.toNat_lt
    show c.toBitVec.toInt = _
    rw [cond]
    show (if 2 * c.toNat < 2 ^ 8 then (c.toNat : Int) else c.toNat - (2 ^ 8 : Nat)) = _
    split <;> split <;> omega
  have bound := d.toNat_lt
  have least := c.toNat_lt
  rw [value, ← UInt8.toNat_inj, UInt8.lt_iff_toNat_lt]
  show _ ↔ _ ∧ c.toNat < 128
  split <;> omega

end

section

variable {image : Image} {world : World} {fuel s fname data lineStart lineEnd check : Nat} {search name : List UInt8}
  {process : Process} {steady : Prop}

/-- The line between two indices of the buffer, if it has no NUL. -/
def LineAt (memory : Memory) (data lineStart lineEnd : Nat) (line : List UInt8) : Prop :=
  StringAt memory (data + lineStart) line ∧ lineStart + line.length = lineEnd

/-- What is printed for the line, and that a line without NULs has its hit printed. -/
def Reports (search name : List UInt8) (memory : Memory) (data lineStart lineEnd : Nat) (text : List UInt8) : Prop :=
  ∀ line, LineAt memory data lineStart lineEnd line → text = hit search name line

/-- The test of the first character and the comparison decide whether the string is found. -/
theorem foundAt_iff {line tail : List UInt8} {memory : Memory} (pattern : StringAt memory s search)
    (isLine : LineAt memory data lineStart lineEnd line) (low : lineStart ≤ check) (high : check < lineEnd)
    (isTail : StringAt memory (data + check) tail) :
    FoundAt search line (check - lineStart) ↔
      (memory s).toInt8.toInt = (memory (data + check)).toNat ∧ search <+: tail := by
  obtain ⟨string, length⟩ := isLine
  have same : line.drop (check - lineStart) = tail := by
    have dropped := string.drop (k := check - lineStart) (by omega)
    rw [Nat.add_assoc, Nat.add_sub_cancel' low] at dropped
    exact dropped.unique isTail
  have character : memory (data + check) ≠ 0 := by
    have inside := string.ne_zero (i := check - lineStart) (by omega)
    rwa [Nat.add_assoc, Nat.add_sub_cancel' low] at inside
  rw [FoundAt, same, signed_eq_iff]
  refine and_congr_left fun starts => ?_
  cases search with
  | nil =>
      have nul : memory s = 0 := pattern.nul
      refine iff_of_false (fun ⟨c, head, _⟩ => nomatch head) fun both => character ?_
      rw [← both.1, nul]
  | cons c rest =>
      have first : memory s = c := pattern.chars 0 (Nat.succ_pos _)
      have front : memory (data + check) = c := (isPrefix_iff isTail pattern.noNul).mp starts 0 (Nat.succ_pos _)
      rw [first, front]
      simp

theorem searchAt_returns (considerate : steady → world.Considerate)
    (laid : Laid process.memory s fname data search name) (standard : StandardOpen process.fds)
    (enough : 1026 + search.length + name.length < fuel) (short : name.length < 2 ^ 31) (low : lineStart ≤ check)
    (high : check < lineEnd) (limit : lineEnd ≤ 1024) (nul : process.memory (data + lineEnd) = 0) :
    Returns (Allowed s fname data search name) (fun next =>
        (next = ⟨check + 1, false, process⟩ ∧ ∀ line, LineAt process.memory data lineStart lineEnd line →
            ¬ FoundAt search line (check - lineStart)) ∨
          next.found = true ∧ ∃ text, Prints world steady process next.process text ∧
            Reports search name process.memory data lineStart lineEnd text)
      (searchAt image world fuel s search.length fname data lineStart ⟨check, false, process⟩) := by
  have buffer : ∀ {index}, index < 1025 → Allowed s fname data search name (data + index) :=
    fun inside => Or.inl (within_add data inside)
  have ended : ∀ {index}, index ≤ lineEnd → ∃ text, StringAt process.memory (data + index) text ∧
      text.length ≤ lineEnd - index := by
    intro index inside
    exact exists_stringAt (lineEnd - index) (by rwa [Nat.add_assoc, Nat.add_sub_cancel' inside])
  obtain ⟨tail, isTail, tailShort⟩ := ended (Nat.le_of_lt high)
  obtain ⟨whole, isWhole, wholeShort⟩ := ended (low.trans (Nat.le_of_lt high))
  have decides : ∀ line, LineAt process.memory data lineStart lineEnd line →
      (FoundAt search line (check - lineStart) ↔ _) :=
    fun line isLine => foundAt_iff laid.pattern isLine low high isTail
  have here : Allowed s fname data search name (data + check) := buffer (by omega)
  refine returns_access_bind (Or.inr (Or.inl (within_add s (Nat.succ_pos _)))) (returns_access_bind here ?_)
  by_cases first : (process.memory s).toInt8.toInt = (process.memory (data + check)).toNat
  · simp only [if_pos first]
    refine (strncmp_returns isTail laid.pattern (by omega) ?_).bind fun differs order => ?_
    · rintro address (inside | inside)
      · obtain ⟨i, less, rfl⟩ := inside.exists_add
        have place : check + i < 1025 := by omega
        rw [Nat.add_assoc]
        exact buffer place
      · exact Or.inr (Or.inl ⟨inside.1, by have := inside.2; omega⟩)
    by_cases same : differs = 0
    · simp only [if_pos same]
      have readName : ∀ address, Within fname (name.length + 1) address → Allowed s fname data search name address :=
        fun address inside => Or.inr (Or.inr inside)
      have readLine : ∀ address, Within (data + lineStart) (whole.length + 1) address →
          Allowed s fname data search name address := by
        intro address inside
        obtain ⟨i, less, rfl⟩ := inside.exists_add
        have place : lineStart + i < 1025 := by omega
        rw [Nat.add_assoc]
        exact buffer place
      refine (fdputs_returns considerate standard laid.file (by omega) short readName).bind fun second prints => ?_
      refine (fdputsLiteral_returns considerate (prints.fds.symm ▸ standard) (by decide)).bind fun third prints' => ?_
      have prints₂ := prints.trans prints'
      refine (fdputs_returns considerate (prints₂.fds.symm ▸ standard) (prints₂.memory.symm ▸ isWhole) (by omega) (by omega)
        readLine).bind fun fourth prints'' => ?_
      have prints₃ := prints₂.trans prints''
      refine (fdputsLiteral_returns considerate (prints₃.fds.symm ▸ standard) (by decide)).bind fun fifth prints''' => ?_
      refine returns_pure (Or.inr ⟨rfl, _, prints₃.trans prints''', fun line isLine => ?_⟩)
      rw [hit_of_foundAt ((decides line isLine).mpr ⟨first, order.mp same⟩), isLine.1.unique isWhole]
    · simp only [if_neg same]
      refine returns_pure (Or.inl ⟨rfl, fun line isLine found => same (order.mpr ?_)⟩)
      exact ((decides line isLine).mp found).2
  · simp only [if_neg first]
    exact returns_pure (Or.inl ⟨rfl, fun line isLine found => first ((decides line isLine).mp found).1⟩)

theorem searchLine_returns (considerate : steady → world.Considerate)
    (laid : Laid process.memory s fname data search name) (standard : StandardOpen process.fds)
    (enough : 1026 + search.length + name.length < fuel) (short : name.length < 2 ^ 31) (order : lineStart ≤ lineEnd)
    (limit : lineEnd ≤ 1024) (nul : process.memory (data + lineEnd) = 0) :
    Returns (Allowed s fname data search name) (fun after => ∃ text, Prints world steady process after text ∧
        Reports search name process.memory data lineStart lineEnd text)
      (searchLine image world fuel s search.length fname data lineStart lineEnd process) := by
  refine (returns_while_pure (fun searching : Searching => !searching.found && decide (searching.check < lineEnd))
    (fun searching => (∃ check, searching = ⟨check, false, process⟩ ∧ lineStart ≤ check ∧ check ≤ lineEnd ∧
        ∀ line, LineAt process.memory data lineStart lineEnd line →
          ∀ k < check - lineStart, ¬ FoundAt search line k) ∨
      searching.found = true ∧ ∃ text, Prints world steady process searching.process text ∧
        Reports search name process.memory data lineStart lineEnd text)
    (fun searching => ∃ text, Prints world steady process searching.process text ∧
      Reports search name process.memory data lineStart lineEnd text)
    (fun searching => if searching.found then 0 else lineEnd + 1 - searching.check) ?_ ?_ ?_ ?_).bind
    fun searching done => returns_pure done
  · rintro searching (⟨check, rfl, low, -, nowhere⟩ | ⟨found, -⟩) goes
    · have high : check < lineEnd := of_decide_eq_true goes
      refine (searchAt_returns considerate laid standard enough short low high limit nul).imp ?_
      rintro next (⟨rfl, notHere⟩ | ⟨found, reported⟩)
      · refine ⟨Or.inl ⟨check + 1, rfl, by omega, high, fun line isLine k less => ?_⟩, ?_⟩
        · rcases Nat.lt_or_ge k (check - lineStart) with before | here
          · exact nowhere line isLine k before
          · obtain rfl : k = check - lineStart := by omega
            exact notHere line isLine
        · show lineEnd + 1 - (check + 1) < lineEnd + 1 - check
          omega
      · refine ⟨Or.inr ⟨found, reported⟩, ?_⟩
        rw [found]
        show 0 < lineEnd + 1 - check
        omega
    · rw [found] at goes
      cases goes
  · rintro searching (⟨check, rfl, low, most, nowhere⟩ | ⟨-, done⟩) stops
    · have past : ¬ check < lineEnd := of_decide_eq_false stops
      refine ⟨[], Prints.refl world steady process, fun line isLine => (hit_of_not_foundAt fun k inside => ?_).symm⟩
      have length := isLine.2
      exact nowhere line isLine k (by omega)
    · exact done
  · exact Or.inl ⟨lineStart, rfl, Nat.le_refl _, order, fun line isLine k less => absurd less (by omega)⟩
  · show lineEnd + 1 - lineStart < fuel
    omega

end

/-! ## The lines of the buffer -/

section

variable {image : Image} {world : World} {fuel s fname data last lineStart : Nat} {search name : List UInt8}
  {start process : Process} {memory : Memory} {steady : Prop}

theorem findLineEnd_returns {P : Nat → Prop} (order : lineStart ≤ last) (enough : last < fuel)
    (readable : ∀ index < last, P (data + index)) :
    Returns P (fun lineEnd => lineStart ≤ lineEnd ∧ lineEnd ≤ last ∧
        (∀ index, lineStart ≤ index → index < lineEnd → memory (data + index) ≠ 10) ∧
        (lineEnd < last → memory (data + lineEnd) = 10))
      (findLineEnd fuel data last lineStart memory) := by
  refine returns_while (fun lineEnd => lineStart ≤ lineEnd ∧ lineEnd ≤ last ∧
    ∀ index, lineStart ≤ index → index < lineEnd → memory (data + index) ≠ 10) (fun lineEnd => last - lineEnd) ?_
    ⟨Nat.le_refl _, order, fun index low high => absurd high (Nat.not_lt_of_le low)⟩ (by omega)
  rintro lineEnd ⟨low, high, without⟩
  by_cases before : lineEnd < last
  · simp only [if_pos before]
    refine returns_access_bind (readable lineEnd before) (returns_pure ⟨fun goes => ?_, fun stops => ?_⟩)
    · refine returns_pure ⟨⟨Nat.le_succ_of_le low, before, fun index from' less => ?_⟩, by omega⟩
      rcases Nat.lt_succ_iff_lt_or_eq.mp less with earlier | rfl
      · exact without index from' earlier
      · exact bne_iff_ne.mp goes
    · exact ⟨low, high, without, fun _ => by simpa using stops⟩
  · simp only [if_neg before]
    exact returns_pure ⟨nofun, fun _ => ⟨low, high, without, fun less => absurd less before⟩⟩

/-- Nothing outside of the buffer has changed, and its last byte has not become a newline. -/
structure Kept (data : Nat) (before after : Memory) : Prop where
  outside : ∀ address, ¬ Within data 1025 address → after address = before address
  sentinel : before (data + 1024) ≠ 10 → after (data + 1024) ≠ 10

theorem Kept.refl (data : Nat) (memory : Memory) : Kept data memory memory := ⟨fun _ _ => rfl, id⟩

theorem Kept.trans {first second third : Memory} (early : Kept data first second) (late : Kept data second third) :
    Kept data first third :=
  ⟨fun address outside => (late.outside address outside).trans (early.outside address outside),
    fun start => late.sentinel (early.sentinel start)⟩

theorem kept_update {index : Nat} (inside : index < 1025) (memory : Memory) :
    Kept data memory (update memory (data + index) 0) := by
  refine ⟨fun address outside => update_of_ne ?_ _ _, fun start => ?_⟩
  · rintro rfl
    exact outside (within_add data inside)
  · by_cases last : data + 1024 = data + index
    · rw [last, update_self]
      decide
    · rwa [update_of_ne last]

theorem kept_written (index : Nat) {values : List UInt8} (inside : index + values.length ≤ 1024) (memory : Memory) :
    Kept data memory (written memory (data + index) values) := by
  have elsewhere : ∀ {address}, ¬ Within data 1024 address →
      written memory (data + index) values address = memory address := by
    intro address outside
    refine written_outside memory fun within => outside ?_
    obtain ⟨i, less, rfl⟩ := within.exists_add
    rw [Nat.add_assoc]
    exact within_add data (by omega)
  refine ⟨fun address outside => elsewhere fun within => outside ⟨within.1, ?_⟩, fun start => ?_⟩
  · exact within.2.trans (Nat.lt_succ_self _)
  · rw [elsewhere (fun within => Nat.lt_irrefl _ within.2)]
    exact start

theorem Laid.kept {after : Memory} (laid : Laid memory s fname data search name) (kept : Kept data memory after) :
    Laid after s fname data search name := by
  have outside : ∀ {base n}, Apart data 1025 base n → ∀ place, Within base n place → ¬ Within data 1025 place := by
    intro base n apart place inside other
    unfold Apart at apart
    unfold Within at inside other
    omega
  exact ⟨laid.pattern.congr fun place inside => kept.outside place (outside laid.apartSearch place inside),
    laid.file.congr fun place inside => kept.outside place (outside laid.apartName place inside),
    laid.apartSearch, laid.apartName⟩

/-- What of the buffer has not been searched, in front of the rest of the file. -/
structure Pending (memory : Memory) (data last lineStart : Nat) (pending rest : List UInt8) : Prop where
  length : lineStart + pending.length = last
  bytes : ∀ i (inside : i < pending.length), memory (data + lineStart + i) = pending[i]
  plain : Plain (pending ++ rest)
  /-- Only a full buffer is not at the end of the file. -/
  ends : last < 1024 → rest = []

/-- What is kept at the front of the buffer for the next read. -/
structure Carried (memory : Memory) (data last : Nat) (carry rest : List UInt8) : Prop where
  length : carry.length = last
  bytes : ∀ i (inside : i < carry.length), memory (data + i) = carry[i]
  plain : Plain (carry ++ rest)

section

variable {lineEnd : Nat} {text rest : List UInt8} (pending : Pending memory data last lineStart text rest)

include pending

theorem Pending.lineAt (low : lineStart ≤ lineEnd) (high : lineEnd ≤ last) :
    LineAt (update memory (data + lineEnd) 0) data lineStart lineEnd (text.take (lineEnd - lineStart)) := by
  have length := pending.length
  have taken : (text.take (lineEnd - lineStart)).length = lineEnd - lineStart := List.length_take_of_le (by omega)
  refine ⟨⟨fun i inside => ?_, fun member => ?_, ?_⟩, by omega⟩
  · rw [update_of_ne (by omega), List.getElem_take]
    exact pending.bytes i (by omega)
  · exact pending.plain.noNul (List.mem_append_left _ (List.mem_of_mem_take member))
  · rw [taken, Nat.add_assoc, Nat.add_sub_cancel' low, update_self]

theorem Pending.oneLine (high : lineEnd ≤ last)
    (without : ∀ index, lineStart ≤ index → index < lineEnd → memory (data + index) ≠ 10) :
    10 ∉ text.take (lineEnd - lineStart) := by
  intro member
  obtain ⟨i, inside, newline⟩ := List.getElem_of_mem member
  have length := pending.length
  rw [List.length_take] at inside
  rw [List.getElem_take, ← pending.bytes i (by omega), Nat.add_assoc] at newline
  exact without (lineStart + i) (by omega) (by omega) newline

/-- The line up to a newline, and what comes behind it. -/
theorem Pending.split (low : lineStart ≤ lineEnd) (before : lineEnd < last) (newline : memory (data + lineEnd) = 10) :
    text = text.take (lineEnd - lineStart) ++ 10 :: text.drop (lineEnd - lineStart + 1) := by
  have length := pending.length
  have inside : lineEnd - lineStart < text.length := by omega
  have here : text[lineEnd - lineStart] = 10 := by
    rw [← pending.bytes _ inside, Nat.add_assoc, Nat.add_sub_cancel' low, newline]
  rw [← here, List.getElem_cons_drop, List.take_append_drop]

theorem Pending.next (low : lineStart ≤ lineEnd) (before : lineEnd < last)
    (newline : memory (data + lineEnd) = 10) (oneLine : 10 ∉ text.take (lineEnd - lineStart)) :
    Pending (update memory (data + lineEnd) 0) data last (lineEnd + 1) (text.drop (lineEnd - lineStart + 1)) rest where
  length := by
    have length := pending.length
    rw [List.length_drop]
    omega
  bytes i inside := by
    have place : data + (lineEnd + 1) + i = data + lineStart + (lineEnd - lineStart + 1 + i) := by omega
    rw [List.length_drop] at inside
    rw [update_of_ne (by omega), place, List.getElem_drop]
    exact pending.bytes _ (by omega)
  plain := by
    have plain := pending.plain
    rw [pending.split low before newline, List.append_assoc, List.cons_append] at plain
    exact plain.behind oneLine
  ends := pending.ends

end

/-- What has been printed since `start`, with only the buffer changed and the descriptors as given. -/
structure Worked (world : World) (steady : Prop) (data : Nat) (start : Process) (table : Table) (process : Process)
    (text : List UInt8) : Prop where
  does : Does world steady start process text
  fds : process.fds = table
  kept : Kept data start.memory process.memory

theorem Worked.stored {table : Table} {text : List UInt8} (worked : Worked world steady data start table process text)
    {after : Memory}
    (kept : Kept data process.memory after) :
    Worked world steady data start table { process with memory := after } text :=
  ⟨⟨worked.does.argBuff, worked.does.printed, worked.does.room, worked.does.console⟩, worked.fds, worked.kept.trans kept⟩

theorem Worked.printed {table : Table} {after : Process} {first second : List UInt8}
    (worked : Worked world steady data start table process first)
    (prints : Prints world steady process after second) : Worked world steady data start table after (first ++ second) :=
  ⟨worked.does.trans prints.toDoes, prints.fds.trans worked.fds, prints.memory.symm ▸ worked.kept⟩

variable {table : Table} {plain : Prop} {rest target : List UInt8} {cnt : Int}

/-- Before a round: what is printed already and what the rest of the file gives is all there is to print. -/
def Scanned (world : World) (steady : Prop) (data : Nat) (search name : List UInt8) (plain : Prop)
    (rest target : List UInt8)
    (start : Process) (table : Table) (last lineStart : Nat) (process : Process) : Prop :=
  ∃ text, Worked world steady data start table process text ∧ (plain → ∃ pending,
    Pending process.memory data last lineStart pending rest ∧
      text ++ matchingLines search name (pending ++ rest) = target)

/-- The same when the buffer has been searched. -/
def Emptied (world : World) (steady : Prop) (data : Nat) (search name : List UInt8) (plain : Prop)
    (rest target : List UInt8)
    (start : Process) (table : Table) (last : Nat) (process : Process) : Prop :=
  ∃ text, Worked world steady data start table process text ∧ (plain → ∃ carry,
    Carried process.memory data last carry rest ∧ text ++ matchingLines search name (carry ++ rest) = target)

/-- The incomplete line at the end is moved to the front. -/
theorem carry_returns {process : Process}
    (scanned : Scanned world steady data search name plain rest target start table last lineStart process)
    (enough : 1026 < fuel) (limit : last ≤ 1024) (later : 0 < lineStart) (order : lineStart ≤ last) :
    Returns (Allowed s fname data search name) (fun memory =>
        Emptied world steady data search name plain rest target start table (last - lineStart)
          { process with memory := memory })
      (ece391Strcpy fuel data (data + lineStart) (update process.memory (data + last) 0)) := by
  obtain ⟨text, worked, exact⟩ := scanned
  have nul : update process.memory (data + last) 0 (data + lineStart + (last - lineStart)) = 0 := by
    rw [Nat.add_assoc, Nat.add_sub_cancel' order, update_self]
  obtain ⟨moved, string, short⟩ := exists_stringAt (last - lineStart) nul
  refine (strcpy_returns string (by omega) (Nat.le_add_right _ _) ?_).imp ?_
  · intro address low high
    exact Or.inl ⟨low, by omega⟩
  rintro _ rfl
  have kept : Kept data process.memory (written (update process.memory (data + last) 0) data (moved ++ [0])) :=
    (kept_update (by omega) _).trans (kept_written 0 (by simp; omega) _)
  refine ⟨text, worked.stored kept, fun isPlain => ?_⟩
  obtain ⟨pending, isPending, total⟩ := exact isPlain
  have length := isPending.length
  have whole : pending.take (last - lineStart) = pending := List.take_of_length_le (by omega)
  have line := isPending.lineAt order (Nat.le_refl last)
  rw [whole] at line
  obtain rfl : moved = pending := string.unique line.1
  refine ⟨moved, ⟨by omega, fun i inside => ?_, isPending.plain⟩, total⟩
  show written (update process.memory (data + last) 0) data (moved ++ [0]) (data + i) = moved[i]
  rw [written_inside _ (by rw [List.length_append]; omega), List.getElem_append_left inside]

theorem carried_nil (plain : Plain rest) : Carried memory data 0 [] rest := ⟨rfl, nofun, plain⟩

/-- A line that ends with a newline has been searched. -/
theorem Pending.searched {lineEnd : Nat} {pending : List UInt8}
    (isPending : Pending memory data last lineStart pending rest) (low : lineStart ≤ lineEnd) (before : lineEnd < last)
    (without : ∀ index, lineStart ≤ index → index < lineEnd → memory (data + index) ≠ 10)
    (newline : memory (data + lineEnd) = 10) :
    ∃ more, Pending (update memory (data + lineEnd) 0) data last (lineEnd + 1) more rest ∧
      matchingLines search name (pending ++ rest) =
        hit search name (pending.take (lineEnd - lineStart)) ++ matchingLines search name (more ++ rest) := by
  have oneLine := isPending.oneLine (Nat.le_of_lt before) without
  refine ⟨_, isPending.next low before newline oneLine, ?_⟩
  conv_lhs => rw [isPending.split low before newline, List.append_assoc, List.cons_append]
  exact matchingLines_append oneLine _

/-- The last line of the buffer has been searched. -/
theorem Pending.searchedLast {lineEnd : Nat} {pending : List UInt8}
    (isPending : Pending memory data last lineStart pending rest) (low : lineStart ≤ lineEnd) (high : lineEnd ≤ last)
    (limit : last ≤ 1024) (without : ∀ index, lineStart ≤ index → index < lineEnd → memory (data + index) ≠ 10)
    (newline : lineEnd < last → memory (data + lineEnd) = 10) (all : last ≤ lineEnd + 1)
    (front : lineEnd = 1024 → rest = [] ∨ lineStart = 0) :
    matchingLines search name (pending ++ rest) =
        hit search name (pending.take (lineEnd - lineStart)) ++ matchingLines search name rest ∧ Plain rest := by
  rcases Nat.lt_or_eq_of_le high with before | rfl
  · obtain ⟨more, isMore, split⟩ := isPending.searched low before without (newline before)
    have length := isMore.length
    obtain rfl : more = [] := List.eq_nil_of_length_eq_zero (by omega)
    exact ⟨split, isMore.plain⟩
  · have oneLine := isPending.oneLine (Nat.le_refl lineEnd) without
    have length := isPending.length
    rw [List.take_of_length_le (by omega)] at oneLine ⊢
    refine isPending.plain.searched oneLine ?_
    by_cases full : lineEnd = 1024
    · rcases front full with spent | whole
      · exact Or.inl spent
      · exact isPending.plain.full oneLine (by omega)
    · exact Or.inl (isPending.ends (by omega))

/-- One round of the loop over the buffer. -/
theorem scanLine_returns (considerate : steady → world.Considerate)
    (laid : Laid start.memory s fname data search name) (standard : StandardOpen table)
    (enough : 1026 + search.length + name.length < fuel) (short : name.length < 2 ^ 31) (limit : last ≤ 1024)
    (order : lineStart ≤ last) (noData : cnt = 0 → last < 1024)
    (sentinel : plain → rest = [] ∨ start.memory (data + 1024) ≠ 10)
    (scanned : Scanned world steady data search name plain rest target start table last lineStart process) :
    Returns (Allowed s fname data search name) (fun next =>
        (next.done = false ∧ next.last = last ∧ lineStart < next.lineStart ∧ next.lineStart ≤ last ∧
            Scanned world steady data search name plain rest target start table last next.lineStart next.process) ∨
          next.done = true ∧ next.last < 1024 ∧ (cnt = 0 → next.last = 0) ∧
            Emptied world steady data search name plain rest target start table next.last next.process)
      (scanLine image world fuel s search.length fname data cnt ⟨last, lineStart, false, process⟩) := by
  have buffer : ∀ index ≤ last, Allowed s fname data search name (data + index) :=
    fun index inside => Or.inl (within_add data (by omega))
  refine (findLineEnd_returns order (by omega) fun index inside => buffer index (Nat.le_of_lt inside)).bind
    fun lineEnd ⟨low, high, without, newline⟩ => ?_
  refine returns_access_bind (buffer lineEnd high) ?_
  by_cases carries : process.memory (data + lineEnd) ≠ 10 ∧ cnt ≠ 0 ∧ lineStart ≠ 0
  · simp only [if_pos carries]
    obtain rfl : lineEnd = last :=
      Nat.le_antisymm high (Nat.le_of_not_lt fun before => carries.1 (newline before))
    refine (carry_returns scanned (by omega) limit (Nat.pos_of_ne_zero carries.2.2) order).bind fun memory emptied => ?_
    exact returns_pure (Or.inr ⟨rfl, show lineEnd - lineStart < 1024 by omega,
      fun none => absurd none carries.2.1, emptied⟩)
  · simp only [if_neg carries]
    obtain ⟨text, worked, exact⟩ := scanned
    have ended := worked.stored (kept_update (by omega : lineEnd < 1025) process.memory)
    refine (searchLine_returns considerate (laid.kept ended.kept) (ended.fds.symm ▸ standard) enough short low (by omega)
      (update_self ..)).bind fun after ⟨out, prints, reported⟩ => ?_
    have printed := ended.printed prints
    have memory : after.memory = update process.memory (data + lineEnd) 0 := prints.memory
    have emptied : last ≤ lineEnd + 1 → Emptied world steady data search name plain rest target start table 0 after := by
      intro all
      refine ⟨_, printed, fun isPlain => ?_⟩
      obtain ⟨pending, isPending, total⟩ := exact isPlain
      have front : lineEnd = 1024 → rest = [] ∨ lineStart = 0 := by
        rintro rfl
        refine (sentinel isPlain).imp id fun start => ?_
        by_contra later
        exact carries ⟨worked.kept.sentinel start, fun none => by have := noData none; omega, later⟩
      obtain ⟨split, isPlainRest⟩ := isPending.searchedLast low high limit without newline all front
      refine ⟨[], carried_nil isPlainRest, ?_⟩
      rw [reported _ (isPending.lineAt low high), List.append_assoc, List.nil_append, ← split]
      exact total
    by_cases all : last ≤ lineEnd + 1
    · simp only [if_pos all]
      exact returns_pure (Or.inr ⟨rfl, Nat.succ_pos _, fun _ => rfl, emptied all⟩)
    · simp only [if_neg all]
      refine returns_pure (Or.inl ⟨rfl, rfl, show lineStart < lineEnd + 1 by omega,
        show lineEnd + 1 ≤ last by omega, _, printed, fun isPlain => ?_⟩)
      obtain ⟨pending, isPending, total⟩ := exact isPlain
      obtain ⟨more, isMore, split⟩ := isPending.searched low (by omega) without (newline (by omega))
      refine ⟨more, memory.symm ▸ isMore, ?_⟩
      rw [reported _ (isPending.lineAt low high), List.append_assoc, ← split]
      exact total

/-- The loop over the buffer. -/
theorem scanLines_returns (considerate : steady → world.Considerate)
    (laid : Laid start.memory s fname data search name) (standard : StandardOpen table)
    (enough : 1026 + search.length + name.length < fuel) (short : name.length < 2 ^ 31) (limit : last ≤ 1024)
    (noData : cnt = 0 → last < 1024)
    (sentinel : plain → rest = [] ∨ start.memory (data + 1024) ≠ 10)
    (scanned : Scanned world steady data search name plain rest target start table last 0 process) :
    Returns (Allowed s fname data search name) (fun scanning =>
        scanning.last < 1024 ∧ (cnt = 0 → scanning.last = 0) ∧
          Emptied world steady data search name plain rest target start table scanning.last scanning.process)
      (whileLoop (fun scanning => pure !scanning.done) (scanLine image world fuel s search.length fname data cnt) fuel
        ⟨last, 0, false, process⟩) := by
  refine returns_while_pure (fun scanning : Scanning => !scanning.done)
    (fun scanning => (scanning.done = false ∧ scanning.last = last ∧ scanning.lineStart ≤ last ∧
        Scanned world steady data search name plain rest target start table last scanning.lineStart scanning.process) ∨
      scanning.done = true ∧ scanning.last < 1024 ∧ (cnt = 0 → scanning.last = 0) ∧
        Emptied world steady data search name plain rest target start table scanning.last scanning.process) _
    (fun scanning => if scanning.done then 0 else last + 1 - scanning.lineStart) ?_ ?_
    (Or.inl ⟨rfl, rfl, Nat.zero_le _, scanned⟩) ?_
  · rintro ⟨held, lineStart, _, process⟩ (⟨rfl, same, inside, scanned⟩ | ⟨rfl, -⟩) goes
    · obtain rfl : held = last := same
      have order : lineStart ≤ held := inside
      refine (scanLine_returns considerate laid standard enough short limit order noData sentinel scanned).imp ?_
      rintro next (⟨going, same, further, inside, scanned⟩ | ⟨done, emptied⟩)
      · refine ⟨Or.inl ⟨going, same, inside, scanned⟩, ?_⟩
        rw [going]
        show held + 1 - next.lineStart < held + 1 - lineStart
        omega
      · refine ⟨Or.inr ⟨done, emptied⟩, ?_⟩
        rw [done]
        show 0 < held + 1 - lineStart
        omega
    · cases goes
  · rintro ⟨_, lineStart, _, process⟩ (⟨rfl, -⟩ | ⟨-, emptied⟩) stops
    · cases stops
    · exact emptied
  · show last + 1 - 0 < fuel
    omega

/-- The buffer after a read behind what was carried. -/
theorem Carried.read {carry chunk : List UInt8} (carried : Carried memory data last carry (chunk ++ rest))
    (fits : last + chunk.length ≤ 1024) (ends : last + chunk.length < 1024 → rest = []) :
    Pending (written memory (data + last) (chunk ++ List.replicate (1024 - last - chunk.length) 0)) data
      (last + chunk.length) 0 (carry ++ chunk) rest where
  length := by
    rw [Nat.zero_add, List.length_append, carried.length]
  bytes i inside := by
    rw [Nat.add_zero]
    rcases Nat.lt_or_ge i last with before | behind
    · have early : i < carry.length := carried.length.symm ▸ before
      rw [written_outside _ (by unfold Within; omega), List.getElem_append_left early]
      exact carried.bytes i early
    · rw [List.length_append, carried.length] at inside
      have place : data + i = data + last + (i - last) := by omega
      have late : i - last < chunk.length := by omega
      rw [place, written_inside _ (by rw [List.length_append]; omega), List.getElem_append_left late,
        List.getElem_append_right (by rw [carried.length]; exact behind)]
      simp only [carried.length]
  plain := by
    rw [List.append_assoc]
    exact carried.plain
  ends := ends

end

/-! ## The file -/

section

variable {image : Image} {world : World} {fuel s fname data inode last position : Nat} {fd : Fin 8}
  {search name target : List UInt8} {start process : Process} {plain steady : Prop}

/-- The descriptors with the file read up to a position. -/
def readUpTo (fds : Table) (fd : Fin 8) (inode position : Nat) : Table :=
  update fds fd ⟨.file, inode, position, .open⟩

theorem readUpTo_flags {fds : Table} (opened : (fds fd).flags = .open) (inode position : Nat) :
    firstClosed (readUpTo fds fd inode position) = firstClosed fds := by
  refine firstClosed_of_flags fun other => ?_
  unfold readUpTo
  by_cases same : other = fd
  · rw [same, update_self, opened]
  · rw [update_of_ne same]

theorem readUpTo_standard {fds : Table} (standard : StandardOpen fds) (high : 2 ≤ fd.val) (inode position : Nat) :
    StandardOpen (readUpTo fds fd inode position) := by
  intro other low
  have apart : other ≠ fd := by
    rintro rfl
    omega
  rw [readUpTo, update_of_ne apart]
  exact standard other low

/-- One round of the loop over the file. -/
theorem readChunk_returns (considerate : steady → world.Considerate)
    (laid : Laid start.memory s fname data search name) (standard : StandardOpen start.fds)
    (enough : 1026 + search.length + name.length < fuel) (short : name.length < 2 ^ 31) (high : 2 ≤ fd.val)
    (opened : (start.fds fd).flags = .open) (spare : steady → firstClosed start.fds ≠ none)
    (present : inode < image.inodeCount)
    (fits : image.length inode ≤ 1023 * 4096) (inside : position ≤ image.length inode) (limit : last < 1024)
    (sentinel : plain → start.memory (data + 1024) ≠ 10)
    (emptied : Emptied world steady data search name plain ((image.file inode).drop position) target start
      (readUpTo start.fds fd inode position) last process) :
    Returns (Allowed s fname data search name) (fun next => ∃ further, position ≤ further ∧
        further ≤ image.length inode ∧ next.last < 1024 ∧ next.failed = false ∧
        (next.done = false → position < further) ∧ (next.done = true → further = image.length inode ∧ next.last = 0) ∧
        Emptied world steady data search name plain ((image.file inode).drop further) target start
          (readUpTo start.fds fd inode further) next.last next.process)
      (readChunk image world fuel s search.length fname data fd.val ⟨last, false, false, process⟩) := by
  obtain ⟨text, worked, exact⟩ := emptied
  have notStdout : fd ≠ 1 := by
    rintro rfl
    exact absurd high (by decide)
  have here : process.fds fd = ⟨.file, inode, position, .open⟩ := by rw [worked.fds, readUpTo, update_self]
  have room : steady → firstClosed process.fds ≠ none := by rwa [worked.fds, readUpTo_flags opened]
  have size : (1024 - last : Int) = (1024 - last : Nat) := by omega
  simp only [readChunk, size]
  refine (read_returns notStdout here present fits inside (by omega) room).bind ?_
  generalize chunkIs : ((image.file inode).drop position).take (1024 - last) = chunk
  rintro ⟨cnt, after⟩ ⟨rfl, does, table, stored⟩
  have length : chunk.length = min (1024 - last) (image.length inode - position) := by rw [← chunkIs]; simp
  have behind : (image.file inode).drop position = chunk ++ (image.file inode).drop (position + chunk.length) := by
    have split := List.take_append_drop (1024 - last) ((image.file inode).drop position)
    rw [chunkIs, List.drop_drop] at split
    rw [← split]
    rcases Nat.le_total (1024 - last) (image.length inode - position) with full | less
    · rw [length, Nat.min_eq_left full]
    · rw [List.drop_eq_nil_of_le (by simp; omega), List.drop_eq_nil_of_le (by simp; omega)]
  have notFailed : ¬ (chunk.length : Int) = -1 := by omega
  have atEnd : last + chunk.length < 1024 → position + chunk.length = image.length inode := by omega
  have kept : Kept data process.memory after.memory := by
    rw [stored]
    refine kept_written last ?_ _
    rw [List.length_append, List.length_replicate]
    omega
  have begun : Scanned world steady data search name plain ((image.file inode).drop (position + chunk.length)) target start
      (readUpTo start.fds fd inode (position + chunk.length)) (last + chunk.length) 0 after := by
    refine ⟨text, ⟨?_, ?_, worked.kept.trans kept⟩, fun isPlain => ?_⟩
    · have both := worked.does.trans does
      rwa [List.append_nil] at both
    · rw [table, worked.fds, readUpTo, update_idem]
      rfl
    · obtain ⟨carry, carried, total⟩ := exact isPlain
      rw [behind] at carried total
      refine ⟨carry ++ chunk, stored ▸ carried.read (by omega) fun less => ?_, ?_⟩
      · exact List.drop_eq_nil_of_le (by rw [atEnd less]; simp)
      · rw [List.append_assoc]
        exact total
  simp only [if_neg notFailed, Int.toNat_natCast]
  refine (scanLines_returns considerate laid (readUpTo_standard standard high inode _) enough short (by omega)
    (fun spent => by omega) (fun isPlain => Or.inr (sentinel isPlain)) begun).bind
      fun scanning ⟨less, spent, emptied⟩ => returns_pure ?_
  refine ⟨position + chunk.length, Nat.le_add_right _ _, by omega, less, rfl, fun going => ?_, fun done => ?_, emptied⟩
  · have more : ¬ (chunk.length : Int) = 0 := of_decide_eq_false going
    omega
  · have last : (chunk.length : Int) = 0 := of_decide_eq_true done
    exact ⟨by omega, spent last⟩

/-- The loop over the file. -/
theorem readFile_returns (considerate : steady → world.Considerate)
    (laid : Laid start.memory s fname data search name) (standard : StandardOpen start.fds)
    (enough : 1026 + search.length + name.length < fuel) (long : image.length inode + 1 < fuel)
    (short : name.length < 2 ^ 31) (high : 2 ≤ fd.val) (opened : start.fds fd = ⟨.file, inode, 0, .open⟩)
    (spare : steady → firstClosed start.fds ≠ none) (present : inode < image.inodeCount)
    (fits : image.length inode ≤ 1023 * 4096) :
    Returns (Allowed s fname data search name) (fun reading => reading.failed = false ∧ ∃ text,
        Worked world steady data start (readUpTo start.fds fd inode (image.length inode)) reading.process text ∧
          (Plain (image.file inode) ∧ start.memory (data + 1024) ≠ 10 →
            text = matchingLines search name (image.file inode)))
      (whileLoop (fun reading => pure !reading.done) (readChunk image world fuel s search.length fname data fd.val) fuel
        ⟨0, false, false, start⟩) := by
  let plain := Plain (image.file inode) ∧ start.memory (data + 1024) ≠ 10
  let Reached := fun (position : Nat) (reading : Reading) =>
    position ≤ image.length inode ∧ reading.last < 1024 ∧ reading.failed = false ∧
      (reading.done = true → position = image.length inode ∧ reading.last = 0) ∧
      Emptied world steady data search name plain ((image.file inode).drop position)
        (matchingLines search name (image.file inode)) start (readUpTo start.fds fd inode position) reading.last
        reading.process
  have begun : Reached 0 ⟨0, false, false, start⟩ := by
    refine ⟨Nat.zero_le _, Nat.succ_pos _, rfl, nofun, [], ⟨Does.refl world steady start, ?_, Kept.refl data _⟩,
      fun isPlain => ?_⟩
    · rw [readUpTo, ← opened, update_eq_self]
    · exact ⟨[], carried_nil (by rw [List.drop_zero]; exact isPlain.1), by simp⟩
  have placed : ∀ {position reading}, Reached position reading → (reading.process.fds fd).filePosition = position := by
    rintro position reading ⟨_, _, _, _, text, worked, _⟩
    rw [worked.fds, readUpTo, update_self]
  refine returns_while_pure (fun reading : Reading => !reading.done) (fun reading => ∃ position, Reached position reading) _
    (fun reading => if reading.done then 0 else image.length inode + 1 - (reading.process.fds fd).filePosition) ?_ ?_
    ⟨0, begun⟩ ?_
  · rintro ⟨last, done, failed, process⟩ ⟨position, reached⟩ goes
    have place : (process.fds fd).filePosition = position := placed reached
    obtain ⟨inside, limit, succeeded, -, emptied⟩ := reached
    have going : done = false := by simpa using goes
    obtain rfl : failed = false := succeeded
    subst going
    refine (readChunk_returns considerate laid standard enough short high (by rw [opened]) spare present fits inside limit
      (fun isPlain => isPlain.2) emptied).imp fun next ⟨further, _, most, limit', succeeded', goes', ends, emptied'⟩ => ?_
    have reached' : Reached further next := ⟨most, limit', succeeded', ends, emptied'⟩
    refine ⟨⟨further, reached'⟩, ?_⟩
    show (if next.done then 0 else _) < image.length inode + 1 - (process.fds fd).filePosition
    rw [placed reached', place]
    cases ended : next.done with
    | true =>
        rw [if_pos rfl]
        omega
    | false =>
        have more := goes' ended
        rw [if_neg (by decide)]
        omega
  · rintro reading ⟨position, -, -, succeeded, ends, text, worked, exact⟩ stops
    obtain ⟨rfl, empty⟩ := ends (by simpa using stops)
    refine ⟨succeeded, text, worked, fun isPlain => ?_⟩
    obtain ⟨carry, carried, total⟩ := exact isPlain
    obtain rfl : carry = [] := List.eq_nil_of_length_eq_zero (carried.length.trans empty)
    rw [List.drop_eq_nil_of_le (by simp), List.append_nil, matchingLines_nil, List.append_nil] at total
    exact total
  · show image.length inode + 1 - (start.fds fd).filePosition < fuel
    omega

theorem high_of_free {fds : Table} (standard : StandardOpen fds) (free : firstClosed fds = some fd) : 2 ≤ fd.val := by
  refine Nat.le_of_not_lt fun low => ?_
  have closed := (firstClosed_eq_some.mp free).1
  rw [(standard fd low).1] at closed
  cases closed

/-- A regular file that can be opened is searched to its end. -/
theorem doOneFile_returns (considerate : steady → world.Considerate)
    (laid : Laid process.memory s fname data search name) (standard : StandardOpen process.fds)
    (enough : 1026 + search.length + name.length < fuel) (short : name.length < 2 ^ 31) {dentry : Dentry}
    (long : image.length dentry.inodeNum + 1 < fuel)
    (found : image.readDentryByName ⟨process.memory (fname - 1), name, laid.file.noNul⟩
      (world.residue process.calls).dentry = .found dentry)
    (regular : dentry.filetype = 2) (free : firstClosed process.fds = some fd)
    (slot : HasSlot (process.meets world).files (world.residue process.calls))
    (spare : steady → firstClosed (readUpTo process.fds fd dentry.inodeNum 0) ≠ none)
    (present : dentry.inodeNum < image.inodeCount) (fits : image.length dentry.inodeNum ≤ 1023 * 4096) :
    Returns (Allowed s fname data search name) (fun answer => answer.1 = 0 ∧ ∃ text,
        Worked world steady data process
          (update process.fds fd ⟨.file, dentry.inodeNum, image.length dentry.inodeNum, .close⟩) answer.2 text ∧
          (Plain (image.file dentry.inodeNum) ∧ process.memory (data + 1024) ≠ 10 →
            text = matchingLines search name (image.file dentry.inodeNum)))
      (doOneFile image world fuel s fname data process) := by
  have high := high_of_free standard free
  refine (strlen_returns laid.pattern (by omega) fun address inside => Or.inr (Or.inl inside)).bind ?_
  rintro _ rfl
  refine (open_returns considerate _ (stringArgument_of_stringAt laid.file (by omega)) found (by omega) free
    (Or.inr slot)).bind ?_
  rintro ⟨ret, opened⟩ ⟨rfl, does, table, memory⟩
  have succeeded : ¬ (fd.val : Int) = -1 := by omega
  rw [regular] at table
  have read : opened.fds = readUpTo process.fds fd dentry.inodeNum 0 := table
  have descriptor : opened.fds fd = ⟨.file, dentry.inodeNum, 0, .open⟩ := by rw [read, readUpTo, update_self]
  simp only [if_neg succeeded]
  refine (readFile_returns considerate (memory.symm ▸ laid) (read ▸ readUpTo_standard standard high _ _) enough
    long short high descriptor (by rwa [read]) present fits).bind ?_
  rintro reading ⟨succeeded', text, worked, exact⟩
  have onFile : reading.process.fds fd = ⟨.file, dentry.inodeNum, image.length dentry.inodeNum, .open⟩ := by
    rw [worked.fds, readUpTo, update_self]
  simp only [succeeded']
  refine (close_returns considerate high (by rw [onFile]) (by rw [onFile]; exact Or.inr (Or.inr rfl))).bind ?_
  rintro ⟨closed, after⟩ ⟨rfl, does', table', memory'⟩
  refine returns_pure ⟨rfl, text, ⟨?_, ?_, ?_⟩, ?_⟩
  · have all := (does.trans worked.does).trans does'
    rwa [List.nil_append, List.append_nil] at all
  · rw [table', onFile, worked.fds, read, readUpTo, readUpTo, update_idem, update_idem]
  · rw [memory', ← memory]
    exact worked.kept
  · rw [← memory]
    exact exact

/-- The RTC has nothing to search: its read returns 0. -/
theorem doOneFile_rtc_returns (considerate : steady → world.Considerate)
    (laid : Laid process.memory s fname data search name) (standard : StandardOpen process.fds)
    (enough : 1026 + search.length + name.length < fuel) (short : name.length < 2 ^ 31) {dentry : Dentry}
    (found : image.readDentryByName ⟨process.memory (fname - 1), name, laid.file.noNul⟩
      (world.residue process.calls).dentry = .found dentry)
    (rtc : dentry.filetype = 0) (free : firstClosed process.fds = some fd)
    (spare : steady → firstClosed (update process.fds fd ⟨.rtc, dentry.inodeNum, 0, .open⟩) ≠ none) :
    Returns (Allowed s fname data search name) (fun answer => answer.1 = 0 ∧
        Worked world steady data process (update process.fds fd ⟨.rtc, dentry.inodeNum, 0, .close⟩) answer.2 [])
      (doOneFile image world fuel s fname data process) := by
  have high := high_of_free standard free
  have notStdout : fd ≠ 1 := by
    rintro rfl
    exact absurd high (by decide)
  refine (strlen_returns laid.pattern (by omega) fun address inside => Or.inr (Or.inl inside)).bind ?_
  rintro _ rfl
  refine (open_returns considerate _ (stringArgument_of_stringAt laid.file (by omega)) found (by omega) free
    (Or.inl rtc)).bind ?_
  rintro ⟨ret, opened⟩ ⟨rfl, does, table, memory⟩
  have succeeded : ¬ (fd.val : Int) = -1 := by omega
  rw [rtc] at table
  have descriptor : opened.fds fd = ⟨.rtc, dentry.inodeNum, 0, .open⟩ := by
    rw [table, update_self]
    rfl
  have standard' : StandardOpen opened.fds := by
    intro other low
    have apart : other ≠ fd := by
      rintro rfl
      omega
    rw [table, update_of_ne apart]
    exact standard other low
  simp only [if_neg succeeded]
  let Read := fun reading : Reading =>
    reading.failed = false ∧ Worked world steady data opened opened.fds reading.process []
  refine (returns_while_pure (fun reading : Reading => !reading.done)
    (fun reading => reading = ⟨0, false, false, opened⟩ ∨ reading.done = true ∧ Read reading) Read
    (fun reading => if reading.done then 0 else 1) ?_ ?_ (Or.inl rfl) ?_).bind ?_
  · rintro reading (rfl | ⟨done, -⟩) goes
    · have size : (1024 - (0 : Nat) : Int) = (1024 : Nat) := by omega
      simp only [readChunk, size]
      refine (readRtc_returns notStdout descriptor (by decide) (by rw [table]; exact spare)).bind ?_
      rintro ⟨cnt, after⟩ ⟨rfl, does', table', memory'⟩
      have begun : Scanned world steady data search name True [] [] opened opened.fds 0 0 after := by
        refine ⟨[], ⟨does', table', memory'.symm ▸ Kept.refl data _⟩, fun _ => ⟨[], ⟨rfl, nofun, ?_, fun _ => rfl⟩, ?_⟩⟩
        · exact ⟨List.not_mem_nil, fun line member => by
            rw [List.append_nil, linesOf_line List.not_mem_nil, List.mem_singleton] at member
            exact member ▸ Nat.zero_le 1024⟩
        · exact matchingLines_nil search name
      refine (scanLines_returns considerate (memory.symm ▸ laid) standard' enough short (Nat.zero_le _)
        (fun _ => by decide) (fun _ => Or.inl rfl) begun).bind fun scanning ⟨_, spent, text, worked, exact⟩ => ?_
      obtain ⟨carry, carried, total⟩ := exact trivial
      obtain rfl : text = [] := (List.append_eq_nil_iff.mp total).1
      exact returns_pure ⟨Or.inr ⟨rfl, rfl, worked⟩, Nat.one_pos⟩
    · rw [done] at goes
      cases goes
  · rintro reading (rfl | ⟨-, read⟩) stops
    · cases stops
    · exact read
  · show 1 < fuel
    omega
  rintro reading ⟨succeeded', worked⟩
  have onRtc : reading.process.fds fd = ⟨.rtc, dentry.inodeNum, 0, .open⟩ := by rw [worked.fds, descriptor]
  simp only [succeeded']
  refine (close_returns considerate high (by rw [onRtc]) (by rw [onRtc]; exact Or.inl rfl)).bind ?_
  rintro ⟨closed, after⟩ ⟨rfl, does', table', memory'⟩
  refine returns_pure ⟨rfl, (does.trans worked.does).trans does', ?_, ?_⟩
  · rw [table', onRtc, worked.fds, table, update_idem]
  · rw [memory', ← memory]
    exact worked.kept

/-- `do_one_file` on a regular file that can be opened: it returns 0 with the file closed again, touches only its
buffer and the two strings, and of a text whose lines fit the buffer it prints exactly the lines with the string, if the
byte behind the last one it reads into, which it never sets, is no newline. -/
theorem grep_searches_file (laid : Laid process.memory s fname data search name) (standard : StandardOpen process.fds)
    (enough : 1026 + search.length + name.length < fuel) (short : name.length < 2 ^ 31) {dentry : Dentry}
    (long : image.length dentry.inodeNum + 1 < fuel)
    (found : image.readDentryByName ⟨process.memory (fname - 1), name, laid.file.noNul⟩
      (world.residue process.calls).dentry = .found dentry)
    (regular : dentry.filetype = 2) (free : firstClosed process.fds = some fd)
    (slot : HasSlot (process.meets world).files (world.residue process.calls))
    (present : dentry.inodeNum < image.inodeCount) (fits : image.length dentry.inodeNum ≤ 1023 * 4096) :
    Returns (Allowed s fname data search name) (fun answer => answer.1 = 0 ∧
        answer.2.fds = update process.fds fd ⟨.file, dentry.inodeNum, image.length dentry.inodeNum, .close⟩ ∧
        (∀ address, ¬ Within data 1025 address → answer.2.memory address = process.memory address) ∧
        (Plain (image.file dentry.inodeNum) → process.memory (data + 1024) ≠ 10 →
          answer.2.printed = process.printed ++ matchingLines search name (image.file dentry.inodeNum)))
      (doOneFile image world fuel s fname data process) := by
  refine (doOneFile_returns False.elim laid standard enough short long found regular free slot False.elim present
    fits).imp ?_
  rintro ⟨status, after⟩ ⟨returned, text, worked, exact⟩
  refine ⟨returned, worked.fds, worked.kept.outside, fun isPlain sentinel => ?_⟩
  rw [worked.does.printed, exact ⟨isPlain, sentinel⟩]

/-- Memory with two strings, at 0 and at 100. -/
def twoStrings (first second : List UInt8) : Memory := fun address =>
  if address < 100 then first.getD address 0 else second.getD (address - 100) 0

theorem grep_searches_frame0 :
    let process := { Process.started "grep" with
      memory := twoStrings (ascii ['e', 'l', 'l']) (ascii ['f', 'r', 'a', 'm', 'e', '0']) }
    Returns (Allowed 0 100 200 (ascii ['e', 'l', 'l']) (ascii ['f', 'r', 'a', 'm', 'e', '0'])) (fun answer =>
        answer.1 = 0 ∧ answer.2.fds = update process.fds 2 ⟨.file, 2, 5, .close⟩ ∧
        (∀ address, ¬ Within 200 1025 address → answer.2.memory address = process.memory address) ∧
        (Plain (Image.sample.file 2) → process.memory (200 + 1024) ≠ 10 →
          answer.2.printed = process.printed ++ matchingLines (ascii ['e', 'l', 'l'])
            (ascii ['f', 'r', 'a', 'm', 'e', '0']) (Image.sample.file 2)))
      (doOneFile Image.sample World.quiet 2000 0 100 200 process) := by
  have laid : Laid (twoStrings (ascii ['e', 'l', 'l']) (ascii ['f', 'r', 'a', 'm', 'e', '0'])) 0 100 200
      (ascii ['e', 'l', 'l']) (ascii ['f', 'r', 'a', 'm', 'e', '0']) :=
    ⟨⟨by decide, by decide, by decide⟩, ⟨by decide, by decide, by decide⟩, Or.inr (by decide), Or.inr (by decide)⟩
  have entry : Image.sample.entryNamed Image.frame0 = some 3 := by decide +kernel
  have length : Image.sample.length 2 = 5 := by decide +kernel
  rcases Image.sample.readDentryByName_cases Image.sample_wellFormed ⟨0, _, laid.file.noNul⟩ Residue.zeros.dentry with
    ⟨missing, -⟩ | ⟨index, copied, named, found, sameType, sameInode, -⟩
  · cases entry.symm.trans missing
  · obtain rfl : 3 = index := Option.some.inj (entry.symm.trans named)
    have inode : copied.inodeNum = 2 := sameInode.trans (by decide +kernel)
    refine Returns.imp (grep_searches_file laid (initFds_standardOpen unusedTable) (by decide) (by decide)
      (by rw [inode, length]; decide) found (sameType.trans (by decide +kernel)) (firstClosed_initFds unusedTable)
      (Or.inl (room_started "grep")) (by rw [inode]; decide +kernel) (by rw [inode, length]; decide)) ?_
    rw [inode, length]
    exact fun answer searched => searched

end

end LinuxLikeOS.Programs
