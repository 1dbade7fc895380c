import LinuxLikeOS.Numbers
import LinuxLikeOS.ShellProgram

/-!
# The counter (`ece391counter.c`)

The program asks for one of three limits and counts up to it. Each number is converted in the buffer that the answer
was read into.
-/

namespace LinuxLikeOS.Programs

open Function Blocks Fueled LinuxLikeOS.Task LinuxLikeOS.ProcessTable LinuxLikeOS.DescriptorRefinement
open Numbers (Ends Conversion exchange storeDigit numeral digitChar)

def ece391Strrev (fuel s : Nat) (memory : Memory) : Fueled Nat Memory := do
  let len ← ece391Strlen fuel s memory
  let last : Int := len - 1
  if last ≤ 0 then pure memory
  else do
    let ends ← whileLoop (fun ends => pure (decide (ends.beg < ends.last))) (exchange s) fuel ⟨0, last, memory⟩
    pure ends.memory

def ece391Itoa (fuel value buf radix : Nat) (memory : Memory) : Fueled Nat Memory := do
  if value = 0 then do
    access buf
    access (buf + 1)
    pure (update (update memory buf 48) (buf + 1) 0)
  else do
    let conversion ← whileLoop (fun conversion => pure (decide (conversion.newval > 0))) (storeDigit radix) fuel
      ⟨value, buf, memory⟩
    access conversion.newbuf
    ece391Strrev fuel buf (update conversion.memory conversion.newbuf 0)

/-- The variables of the loop. -/
structure Counting where
  i : Nat
  process : Process

/-- The program with the line it has read, and what it has returned. -/
structure Counted where
  process : Process
  typed : Option (List UInt8)
  returned : Int

section

variable (image : Image) (world : World) (outside : Outside) (fuel buf : Nat)

def wrongChoice (memory : Memory) : Fueled Nat Bool := do
  let len ← ece391Strlen fuel buf memory
  if len > 2 then pure true
  else do
    let len ← ece391Strlen fuel buf memory
    if len = 2 then do
      access buf
      if memory buf < 48 then pure true
      else do
        access buf
        pure (decide (memory buf > 50))
    else pure false

/-- The limit for the first character of the answer. -/
def limitOf (choice : UInt8) : Nat :=
  if choice = 48 then 100 else if choice = 49 then 10000 else if choice = 50 then 100000 else 0

def countNext (counting : Counting) : Fueled Nat Counting := do
  let memory ← ece391Itoa fuel (counting.i + 1) buf 10 counting.process.memory
  let process ← ece391Fdputs image world fuel 1 buf { counting.process with memory := memory }
  let process ← fdputsLiteral image world 1 (ascii "\n".toList) process
  pure ⟨counting.i + 1, process⟩

def question : List UInt8 :=
  ascii "Enter the Test Number: (0): 100, (1): 10000, (2): 100000\n".toList

/-- The part of `main` after the line has been read. -/
def answerLine (line : List UInt8) (process : Process) : Fueled Nat Counted := do
  let wrong ← wrongChoice fuel buf process.memory
  if wrong then do
    let process ← fdputsLiteral image world 1 (ascii "Wrong Choice!\n".toList) process
    pure ⟨process, some line, 0⟩
  else do
    access buf
    let counting ← whileLoop (fun counting => pure (decide (counting.i < limitOf (process.memory buf))))
      (countNext image world fuel buf) fuel ⟨0, process⟩
    pure ⟨counting.process, some line, 0⟩

def counterMain (process : Process) : Fueled Nat Counted := do
  let process ← fdputsLiteral image world 1 question process
  let line := process.awaited world outside 0
  let (cnt, process) ← ece391ReadWaiting image world outside buf 0 0 1023 process
  if cnt = -1 then do
    let process ← fdputsLiteral image world 1 (ascii "Can't read the number from keyboard.\n".toList) process
    pure ⟨process, none, 3⟩
  else do
    access (buf + cnt.toNat)
    answerLine image world fuel buf line { process with memory := update process.memory (buf + cnt.toNat) 0 }

end

/-! ## What it is to print -/

/-- An answer is one character and a newline; what is shorter counts as well, and what is longer does not. -/
def Refused (answer : List UInt8) : Prop :=
  2 < answer.length ∨ answer.length = 2 ∧ ¬ (48 ≤ answer.headD 0 ∧ answer.headD 0 ≤ 50)

instance : DecidablePred Refused := fun answer =>
  inferInstanceAs (Decidable (2 < answer.length ∨ answer.length = 2 ∧ ¬ (48 ≤ answer.headD 0 ∧ answer.headD 0 ≤ 50)))

/-- The numbers from 1 on, each on a line. -/
def counts (limit : Nat) : List UInt8 := (List.range limit).flatMap fun i => numeral 10 (i + 1) ++ [10]

def reply (line : List UInt8) : List UInt8 :=
  let answer := line.takeWhile (· != 0)
  if Refused answer then ascii "Wrong Choice!\n".toList else counts (limitOf (answer.headD 0))

/-! ## Numbers -/

section

variable {memory : Memory} {s buf fuel value radix : Nat} {text : List UInt8} {P : Nat → Prop}

theorem written_string (string : StringAt memory s text) : written memory s text = memory := by
  funext address
  by_cases inside : Within s text.length address
  · obtain ⟨i, less, rfl⟩ := inside.exists_add
    rw [written_inside memory less, string.chars i less]
  · exact written_outside memory inside

/-- The guard in front of the loop saves nothing but its only test. -/
theorem ece391Strrev_returns (string : StringAt memory s text) (enough : text.length < fuel)
    (readable : ∀ address, Within s (text.length + 1) address → P address) :
    Returns P (fun after => after = written memory s text.reverse) (ece391Strrev fuel s memory) := by
  refine (strlen_returns string enough readable).bind ?_
  rintro _ rfl
  by_cases short : (text.length : Int) - 1 ≤ 0
  · have single : text.reverse = text := by
      match text with
      | [] | [_] => rfl
      | _ :: _ :: _ => simp only [List.length_cons] at short; omega
    rw [if_pos short, single, written_string string]
    exact returns_pure rfl
  · rw [if_neg short]
    obtain ⟨-, _, ends, rfl⟩ := Numbers.strlen_returns string enough (P := P)
    refine ((Numbers.strrev_returns string enough).rest ends).mono fun address inside => readable address ?_
    exact ⟨inside.1, by have := inside.2; omega⟩

theorem ece391Itoa_returns (least : 2 ≤ radix) (most : radix ≤ 36) (enough : (numeral radix value).length < fuel)
    (readable : ∀ address, Within buf ((numeral radix value).length + 1) address → P address) :
    Returns P (fun after => after = written memory buf (numeral radix value ++ [0]))
      (ece391Itoa fuel value buf radix memory) := by
  have plain : Returns (Within buf ((numeral radix value).length + 1))
      (fun after => after = written memory buf (numeral radix value ++ [0]))
      (Numbers.itoa fuel value buf radix memory) := Numbers.itoa_returns least most enough
  unfold ece391Itoa
  unfold Numbers.itoa at plain
  by_cases zero : value = 0
  · rw [if_pos zero] at plain ⊢
    exact plain.mono readable
  · have text : numeral radix value = ((Nat.digits radix value).map digitChar).reverse := if_neg zero
    have length : (numeral radix value).length = (Nat.digits radix value).length := by
      rw [text, List.length_reverse, List.length_map]
    have noNul : 0 ∉ (Nat.digits radix value).map digitChar := by
      rw [← List.mem_reverse, ← text]
      exact Numbers.numeral_noNul least most
    rw [if_neg zero]
    refine ((Numbers.storeDigits_returns memory least most (length ▸ enough)).mono fun address inside => ?_).bind ?_
    · exact readable address ⟨inside.1, by have := inside.2; omega⟩
    · rintro ⟨newval, _, _⟩ ⟨rfl, rfl⟩
      refine returns_access_bind (readable _ (within_add buf (by omega))) ?_
      have terminated := written_concat memory buf ((Nat.digits radix value).map digitChar) 0
      rw [List.length_map] at terminated
      simp only [terminated]
      refine (ece391Strrev_returns (Numbers.stringAt_written memory buf noNul) ?_ fun address inside => ?_).imp ?_
      · rw [List.length_map, ← length]
        exact enough
      · rw [List.length_map, ← length] at inside
        exact readable address inside
      · rintro _ rfl
        rw [written_front _ _ _ (by simp), ← text]

end

/-! ## The program -/

section

variable {image : Image} {world : World} {outside : Outside} {fuel buf : Nat} {start process : Process}
  {P : Nat → Prop} {answer : List UInt8}

theorem wrongChoice_returns {memory : Memory} (string : StringAt memory buf answer) (enough : answer.length < fuel)
    (readable : ∀ address, Within buf (answer.length + 1) address → P address) :
    Returns P (fun wrong => wrong = decide (Refused answer)) (wrongChoice fuel buf memory) := by
  unfold wrongChoice Refused
  refine (strlen_returns string enough readable).bind ?_
  rintro _ rfl
  by_cases long : answer.length > 2
  · rw [if_pos long]
    exact returns_pure (decide_eq_true (Or.inl long)).symm
  · rw [if_neg long]
    refine (strlen_returns string enough readable).bind ?_
    rintro _ rfl
    by_cases two : answer.length = 2
    · rw [if_pos two, string.first]
      refine returns_access_bind (readable buf ⟨Nat.le_refl _, by omega⟩) ?_
      by_cases low : answer.headD 0 < 48
      · rw [if_pos low]
        exact returns_pure (decide_eq_true (Or.inr ⟨two, fun both => UInt8.not_lt.mpr both.1 low⟩)).symm
      · rw [if_neg low]
        refine returns_access_bind (readable buf ⟨Nat.le_refl _, by omega⟩) (returns_pure (decide_eq_decide.mpr ?_))
        constructor
        · exact fun high => Or.inr ⟨two, fun both => UInt8.not_lt.mpr both.2 high⟩
        · rintro (longer | ⟨-, apart⟩)
          · exact absurd longer long
          · exact UInt8.not_le.mp fun most => apart ⟨UInt8.not_lt.mp low, most⟩
    · rw [if_neg two]
      refine returns_pure (decide_eq_false ?_).symm
      rintro (longer | ⟨same, -⟩)
      · exact long longer
      · exact two same

/-- The program has counted up to `i`. -/
structure CountedTo (world : World) (buf : Nat) (start : Process) (i : Nat) (process : Process) : Prop where
  printed : process.printed = start.printed ++ counts i
  standard : StandardOpen process.fds
  memory : ∀ address, ¬ Within buf 1024 address → process.memory address = start.memory address

theorem counts_succ (i : Nat) : counts (i + 1) = counts i ++ (numeral 10 (i + 1) ++ [10]) := by
  rw [counts, List.range_succ, List.flatMap_append, List.flatMap_singleton]
  rfl

theorem countNext_returns {counting : Counting} (counted : CountedTo world buf start counting.i counting.process)
    (small : counting.i < 100000) (enough : 6 < fuel) (readable : ∀ address, Within buf 1024 address → P address) :
    Returns P (fun next => next.i = counting.i + 1 ∧ CountedTo world buf start next.i next.process)
      (countNext image world fuel buf counting) := by
  have short : (numeral 10 (counting.i + 1)).length ≤ 6 := Numbers.numeral_length_le (by decide) (by decide) (by omega)
  have noNul : 0 ∉ numeral 10 (counting.i + 1) := Numbers.numeral_noNul (by decide) (by decide)
  refine (ece391Itoa_returns (by decide) (by decide) (by omega) fun address inside => readable address ?_).bind ?_
  · exact ⟨inside.1, by have := inside.2; omega⟩
  rintro _ rfl
  generalize convertedIs : ({ counting.process with
    memory := written counting.process.memory buf (numeral 10 (counting.i + 1) ++ [0]) } : Process) = converted
  have string : StringAt converted.memory buf (numeral 10 (counting.i + 1)) :=
    convertedIs ▸ Numbers.stringAt_written counting.process.memory buf noNul
  have standard : StandardOpen converted.fds := convertedIs ▸ counted.standard
  refine (fdputs_returns False.elim standard string (by omega) (by omega)
    fun address inside => readable address ?_).bind fun number prints => ?_
  · exact ⟨inside.1, by have := inside.2; omega⟩
  refine (fdputsLiteral_returns False.elim (prints.fds.symm ▸ standard) (by decide)).bind fun after ends => ?_
  refine returns_pure ⟨rfl, ?_, ?_, fun address away => ?_⟩
  · have before : converted.printed = start.printed ++ counts counting.i := convertedIs ▸ counted.printed
    rw [ends.printed, prints.printed, before, counts_succ, List.append_assoc, List.append_assoc]
    rfl
  · rw [ends.fds, prints.fds]
    exact standard
  · have stored : converted.memory = written counting.process.memory buf (numeral 10 (counting.i + 1) ++ [0]) :=
      convertedIs ▸ rfl
    rw [ends.memory, prints.memory, stored, written_outside, counted.memory address away]
    intro inside
    rw [List.length_append] at inside
    exact away ⟨inside.1, by have := inside.2; simp at this; omega⟩

theorem limitOf_le (choice : UInt8) : limitOf choice ≤ 100000 := by
  unfold limitOf
  split_ifs <;> decide

theorem answerLine_returns {line : List UInt8} (string : StringAt process.memory buf (line.takeWhile (· != 0)))
    (short : line.length ≤ 128) (standard : StandardOpen process.fds) (enough : 100000 < fuel) :
    Returns (Within buf 1024)
      (fun counted => counted.typed = some line ∧ counted.returned = 0 ∧
        counted.process.printed = process.printed ++ reply line ∧
        ∀ address, ¬ Within buf 1024 address → counted.process.memory address = process.memory address)
      (answerLine image world fuel buf line process) := by
  have answerShort : (line.takeWhile (· != 0)).length ≤ 128 := (List.takeWhile_prefix _).length_le.trans short
  refine (wrongChoice_returns string (by omega) fun address inside => ?_).bind ?_
  · have last := inside.2
    exact ⟨inside.1, by omega⟩
  rintro _ rfl
  by_cases refused : Refused (line.takeWhile (· != 0))
  · rw [if_pos (decide_eq_true refused)]
    refine (fdputsLiteral_returns False.elim standard (by decide)).bind fun last complains => returns_pure ?_
    refine ⟨rfl, rfl, ?_, fun address _ => congrFun complains.memory address⟩
    rw [complains.printed, reply, if_pos refused]
  · rw [if_neg (by simpa using refused), string.first]
    refine returns_access_bind ⟨Nat.le_refl _, by omega⟩ ?_
    generalize limitIs : limitOf ((line.takeWhile (· != 0)).headD 0) = limit
    have most : limit ≤ 100000 := limitIs ▸ limitOf_le _
    refine (returns_while_pure (fun counting : Counting => decide (counting.i < limit))
      (fun counting => counting.i ≤ limit ∧ CountedTo world buf process counting.i counting.process)
      (fun counting => CountedTo world buf process limit counting.process) (fun counting => limit - counting.i)
      ?_ ?_ ⟨Nat.zero_le _, ?_⟩ (by omega)).bind fun counting counted => returns_pure ?_
    · rintro counting ⟨-, counted⟩ goes
      have before : counting.i < limit := of_decide_eq_true goes
      refine (countNext_returns counted (by omega) (by omega) fun _ inside => inside).imp ?_
      rintro next ⟨same, counted⟩
      rw [same] at counted ⊢
      exact ⟨⟨before, counted⟩, by omega⟩
    · rintro counting ⟨inside, counted⟩ stops
      have last : ¬ counting.i < limit := of_decide_eq_false stops
      exact Nat.le_antisymm inside (Nat.le_of_not_lt last) ▸ counted
    · exact ⟨(List.append_nil _).symm, standard, fun _ _ => rfl⟩
    · refine ⟨rfl, rfl, ?_, counted.memory⟩
      rw [counted.printed, reply, if_neg refused, limitIs]

/-- Whatever line is read, the program prints what its answer calls for: the numbers up to the limit, in decimal and
each on a line, or that the choice is wrong. It stays in its buffer. -/
theorem counter_counts (kept : outside.Standard) (standard : StandardOpen start.fds) (enough : 100000 < fuel) :
    Returns (Within buf 1024)
      (fun counted => ∃ line, counted.typed = some line ∧ counted.returned = 0 ∧
        counted.process.printed = start.printed ++ question ++ reply line ∧
        ∀ address, ¬ Within buf 1024 address → counted.process.memory address = start.memory address)
      (counterMain image world outside fuel buf start) := by
  have asks : Returns (Within buf 1024) (fun asked => Prints world False start asked question)
      (fdputsLiteral image world 1 question start) := fdputsLiteral_returns False.elim standard (by decide)
  refine asks.bind fun asked asks => ?_
  refine (readWaiting_returns kept (asks.fds.symm ▸ standard)).bind ?_
  have short : (asked.awaited world outside 0).length ≤ 128 := length_awaited _ _
  generalize asked.awaited world outside 0 = line at short ⊢
  rintro ⟨cnt, after⟩ ⟨rfl, printed, standard, stored, -⟩
  have notFailed : ¬ (line.length : Int) = -1 := by omega
  simp only [if_neg notFailed, Int.toNat_natCast]
  refine returns_access_bind (within_add buf (by omega)) ?_
  have string : StringAt (update after.memory (buf + line.length) 0) buf (line.takeWhile (· != 0)) := by
    refine stringAt_takeWhile (fun i inside => ?_) (update_self ..)
    rw [update_of_ne (by omega), stored, written_inside _ (by rw [List.length_append]; omega),
      List.getElem_append_left inside]
  have ended : StringAt ({ after with memory := update after.memory (buf + line.length) 0 } : Process).memory buf
      (line.takeWhile (· != 0)) := string
  refine (answerLine_returns ended short standard enough).imp ?_
  rintro counted ⟨typed, returned, replied, same⟩
  refine ⟨line, typed, returned, ?_, fun address apart => (same address apart).trans ?_⟩
  · rw [replied]
    exact congrArg (· ++ reply line) (printed.trans asks.printed)
  · show update after.memory (buf + line.length) 0 address = _
    rw [update_of_ne ?_, stored, written_outside, asks.memory]
    · intro within
      rw [List.length_append, List.length_replicate] at within
      exact apart ⟨within.1, by have := within.2; omega⟩
    · rintro rfl
      exact apart (within_add buf (by omega))

end

example : reply (ascii "0\n".toList) = counts 100 := rfl

theorem counter_counts_sample :
    Returns (Within 0 1024)
      (fun counted => ∃ line, counted.typed = some line ∧ counted.returned = 0 ∧
        counted.process.printed = (Process.started "counter").printed ++ question ++ reply line ∧
        ∀ address, ¬ Within 0 1024 address → counted.process.memory address = (Process.started "counter").memory address)
      (counterMain Image.sample World.quiet (Outside.always "0\n") 100001 0 (Process.started "counter")) :=
  counter_counts (fun _ _ standard => standard) (initFds_standardOpen _) (by decide)

end LinuxLikeOS.Programs
