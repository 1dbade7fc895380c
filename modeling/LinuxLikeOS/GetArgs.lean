import LinuxLikeOS.CommandLine

/-!
# What `getargs` gives away

`getargs` over the bytes of its stack: `command_buffer[128]` and `args[128]` hold whatever was
there before the call, and so does the memory behind them. The loops run over the bytes by index.
-/

namespace LinuxLikeOS

namespace GetArgs

open Kernel CommandLine

/-- The stack before the call, from `command_buffer` on and from `args` on. -/
structure Stack where
  commandBuffer : Memory
  args : Memory

/-- The first loop, with the NUL among the next `fuel` bytes: `i` behind it. -/
def findLoop (commandBuffer : Memory) (flag1 flag2 : Bool) (i : Nat) : Nat → Option Nat
  | 0 => none
  | fuel + 1 =>
      let c := commandBuffer i
      if c = 0 then some i
      else
        let flag1 := if c ≠ 32 then true else flag1
        let flag2 := if c = 32 ∧ flag1 then true else flag2
        if c ≠ 32 ∧ flag2 then some i else findLoop commandBuffer flag1 flag2 (i + 1) fuel

/-- The second loop: `args` behind it. -/
def copyLoop (commandBuffer : Memory) (argOffset i : Nat) (args : Memory) : Nat → Option Memory
  | 0 => none
  | fuel + 1 =>
      let c := commandBuffer i
      if c = 0 then some args
      else copyLoop commandBuffer argOffset (i + 1) ((Writes.put (i - argOffset) c).apply args) fuel

/-- `getargs` of a process with this `arg_buff`; `none` where a string runs past its 128 bytes. -/
def getargs (argBuff : List UInt8) (buf : Task.Buffer) (nbytes : Int32) (stack : Stack) :
    Option Result :=
  match buf with
  | none => some (.plain (-1))
  | some _ =>
      if nbytes.toInt < 1 then some (.plain (-1))
      else do
        let command := (commandBuffer argBuff).apply stack.commandBuffer
        let argOffset ← findLoop command false false 0 128
        let args ← copyLoop command argOffset argOffset ((Writes.fill 128 0).apply stack.args) 128
        let length ← firstNul args 128
        if ¬ length ≤ nbytes.toInt ∨ length < 1 then some (.plain (-1))
        else some ⟨0, .copy args nbytes.toInt.toNat⟩

/-- What a caller may rely on. -/
structure Delivers (arguments : List UInt8) (nbytes : Int) (result : Result) : Prop where
  succeeds_iff : result.ret = 0 ↔ arguments ≠ [] ∧ (arguments.length : Int) + 1 ≤ nbytes
  stored : result.ret = 0 → ∀ i ≤ arguments.length, result.writes i = some (arguments.getD i 0)
  inside : result.writes.Within nbytes.toNat
  untouched : result.ret ≠ 0 → result.ret = -1 ∧ result.writes = .nothing

/-- The arguments are returned, and nothing that was on the stack. -/
structure ReturnsArguments (argBuff : List UInt8) (nbytes : Int32) : Prop where
  delivers : ∀ buf stack, ∃ result, getargs argBuff (some buf) nbytes stack = some result ∧
    Delivers (arguments argBuff) nbytes.toInt result
  independent : ∀ buf first second,
    getargs argBuff (some buf) nbytes first = getargs argBuff (some buf) nbytes second

/-- The condition: no arguments, or they do not fit even without a NUL, or they fit with it and the
buffer is no longer than `args`. -/
def Fits (argBuff : List UInt8) (nbytes : Int) : Prop :=
  arguments argBuff = [] ∨ nbytes < (arguments argBuff).length ∨
    ((arguments argBuff).length < nbytes ∧ nbytes ≤ 128)

/-! ## The loops -/

/-- The string stands at this index. -/
def StringAt (memory : Memory) (i : Nat) (text : List UInt8) : Prop :=
  IsString (fun k => memory (i + k)) text

theorem StringAt.end {memory : Memory} {i : Nat} (string : StringAt memory i []) : memory i = 0 :=
  string.2 0 (Nat.le_refl 0)

theorem StringAt.cons {memory : Memory} {i : Nat} {c : UInt8} {rest : List UInt8}
    (string : StringAt memory i (c :: rest)) : memory i = c ∧ c ≠ 0 ∧ StringAt memory (i + 1) rest := by
  obtain ⟨noNul, bytes⟩ := string
  refine ⟨bytes 0 (Nat.zero_le _), fun nul => noNul (nul ▸ List.mem_cons_self),
    fun member => noNul (List.mem_cons_of_mem c member), fun k inside => ?_⟩
  have next := bytes (k + 1) (Nat.succ_le_succ inside)
  rw [List.getD_cons_succ] at next
  dsimp only at next ⊢
  rw [← next, Nat.add_assoc, Nat.add_comm 1 k]

/-- The first loop stops where the list version does. -/
theorem findLoop_eq (flag1 flag2 : Bool) {memory : Memory} {text : List UInt8} {i fuel : Nat}
    (string : StringAt memory i text) (enough : text.length < fuel) :
    ∃ argOffset, findLoop memory flag1 flag2 i fuel = some argOffset ∧
      StringAt memory argOffset (findArgs flag1 flag2 text) := by
  induction text generalizing flag1 flag2 i fuel with
  | nil =>
      obtain ⟨fuel, rfl⟩ := Nat.exists_eq_succ_of_ne_zero (Nat.ne_of_gt enough)
      exact ⟨i, by simp [findLoop, string.end], string⟩
  | cons c rest ih =>
      obtain ⟨fuel, rfl⟩ := Nat.exists_eq_succ_of_ne_zero (Nat.ne_zero_of_lt enough)
      obtain ⟨byte, notNul, tail⟩ := string.cons
      unfold findLoop findArgs
      simp only [byte, if_neg notNul]
      by_cases stop : c ≠ 32 ∧
          (if c = 32 ∧ (if c ≠ 32 then true else flag1) = true then true else flag2) = true
      · rw [if_pos stop, if_pos stop]
        exact ⟨i, rfl, string⟩
      · rw [if_neg stop, if_neg stop]
        exact ih _ _ tail (Nat.lt_of_succ_lt_succ enough)

/-- The second loop stores the string up to its NUL. -/
theorem copyLoop_eq {memory : Memory} {text : List UInt8} {argOffset i fuel : Nat} {args : Memory}
    (string : StringAt memory i text) (enough : text.length < fuel) (behind : argOffset ≤ i) :
    copyLoop memory argOffset i args fuel = some ((Writes.bytes (i - argOffset) text).apply args) := by
  induction text generalizing i fuel args with
  | nil =>
      obtain ⟨fuel, rfl⟩ := Nat.exists_eq_succ_of_ne_zero (Nat.ne_of_gt enough)
      have same : (Writes.bytes (i - argOffset) []).apply args = args := by
        funext index
        simp [Writes.apply, Writes.bytes]
      simp [copyLoop, string.end, same]
  | cons c rest ih =>
      obtain ⟨fuel, rfl⟩ := Nat.exists_eq_succ_of_ne_zero (Nat.ne_zero_of_lt enough)
      obtain ⟨byte, notNul, tail⟩ := string.cons
      have next : i + 1 - argOffset = i - argOffset + 1 := by omega
      unfold copyLoop
      simp only [byte, if_neg notNul]
      rw [ih tail (Nat.lt_of_succ_lt_succ enough) (Nat.le_succ_of_le behind), next, ← Writes.apply_andThen,
        Writes.put_bytes]

theorem firstNul_of_isString {memory : Memory} {text : List UInt8} {limit : Nat}
    (string : IsString memory text) (room : text.length < limit) : firstNul memory limit = some text.length := by
  obtain ⟨noNul, bytes⟩ := string
  refine firstNul_eq_some.mpr ⟨room, ?_, fun lower below => ?_⟩
  · rw [bytes text.length (Nat.le_refl _), List.getD_eq_default _ _ (Nat.le_refl _)]
  · rw [bytes lower (Nat.le_of_lt below), List.getD_eq_getElem _ _ below]
    exact fun nul => noNul (nul ▸ List.getElem_mem below)

/-! ## The call -/

section

variable {argBuff : List UInt8} {nbytes : Int32}

theorem arguments_sublist (command : List UInt8) : (arguments command).Sublist command :=
  ((List.dropWhile_sublist _).trans (List.dropWhile_sublist _)).trans (List.dropWhile_sublist _)

/-- What `args` holds: the arguments, zeros up to its end, and what was there before. -/
theorem args_apply (memory : Memory) (stored : (arguments argBuff).length ≤ 127) (i : Nat) :
    (args argBuff).apply memory i = if i < 128 then (arguments argBuff).getD i 0 else memory i := by
  rw [args, copyArgs_eq, (findArgs_eq_arguments argBuff).2]
  unfold Writes.apply Writes.andThen Writes.bytes Writes.fill
  rw [if_pos (Nat.zero_le i), Nat.sub_zero]
  by_cases inside : i < (arguments argBuff).length
  · rw [List.getElem?_eq_getElem inside, if_pos (by omega : i < 128), if_pos (by omega : i < 128),
      List.getD_eq_getElem _ _ inside]
    rfl
  · rw [List.getElem?_eq_none (Nat.le_of_not_lt inside), Option.none_or,
      List.getD_eq_default _ _ (Nat.le_of_not_lt inside)]
    split <;> rfl

/-- The loops come to the arguments of the command. -/
theorem getargs_eq (noNul : 0 ∉ argBuff) (stored : argBuff.length ≤ 127) (positive : 1 ≤ nbytes.toInt)
    (buf : Memory) (stack : Stack) :
    getargs argBuff (some buf) nbytes stack =
      if ¬ (arguments argBuff).length ≤ nbytes.toInt ∨ (arguments argBuff).length < 1 then
        some (.plain (-1))
      else some ⟨0, .copy ((args argBuff).apply stack.args) nbytes.toInt.toNat⟩ := by
  have short : (arguments argBuff).length ≤ argBuff.length := (arguments_sublist argBuff).length_le
  have clean : 0 ∉ arguments argBuff := fun member => noNul ((arguments_sublist argBuff).subset member)
  have command : StringAt ((commandBuffer argBuff).apply stack.commandBuffer) 0 argBuff := by
    have copied := isString_stored noNul .nothing stack.commandBuffer
    rw [commandBuffer, strcpyFrom_eq]
    unfold StringAt
    simpa only [Nat.zero_add] using copied
  have enough : argBuff.length < 128 := Nat.lt_succ_of_le stored
  obtain ⟨argOffset, found, rest⟩ := findLoop_eq false false command enough
  rw [(findArgs_eq_arguments argBuff).2] at rest
  have filled : copyLoop ((commandBuffer argBuff).apply stack.commandBuffer) argOffset argOffset
      ((Writes.fill 128 0).apply stack.args) 128 = some ((args argBuff).apply stack.args) := by
    rw [copyLoop_eq rest (by omega : (arguments argBuff).length < 128) (Nat.le_refl _), Nat.sub_self, args,
      copyArgs_eq, (findArgs_eq_arguments argBuff).2, Writes.apply_andThen]
  have string : IsString ((args argBuff).apply stack.args) (arguments argBuff) := by
    have held := isString_cleared clean (by omega : (arguments argBuff).length < 128) stack.args
    rwa [args, copyArgs_eq, (findArgs_eq_arguments argBuff).2]
  have length := firstNul_of_isString string (by omega : (arguments argBuff).length < 128)
  unfold getargs
  dsimp only
  rw [if_neg (by omega : ¬ nbytes.toInt < 1)]
  simp only [found, filled, length, Option.bind_eq_bind, Option.bind_some]

/-- It is the call that the model of the kernel makes. -/
theorem getargs_eq_kernel {kernel : Kernel} (same : (kernel.pcb kernel.newPid).argBuff = argBuff)
    (noNul : 0 ∉ argBuff) (stored : argBuff.length ≤ 127) (buf : Task.Buffer) (stack : Stack) :
    getargs argBuff buf nbytes stack = some (kernel.getargs buf nbytes stack.args) := by
  cases buf with
  | none => rfl
  | some buf =>
      by_cases positive : nbytes.toInt < 1
      · simp [getargs, Kernel.getargs, positive]
      · rw [getargs_eq noNul stored (by omega)]
        have short : (arguments argBuff).length ≤ 127 :=
          Nat.le_trans (arguments_sublist argBuff).length_le stored
        have held : (args argBuff).apply stack.args =
            fun i => if i < 128 then (arguments argBuff).getD i 0 else stack.args i :=
          funext (args_apply stack.args short)
        simp only [Kernel.getargs, same, held, positive, false_or, gt_iff_lt, Int.not_le]
        split <;> rfl

theorem getargs_refused (noNul : 0 ∉ argBuff) (stored : argBuff.length ≤ 127) (positive : 1 ≤ nbytes.toInt)
    (refused : arguments argBuff = [] ∨ nbytes.toInt < (arguments argBuff).length) (buf : Memory)
    (stack : Stack) : getargs argBuff (some buf) nbytes stack = some (.plain (-1)) := by
  rw [getargs_eq noNul stored positive]
  refine if_pos ?_
  rcases refused with none | long
  · exact Or.inr (by simp [none])
  · exact Or.inl (Int.not_le.mpr long)

theorem getargs_accepted (noNul : 0 ∉ argBuff) (stored : argBuff.length ≤ 127) (positive : 1 ≤ nbytes.toInt)
    (some : arguments argBuff ≠ []) (room : ((arguments argBuff).length : Int) ≤ nbytes.toInt)
    (buf : Memory) (stack : Stack) :
    getargs argBuff (.some buf) nbytes stack =
      .some ⟨0, .copy ((args argBuff).apply stack.args) nbytes.toInt.toNat⟩ := by
  have length : 0 < (arguments argBuff).length := List.length_pos_of_ne_nil some
  rw [getargs_eq noNul stored positive]
  refine if_neg ?_
  omega

theorem refused_or_accepted (argBuff : List UInt8) (nbytes : Int32) :
    (arguments argBuff = [] ∨ nbytes.toInt < (arguments argBuff).length) ∨
      (arguments argBuff ≠ [] ∧ ((arguments argBuff).length : Int) ≤ nbytes.toInt) := by
  by_cases none : arguments argBuff = []
  · exact Or.inl (Or.inl none)
  · rcases Int.lt_or_le nbytes.toInt (arguments argBuff).length with long | room
    · exact Or.inl (Or.inr long)
    · exact Or.inr ⟨none, room⟩

theorem returnsArguments_of_fits (noNul : 0 ∉ argBuff) (stored : argBuff.length ≤ 127)
    (positive : 1 ≤ nbytes.toInt) (fits : Fits argBuff nbytes.toInt) : ReturnsArguments argBuff nbytes := by
  have short : (arguments argBuff).length ≤ 127 :=
    Nat.le_trans (arguments_sublist argBuff).length_le stored
  rcases refused_or_accepted argBuff nbytes with refused | ⟨some, room⟩
  · have result := getargs_refused noNul stored positive refused
    constructor
    · intro buf stack
      refine ⟨_, result buf stack, iff_of_false (by decide) ?_, fun zero => absurd zero (by decide),
        Writes.within_nothing _, fun _ => ⟨rfl, rfl⟩⟩
      rintro ⟨some, below⟩
      rcases refused with none | long
      · exact some none
      · omega
    · intro buf first second
      rw [result buf first, result buf second]
  · have result := getargs_accepted noNul stored positive some room
    have limits : ((arguments argBuff).length : Int) < nbytes.toInt ∧ nbytes.toInt ≤ 128 := by
      rcases fits with none | long | limits
      · exact absurd none some
      · omega
      · exact limits
    constructor
    · intro buf stack
      refine ⟨_, result buf stack, iff_of_true rfl ⟨some, by omega⟩, fun _ i inside => ?_,
        Writes.within_copy.mpr (Nat.le_refl _), fun failed => absurd rfl failed⟩
      have copied : i < nbytes.toInt.toNat := by omega
      simp only [Writes.copy, if_pos copied, args_apply stack.args short i, if_pos (by omega : i < 128)]
    · intro buf first second
      rw [result buf first, result buf second]
      refine congrArg (fun writes => Option.some (Result.mk 0 writes)) (Writes.copy_congr fun i below => ?_)
      rw [args_apply first.args short, args_apply second.args short, if_pos (by omega), if_pos (by omega)]

/-- Two stacks that differ behind `args` show in the copy. -/
theorem fits_of_returnsArguments (noNul : 0 ∉ argBuff) (stored : argBuff.length ≤ 127)
    (positive : 1 ≤ nbytes.toInt) (returns : ReturnsArguments argBuff nbytes) :
    Fits argBuff nbytes.toInt := by
  have short : (arguments argBuff).length ≤ 127 :=
    Nat.le_trans (arguments_sublist argBuff).length_le stored
  rcases refused_or_accepted argBuff nbytes with refused | ⟨some, room⟩
  · exact refused.imp_right Or.inl
  · have result := getargs_accepted noNul stored positive some room (fun _ => 0)
    obtain ⟨_, same, delivers⟩ := returns.delivers (fun _ => 0) ⟨fun _ => 0, fun _ => 0⟩
    obtain rfl := Option.some.inj ((result _).symm.trans same)
    have below := (delivers.succeeds_iff.mp rfl).2
    refine Or.inr (Or.inr ⟨by omega, Int.not_lt.mp fun long => ?_⟩)
    have equal := returns.independent (fun _ => 0) ⟨fun _ => 0, fun _ => 0⟩ ⟨fun _ => 0, fun _ => 1⟩
    rw [result, result, Option.some.injEq, Result.mk.injEq] at equal
    have byte := congrFun equal.2 128
    have copied : 128 < nbytes.toInt.toNat := by omega
    simp only [Writes.copy, if_pos copied, args_apply _ short, Nat.lt_irrefl, if_false] at byte
    exact absurd byte (by decide)

/-- Exactly under the condition `getargs` returns the arguments and nothing else. -/
theorem returns_arguments_iff (noNul : 0 ∉ argBuff) (stored : argBuff.length ≤ 127)
    (positive : 1 ≤ nbytes.toInt) : ReturnsArguments argBuff nbytes ↔ Fits argBuff nbytes.toInt :=
  ⟨fits_of_returnsArguments noNul stored positive, returnsArguments_of_fits noNul stored positive⟩

theorem returns_arguments_grep : ReturnsArguments (ascii "grep hello".toList) 33 :=
  (returns_arguments_iff (by decide) (by decide) (by decide)).mpr (Or.inr (Or.inr (by decide)))

/-- `cat` asks for 1024 bytes, and gets what lies behind `args`; a buffer of 10 bytes takes the 10
bytes of an argument without a NUL. -/
theorem getargs_gives_stack_away :
    ¬ ReturnsArguments (ascii "cat frame0.txt".toList) 1024 ∧
      ¬ ReturnsArguments (ascii "cat frame0.txt".toList) 10 := by
  refine ⟨fun returns => ?_, fun returns => ?_⟩
  · have fits := fits_of_returnsArguments (by decide) (by decide) (by decide) returns
    exact absurd fits (by unfold Fits; decide)
  · have fits := fits_of_returnsArguments (by decide) (by decide) (by decide) returns
    exact absurd fits (by unfold Fits; decide)

end

end GetArgs

end LinuxLikeOS
