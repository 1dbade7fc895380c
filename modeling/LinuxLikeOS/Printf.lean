import LinuxLikeOS.Numbers

/-!
# `printf` (`lib.c`)

The format is read character by character, with a loop of its own for `%` and the `#` behind it. The
arguments are the words on the stack behind the pointer to the format. What is printed is the
sequence of characters handed to `putc`.
-/

namespace LinuxLikeOS.Printf

open Function Blocks Fueled Numbers

/-- What a run is watched for: reads of the format, and stores into a conversion buffer. -/
inductive Place where
  | format (index : Nat)
  | convBuf (index : Nat)

/-- The cases of the switch on the character behind `%`, but for `#`. -/
inductive Specifier where
  | percent
  | hexadecimal
  | unsigned
  | signed
  | character
  | string
  | unknown
  deriving DecidableEq

def specifier (c : UInt8) : Specifier :=
  if c = 37 then .percent
  else if c = 120 then .hexadecimal
  else if c = 117 then .unsigned
  else if c = 100 then .signed
  else if c = 99 then .character
  else if c = 115 then .string
  else .unknown

/-- The specifiers that take a word from the stack. -/
def Specifier.takesWord : Specifier → Bool
  | .percent | .unknown => false
  | _ => true

/-- `puts`: what is handed to `putc`. -/
def puts (fuel s : Nat) (memory : Memory) : Fueled Nat (List UInt8) := do
  let (_, printed) ← whileLoop (fun (index, _) => pure (memory (s + index) != 0))
    (fun (index, printed) => pure (index + 1, printed ++ [memory (s + index)])) fuel (0, [])
  pure printed

section

variable (fuel : Nat) (convBuf : Memory) (word : UInt32)

/-- `case 'x'`. -/
def printHexadecimal (alternate : Bool) : Fueled Nat (List UInt8) := do
  if alternate = false then do
    let convBuf ← itoa fuel word.toNat 0 16 convBuf
    puts fuel 0 convBuf
  else do
    let convBuf ← itoa fuel word.toNat 8 16 convBuf
    let startingIndex ← strlen fuel 8 convBuf
    let (_, convBuf) ← whileLoop (fun (i, _) => pure (decide (i < 8)))
      (fun (i, convBuf) => do
        access i
        pure (i + 1, update convBuf i 48)) fuel (startingIndex, convBuf)
    puts fuel startingIndex convBuf

/-- `case 'u'`. -/
def printUnsigned : Fueled Nat (List UInt8) := do
  let convBuf ← itoa fuel word.toNat 0 10 convBuf
  puts fuel 0 convBuf

/-- `case 'd'`. -/
def printSigned : Fueled Nat (List UInt8) := do
  if word.toInt32 < 0 then do
    access 0
    let convBuf ← itoa fuel (-word).toNat 1 10 (update convBuf 0 45)
    puts fuel 0 convBuf
  else do
    let convBuf ← itoa fuel word.toNat 0 10 convBuf
    puts fuel 0 convBuf

end

/-- A call: where the format lies, the words behind the pointer to it, and what the conversion
buffers hold before they are used. -/
structure Call where
  memory : Memory
  format : Nat
  words : Nat → UInt32
  convBuf : Memory

/-- The variables `buf` and `esp`, from where they start, and what has been printed. -/
structure Scan where
  buf : Nat
  esp : Nat
  printed : List UInt8

section

variable (fuel : Nat) (call : Call)

/-- `buf[index]`. -/
def Call.at (index : Nat) : UInt8 := call.memory (call.format + index)

/-- A case that prints the next word. -/
def printWord (print : UInt32 → Fueled Nat (List UInt8)) (scan : Scan) : Fueled Place Scan := do
  let text ← (print (call.words scan.esp)).tagged .convBuf
  pure { scan with esp := scan.esp + 1, printed := scan.printed ++ text }

/-- The cases of the inner switch. -/
def convert (c : UInt8) (alternate : Bool) (scan : Scan) : Fueled Place Scan :=
  match specifier c with
  | .percent => pure { scan with printed := scan.printed ++ [37] }
  | .hexadecimal => printWord call (fun word => printHexadecimal fuel call.convBuf word alternate) scan
  | .unsigned => printWord call (printUnsigned fuel call.convBuf) scan
  | .signed => printWord call (printSigned fuel call.convBuf) scan
  | .character => printWord call (fun word => pure [word.toUInt8]) scan
  | .string => printWord call (fun word => puts fuel word.toNat call.memory) scan
  | .unknown => pure scan

/-- `format_char_switch`, as long as it finds a `#`. -/
def alternates (buf : Nat) : Fueled Place (Nat × Bool) :=
  whileLoop (fun (buf, _) => do
    access (.format buf)
    pure (call.at buf == 35)) (fun (buf, _) => pure (buf + 1, true)) fuel (buf, false)

/-- One round of the outer loop. -/
def round (scan : Scan) : Fueled Place Scan := do
  if call.at scan.buf = 37 then do
    let (buf, alternate) ← alternates fuel call (scan.buf + 1)
    let scan ← convert fuel call (call.at buf) alternate scan
    pure { scan with buf := buf + 1 }
  else pure { scan with printed := scan.printed ++ [call.at scan.buf], buf := scan.buf + 1 }

/-- `printf`; it returns `buf`. -/
def printf : Fueled Place Scan :=
  whileLoop (fun scan => do
    access (.format scan.buf)
    pure (call.at scan.buf != 0)) (round fuel call) fuel ⟨0, 0, []⟩

end

/-! ## What a format says -/

/-- An ordinary character, or `%` with what follows it. -/
inductive Piece where
  | ordinary (c : UInt8)
  | conversion (alternate : Bool) (c : UInt8)

/-- The pieces of a format; behind a `%` it is known whether there has been a `#`. What stands in
front of the end but is no whole piece is left out. -/
def pieces : Option Bool → List UInt8 → List Piece
  | _, [] => []
  | none, c :: rest => if c = 37 then pieces (some false) rest else .ordinary c :: pieces none rest
  | some alternate, c :: rest =>
      if c = 35 then pieces (some true) rest else .conversion alternate c :: pieces none rest

/-- The format does not end inside a piece. -/
def Complete : Option Bool → List UInt8 → Prop
  | none, [] => True
  | some _, [] => False
  | none, c :: rest => if c = 37 then Complete (some false) rest else Complete none rest
  | some _, c :: rest => if c = 35 then Complete (some true) rest else Complete none rest

def decidableComplete : (mode : Option Bool) → (chars : List UInt8) → Decidable (Complete mode chars)
  | none, [] => isTrue trivial
  | some _, [] => isFalse id
  | none, c :: rest =>
      if percent : c = 37 then
        have := decidableComplete (some false) rest
        decidable_of_iff (Complete (some false) rest) (iff_of_eq (if_pos percent).symm)
      else
        have := decidableComplete none rest
        decidable_of_iff (Complete none rest) (iff_of_eq (if_neg percent).symm)
  | some _, c :: rest =>
      if hash : c = 35 then
        have := decidableComplete (some true) rest
        decidable_of_iff (Complete (some true) rest) (iff_of_eq (if_pos hash).symm)
      else
        have := decidableComplete none rest
        decidable_of_iff (Complete none rest) (iff_of_eq (if_neg hash).symm)

instance (mode : Option Bool) (chars : List UInt8) : Decidable (Complete mode chars) := decidableComplete mode chars

/-- Eight hexadecimal digits. -/
def padded (value : Nat) : List UInt8 :=
  List.replicate (8 - (numeral 16 value).length) 48 ++ numeral 16 value

/-- The decimal numeral with its sign. -/
def signedNumeral (value : Int) : List UInt8 :=
  if value < 0 then 45 :: numeral 10 value.natAbs else numeral 10 value.natAbs

def Piece.takesWord : Piece → Bool
  | .ordinary _ => false
  | .conversion _ c => (specifier c).takesWord

/-- What a conversion prints for a word; `strings` are the texts at addresses. -/
def Specifier.text (strings : UInt32 → List UInt8) (word : UInt32) (alternate : Bool) : Specifier → List UInt8
  | .percent => [37]
  | .hexadecimal => if alternate then padded word.toNat else numeral 16 word.toNat
  | .unsigned => numeral 10 word.toNat
  | .signed => signedNumeral word.toInt32.toInt
  | .character => [word.toUInt8]
  | .string => strings word
  | .unknown => []

def Piece.text (strings : UInt32 → List UInt8) (word : UInt32) : Piece → List UInt8
  | .ordinary c => [c]
  | .conversion alternate c => (specifier c).text strings word alternate

/-- What pieces print, with the words from `esp` on. -/
def render (strings : UInt32 → List UInt8) (words : Nat → UInt32) : Nat → List Piece → List UInt8
  | _, [] => []
  | esp, piece :: rest =>
      piece.text strings (words esp) ++ render strings words (if piece.takesWord then esp + 1 else esp) rest

/-- The words that are taken for `%s`. -/
def stringWords (words : Nat → UInt32) : Nat → List Piece → List UInt32
  | _, [] => []
  | esp, piece :: rest =>
      (match piece with
        | .conversion _ c => if specifier c = .string then [words esp] else []
        | .ordinary _ => []) ++ stringWords words (if piece.takesWord then esp + 1 else esp) rest

/-! ## The cases -/

section

variable {memory : Memory} {s fuel : Nat} {text : List UInt8} {P : Nat → Prop}

theorem puts_returns (string : StringAt memory s text) (enough : text.length < fuel) :
    Returns P (fun printed => printed = text) (puts fuel s memory) := by
  refine (returns_while_pure (fun (state : Nat × List UInt8) => memory (s + state.1) != 0)
    (fun state => ∃ index ≤ text.length, state = (index, text.take index)) (fun state => state.2 = text)
    (fun state => text.length - state.1) ?_ ?_ ⟨0, Nat.zero_le _, rfl⟩ enough).bind fun _ whole => returns_pure whole
  · rintro _ ⟨index, inside, rfl⟩ goes
    have before : index < text.length := of_decide_eq_true ((string.lt_length_iff inside).symm.trans goes)
    refine returns_pure ⟨⟨index + 1, before, ?_⟩, ?_⟩
    · rw [string.chars index before, List.take_concat_get' text index before]
    · show text.length - (index + 1) < text.length - index
      omega
  · rintro _ ⟨index, inside, rfl⟩ stops
    have last : ¬ index < text.length := of_decide_eq_false ((string.lt_length_iff inside).symm.trans stops)
    exact List.take_of_length_le (Nat.le_of_not_lt last)

theorem numeral_length_word {radix : Nat} (least : 2 ≤ radix) (word : UInt32) :
    (numeral radix word.toNat).length ≤ 32 := by
  refine numeral_length_le least (by decide) (Nat.lt_of_lt_of_le word.toNat_lt ?_)
  exact Nat.pow_le_pow_left least 32

/-- The digits of a word at the beginning of a buffer. -/
theorem itoa_puts_returns {radix : Nat} (least : 2 ≤ radix) (most : radix ≤ 36) (word : UInt32) (convBuf : Memory)
    (enough : 33 ≤ fuel) :
    Returns (Within 0 ((numeral radix word.toNat).length + 1)) (fun printed => printed = numeral radix word.toNat)
      (itoa fuel word.toNat 0 radix convBuf >>= puts fuel 0) := by
  have length := numeral_length_word least word
  refine (itoa_returns least most (by omega)).bind ?_
  rintro _ rfl
  exact puts_returns (stringAt_written convBuf 0 (numeral_noNul least most)) (by omega)

theorem printUnsigned_returns (word : UInt32) (convBuf : Memory) (enough : 33 ≤ fuel) :
    Returns (· < 36) (fun printed => printed = numeral 10 word.toNat) (printUnsigned fuel convBuf word) := by
  have length := numeral_length_word (show 2 ≤ 10 by decide) word
  refine (itoa_puts_returns (by decide) (by decide) word convBuf enough).mono ?_
  rintro index ⟨-, high⟩
  omega

theorem toInt_toInt32 (word : UInt32) :
    word.toInt32.toInt = if word.toNat < 2 ^ 31 then (word.toNat : Int) else word.toNat - 2 ^ 32 := by
  show word.toBitVec.toInt = _
  rw [BitVec.toInt_eq_toNat_cond]
  show (if 2 * word.toNat < 2 ^ 32 then (word.toNat : Int) else (word.toNat : Int) - (2 ^ 32 : Nat)) = _
  split <;> split <;> omega

/-- The wrapping negation of a negative word is its absolute value, also for `-2 ^ 31`. -/
theorem toNat_neg_of_negative {word : UInt32} (negative : word.toInt32.toInt < 0) :
    (-word).toNat = word.toInt32.toInt.natAbs := by
  have small := word.toNat_lt
  have size : UInt32.size = 2 ^ 32 := rfl
  rw [toInt_toInt32] at negative ⊢
  rw [UInt32.toNat_neg, size]
  split at negative <;> omega

theorem toNat_of_nonneg {word : UInt32} (nonneg : ¬ word.toInt32.toInt < 0) :
    word.toNat = word.toInt32.toInt.natAbs := by
  have small := word.toNat_lt
  rw [toInt_toInt32] at nonneg ⊢
  split at nonneg <;> omega

theorem printSigned_returns (word : UInt32) (convBuf : Memory) (enough : 34 ≤ fuel) :
    Returns (· < 36) (fun printed => printed = signedNumeral word.toInt32.toInt) (printSigned fuel convBuf word) := by
  unfold printSigned signedNumeral
  by_cases negative : word.toInt32.toInt < 0
  · have length := numeral_length_word (show 2 ≤ 10 by decide) (-word)
    rw [if_pos (Int32.lt_iff_toInt_lt.mpr negative), if_pos negative, ← toNat_neg_of_negative negative]
    refine returns_access_bind (by decide) (((itoa_returns (by decide) (by decide) (by omega)).mono ?_).bind ?_)
    · rintro index ⟨-, high⟩
      omega
    · rintro _ rfl
      have noNul : 0 ∉ 45 :: numeral 10 (-word).toNat := by
        rw [List.mem_cons, not_or]
        exact ⟨by decide, numeral_noNul (by decide) (by decide)⟩
      rw [written_cons, ← List.cons_append]
      exact puts_returns (stringAt_written convBuf 0 noNul) (by rw [List.length_cons]; omega)
  · have length := numeral_length_word (show 2 ≤ 10 by decide) word
    rw [if_neg (fun less => negative (Int32.lt_iff_toInt_lt.mp less)), if_neg negative, ← toNat_of_nonneg negative]
    refine (itoa_puts_returns (by decide) (by decide) word convBuf (by omega)).mono ?_
    rintro index ⟨-, high⟩
    omega

theorem length_padded (word : UInt32) : (padded word.toNat).length = 8 := by
  have fits : (numeral 16 word.toNat).length ≤ 8 := numeral_length_le (by decide) (by decide) word.toNat_lt
  rw [padded, List.length_append, List.length_replicate]
  omega

theorem padded_noNul (value : Nat) : 0 ∉ padded value := by
  rw [padded, List.mem_append, not_or]
  refine ⟨fun member => ?_, numeral_noNul (by decide) (by decide)⟩
  cases List.eq_of_mem_replicate member

/-- The zeros in front of the digits make one string with them. -/
theorem padded_stringAt {memory : Memory} {word : UInt32} (string : StringAt memory 8 (numeral 16 word.toNat)) :
    StringAt (filled memory (numeral 16 word.toNat).length (8 - (numeral 16 word.toNat).length) 48)
      (numeral 16 word.toNat).length (padded word.toNat) := by
  have fits : (numeral 16 word.toNat).length ≤ 8 := numeral_length_le (by decide) (by decide) word.toNat_lt
  refine ⟨fun i inside => ?_, padded_noNul _, ?_⟩
  · rw [length_padded] at inside
    by_cases zero : i < 8 - (numeral 16 word.toNat).length
    · rw [filled_inside memory 48 (within_add _ zero)]
      simp only [padded]
      rw [List.getElem_append_left (by simpa using zero), List.getElem_replicate]
    · obtain ⟨j, rfl⟩ := Nat.exists_eq_add_of_le (Nat.le_of_not_lt zero)
      have place : (numeral 16 word.toNat).length + (8 - (numeral 16 word.toNat).length + j) = 8 + j := by omega
      rw [place, filled_outside memory 48 (by unfold Within; omega), string.chars j (by omega)]
      simp only [padded]
      rw [List.getElem_append_right (by simp)]
      simp
  · rw [length_padded, filled_outside memory 48 (by unfold Within; omega), Nat.add_comm]
    exact string.nul

/-- The loop over the cells in front of the digits. -/
theorem zeros_returns (memory : Memory) {first : Nat} (fits : first ≤ 8) (enough : 8 < fuel) :
    Returns (· < 64) (fun state => state.2 = filled memory first (8 - first) 48)
      (whileLoop (fun (i, _) => pure (decide (i < 8)))
        (fun (i, convBuf) => do
          access i
          pure (i + 1, update convBuf i 48)) fuel (first, memory)) := by
  refine returns_while_pure (fun (state : Nat × Memory) => decide (state.1 < 8))
    (fun state => ∃ n, first + n ≤ 8 ∧ state = (first + n, filled memory first n 48)) _
    (fun state => 8 - state.1) ?_ ?_ ⟨0, fits, by rw [filled_zero, Nat.add_zero]⟩
    (Nat.lt_of_le_of_lt (Nat.sub_le 8 first) enough)
  · rintro _ ⟨n, inside, rfl⟩ goes
    have before : first + n < 8 := of_decide_eq_true goes
    refine returns_access_bind (by omega) (returns_pure ⟨⟨n + 1, before, ?_⟩, ?_⟩)
    · rw [filled_succ, Nat.add_assoc]
    · show 8 - (first + n + 1) < 8 - (first + n)
      omega
  · rintro _ ⟨n, inside, rfl⟩ stops
    have last : ¬ first + n < 8 := of_decide_eq_false stops
    have whole : n = 8 - first := by omega
    rw [← whole]

theorem printHexadecimal_returns (word : UInt32) (convBuf : Memory) (alternate : Bool) (enough : 34 ≤ fuel) :
    Returns (· < 64) (fun printed => printed = if alternate then padded word.toNat else numeral 16 word.toNat)
      (printHexadecimal fuel convBuf word alternate) := by
  have length := numeral_length_word (show 2 ≤ 16 by decide) word
  unfold printHexadecimal
  cases alternate with
  | false =>
      refine (itoa_puts_returns (by decide) (by decide) word convBuf (by omega)).mono ?_
      rintro index ⟨-, high⟩
      omega
  | true =>
      have fits : (numeral 16 word.toNat).length ≤ 8 := numeral_length_le (by decide) (by decide) word.toNat_lt
      have noNul : 0 ∉ numeral 16 word.toNat := numeral_noNul (by decide) (by decide)
      have digits := stringAt_written convBuf 8 noNul
      refine ((itoa_returns (by decide) (by decide) (by omega)).mono ?_).bind ?_
      · rintro index ⟨-, high⟩
        omega
      · rintro _ rfl
        refine (strlen_returns digits (by omega)).bind ?_
        rintro _ rfl
        refine (zeros_returns _ fits (by omega)).bind ?_
        rintro ⟨_, _⟩ rfl
        rw [if_pos rfl]
        exact puts_returns (padded_stringAt digits) (by rw [length_padded]; omega)

end

/-! ## A round -/

section

variable {fuel : Nat} {call : Call} {chars : List UInt8} {strings : UInt32 → List UInt8}

/-- The places of a run that stays in the format, its NUL included, and in the conversion buffers. -/
def Inside (length : Nat) : Place → Prop
  | .format index => index ≤ length
  | .convBuf index => index < 64

theorem printWord_returns {print : UInt32 → Fueled Nat (List UInt8)} {scan : Scan} {text : List UInt8} {length : Nat}
    (prints : Returns (· < 64) (fun printed => printed = text) (print (call.words scan.esp))) :
    Returns (Inside length)
      (fun next => next = { scan with esp := scan.esp + 1, printed := scan.printed ++ text })
      (printWord call print scan) := by
  refine (Returns.tagged (S := Inside length) prints).bind ?_
  rintro _ rfl
  exact returns_pure rfl

/-- The inner switch prints what the piece says, and takes a word where the piece takes one. -/
theorem convert_returns (strings : UInt32 → List UInt8) (length : Nat) {c : UInt8} {alternate : Bool} {scan : Scan}
    (enough : 34 ≤ fuel) (passed : specifier c = .string →
      StringAt call.memory (call.words scan.esp).toNat (strings (call.words scan.esp)) ∧
        (strings (call.words scan.esp)).length < fuel) :
    Returns (Inside length)
      (fun next => next = ⟨scan.buf, if (specifier c).takesWord then scan.esp + 1 else scan.esp,
        scan.printed ++ (Piece.conversion alternate c).text strings (call.words scan.esp)⟩)
      (convert fuel call c alternate scan) := by
  unfold convert
  simp only [Piece.text]
  cases case : specifier c with
  | percent => exact returns_pure rfl
  | hexadecimal => exact printWord_returns (printHexadecimal_returns _ _ _ enough)
  | unsigned =>
      have prints := printUnsigned_returns (call.words scan.esp) call.convBuf (Nat.le_of_succ_le enough)
      exact printWord_returns (prints.mono fun index less => Nat.lt_trans less (by decide))
  | signed =>
      have prints := printSigned_returns (call.words scan.esp) call.convBuf enough
      exact printWord_returns (prints.mono fun index less => Nat.lt_trans less (by decide))
  | character => exact printWord_returns (returns_pure rfl)
  | string => exact printWord_returns (puts_returns (passed case).1 (passed case).2)
  | unknown =>
      refine returns_pure ?_
      rw [Specifier.text, List.append_nil]
      rfl

/-- Before its end the format goes on with a character, and at its end there is the NUL. -/
theorem at_drop (format : StringAt call.memory call.format chars) {index : Nat} (inside : index ≤ chars.length) :
    (chars.drop index = [] ∧ index = chars.length ∧ call.at index = 0) ∨
    ∃ c rest, chars.drop index = c :: rest ∧ index < chars.length ∧ call.at index = c ∧ c ≠ 0 ∧
      chars.drop (index + 1) = rest := by
  rcases Nat.lt_or_eq_of_le inside with before | rfl
  · refine Or.inr ⟨chars[index], chars.drop (index + 1), List.drop_eq_getElem_cons before, before,
      format.chars index before, fun zero => ?_, rfl⟩
    exact format.noNul (zero ▸ List.getElem_mem before)
  · exact Or.inl ⟨List.drop_length, rfl, format.nul⟩

/-- The `#` behind a `%` are read over. -/
theorem alternates_returns (format : StringAt call.memory call.format chars) {index : Nat}
    (inside : index ≤ chars.length) (enough : chars.length - index < fuel) :
    Returns (Inside chars.length) (fun (buf, alternate) => index ≤ buf ∧ buf ≤ chars.length ∧ call.at buf ≠ 35 ∧
        pieces (some false) (chars.drop index) = pieces (some alternate) (chars.drop buf) ∧
        (Complete (some false) (chars.drop index) ↔ Complete (some alternate) (chars.drop buf)))
      (alternates fuel call index) := by
  refine returns_while (fun (state : Nat × Bool) => index ≤ state.1 ∧ state.1 ≤ chars.length ∧
      pieces (some false) (chars.drop index) = pieces (some state.2) (chars.drop state.1) ∧
      (Complete (some false) (chars.drop index) ↔ Complete (some state.2) (chars.drop state.1)))
    (fun state => chars.length - state.1) ?_ ⟨Nat.le_refl _, inside, rfl, Iff.rfl⟩ enough
  rintro ⟨buf, alternate⟩ ⟨low, high, same, complete⟩
  refine returns_access_bind high (returns_pure ⟨fun goes => returns_pure ?_, fun stops => ?_⟩)
  · have hash : call.at buf = 35 := eq_of_beq goes
    rcases at_drop format high with ⟨-, -, zero⟩ | ⟨c, rest, remaining, before, here, -, after⟩
    · cases zero.symm.trans hash
    · obtain rfl : c = 35 := here.symm.trans hash
      simp only at same complete
      rw [remaining] at same complete
      refine ⟨⟨Nat.le_succ_of_le low, before, ?_, ?_⟩, ?_⟩
      · rw [same, after]
        rfl
      · rw [complete, after]
        rfl
      · show chars.length - (buf + 1) < chars.length - buf
        omega
  · exact ⟨low, high, by simpa using stops, same, complete⟩

/-- Where the outer loop stands: what has been printed and what is still to come are what the format
says. -/
structure Reached (call : Call) (chars : List UInt8) (strings : UInt32 → List UInt8) (scan : Scan) : Prop where
  inside : scan.buf ≤ chars.length
  printed : scan.printed ++ render strings call.words scan.esp (pieces none (chars.drop scan.buf)) =
    render strings call.words 0 (pieces none chars)
  taken : scan.esp + (pieces none (chars.drop scan.buf)).countP Piece.takesWord =
    (pieces none chars).countP Piece.takesWord
  strings : ∀ word ∈ stringWords call.words scan.esp (pieces none (chars.drop scan.buf)),
    word ∈ stringWords call.words 0 (pieces none chars)
  complete : Complete none (chars.drop scan.buf) ↔ Complete none chars

theorem reached_start (call : Call) (chars : List UInt8) (strings : UInt32 → List UInt8) :
    Reached call chars strings ⟨0, 0, []⟩ :=
  ⟨Nat.zero_le _, rfl, Nat.zero_add _, fun _ member => member, Iff.rfl⟩

/-- What a piece adds. -/
theorem Reached.piece {scan : Scan} (reached : Reached call chars strings scan) {piece : Piece} {buf : Nat}
    (inside : buf ≤ chars.length)
    (next : pieces none (chars.drop scan.buf) = piece :: pieces none (chars.drop buf))
    (complete : Complete none (chars.drop scan.buf) ↔ Complete none (chars.drop buf)) :
    Reached call chars strings ⟨buf, if piece.takesWord then scan.esp + 1 else scan.esp,
      scan.printed ++ piece.text strings (call.words scan.esp)⟩ := by
  obtain ⟨-, printed, taken, valid, whole⟩ := reached
  rw [next] at printed taken valid
  refine ⟨inside, ?_, ?_, fun word member => valid word ?_, complete.symm.trans whole⟩
  · rw [← printed, render, List.append_assoc]
  · rw [← taken, List.countP_cons]
    simp only
    split <;> omega
  · exact List.mem_append_right _ member

/-- The words passed for `%s` are addresses of strings, which the fuel is enough for. -/
def Passed (fuel : Nat) (call : Call) (chars : List UInt8) (strings : UInt32 → List UInt8) : Prop :=
  ∀ word ∈ stringWords call.words 0 (pieces none chars),
    StringAt call.memory word.toNat (strings word) ∧ (strings word).length < fuel

/-- A round goes on behind the next piece; where the format ends in the piece, it goes on behind the
NUL. -/
theorem round_returns (format : StringAt call.memory call.format chars) (passed : Passed fuel call chars strings)
    (enough : chars.length + 34 ≤ fuel) {scan : Scan} (reached : Reached call chars strings scan)
    (goes : call.at scan.buf ≠ 0) :
    Returns (Inside chars.length) (fun next =>
        (Reached call chars strings next ∧ scan.buf < next.buf) ∨
          ¬ Complete none chars ∧ next.buf = chars.length + 1) (round fuel call scan) := by
  rcases at_drop format reached.inside with ⟨-, -, zero⟩ | ⟨c, rest, remaining, before, here, -, after⟩
  · exact absurd zero goes
  · unfold round
    rw [here]
    by_cases percent : c = 37
    · subst percent
      rw [if_pos rfl]
      have inPiece : pieces none (chars.drop scan.buf) = pieces (some false) (chars.drop (scan.buf + 1)) := by
        rw [remaining, after]
        rfl
      have whole : Complete none (chars.drop scan.buf) ↔ Complete (some false) (chars.drop (scan.buf + 1)) := by
        rw [remaining, after]
        rfl
      refine (alternates_returns format before (by omega)).bind ?_
      rintro ⟨buf, alternate⟩ ⟨low, high, notHash, same, complete⟩
      dsimp only
      rcases at_drop format high with ⟨nothing, last, zero⟩ | ⟨d, rest, ahead, inside, at_buf, -, behind⟩
      · have unknown : specifier (call.at buf) = .unknown := by
          rw [zero]
          rfl
        have broken : ¬ Complete none chars := by
          rw [← reached.complete, whole, complete, nothing]
          exact id
        refine (convert_returns strings chars.length (by omega) (fun string => ?_)).bind ?_
        · cases unknown.symm.trans string
        · rintro _ rfl
          exact returns_pure (Or.inr ⟨broken, congrArg (· + 1) last⟩)
      · rw [at_buf] at notHash ⊢
        have next : pieces none (chars.drop scan.buf) =
            .conversion alternate d :: pieces none (chars.drop (buf + 1)) := by
          rw [inPiece, same, ahead, behind]
          exact if_neg notHash
        have goesOn : Complete none (chars.drop scan.buf) ↔ Complete none (chars.drop (buf + 1)) := by
          rw [whole, complete, ahead, behind]
          exact iff_of_eq (if_neg notHash)
        have word : specifier d = .string →
            call.words scan.esp ∈ stringWords call.words 0 (pieces none chars) := by
          intro string
          refine reached.strings _ ?_
          rw [next]
          exact List.mem_append_left _ (by simp only [if_pos string, List.mem_singleton])
        refine (convert_returns strings chars.length (by omega) (fun string => passed _ (word string))).bind ?_
        rintro _ rfl
        exact returns_pure (Or.inl ⟨reached.piece inside next goesOn, Nat.lt_of_succ_le (Nat.le_succ_of_le low)⟩)
    · rw [if_neg percent]
      have next : pieces none (chars.drop scan.buf) = .ordinary c :: pieces none (chars.drop (scan.buf + 1)) := by
        rw [remaining, after]
        exact if_neg percent
      have goesOn : Complete none (chars.drop scan.buf) ↔ Complete none (chars.drop (scan.buf + 1)) := by
        rw [remaining, after]
        exact iff_of_eq (if_neg percent)
      exact returns_pure (Or.inl ⟨reached.piece before next goesOn, Nat.lt_succ_self _⟩)

/-! ## The whole call -/

/-- A format that ends with a whole piece is printed piece by piece. -/
theorem printf_returns (format : StringAt call.memory call.format chars) (passed : Passed fuel call chars strings)
    (enough : chars.length + 34 ≤ fuel) (complete : Complete none chars) :
    Returns (Inside chars.length) (fun last => last.buf = chars.length ∧
        last.esp = (pieces none chars).countP Piece.takesWord ∧
        last.printed = render strings call.words 0 (pieces none chars)) (printf fuel call) := by
  refine returns_while (Reached call chars strings) (fun scan => chars.length - scan.buf) ?_
    (reached_start call chars strings) (by simp only; omega)
  intro scan reached
  refine returns_access_bind reached.inside (returns_pure ⟨fun goes => ?_, fun stops => ?_⟩)
  · refine (round_returns format passed enough reached (by simpa using goes)).imp ?_
    rintro next (⟨holds, less⟩ | ⟨broken, -⟩)
    · have inside := holds.inside
      exact ⟨holds, by omega⟩
    · exact absurd complete broken
  · rcases at_drop format reached.inside with ⟨nothing, last, -⟩ | ⟨c, rest, -, -, here, nonzero, -⟩
    · have printed := reached.printed
      have taken := reached.taken
      rw [nothing] at printed taken
      exact ⟨last, taken, by rw [← printed]; exact (List.append_nil _).symm⟩
    · refine absurd (here.symm.trans ?_) nonzero
      simpa using stops

/-- Where the format ends inside a piece, the byte behind its NUL is read. -/
theorem printf_overruns (format : StringAt call.memory call.format chars) (passed : Passed fuel call chars strings)
    (enough : chars.length + 34 ≤ fuel) (broken : ¬ Complete none chars) :
    .format (chars.length + 1) ∈ (printf fuel call).run.log := by
  have runs : ∀ n scan, Reached call chars strings scan → chars.length + 1 < scan.buf + n →
      .format (chars.length + 1) ∈ (whileLoop (fun scan => do
        access (Place.format scan.buf)
        pure (call.at scan.buf != 0)) (round fuel call) n scan).run.log := by
    intro n
    induction n with
    | zero =>
        intro scan reached room
        have inside := reached.inside
        omega
    | succ n ih =>
        intro scan reached room
        have goes : call.at scan.buf ≠ 0 := by
          rcases at_drop format reached.inside with ⟨nothing, -, -⟩ | ⟨c, rest, -, -, here, nonzero, -⟩
          · refine absurd (reached.complete.mp ?_) broken
            rw [nothing]
            trivial
          · exact here ▸ nonzero
        obtain ⟨-, next, stepped, outcome⟩ := round_returns format passed enough reached goes
        have continues : (do
            access (Place.format scan.buf)
            pure (call.at scan.buf != 0) : Fueled Place Bool).run.value = some true :=
          congrArg some (bne_iff_ne.mpr goes)
        refine mem_log_later continues stepped ?_
        rcases outcome with ⟨holds, less⟩ | ⟨-, past⟩
        · exact ih next holds (by omega)
        · obtain ⟨m, rfl⟩ : ∃ m, n = m + 1 := ⟨n - 1, by have := reached.inside; omega⟩
          refine mem_log_guard ?_
          rw [past]
          exact mem_log_bind_first (List.mem_singleton.mpr rfl)
  exact runs fuel ⟨0, 0, []⟩ (reached_start call chars strings) (by simp only; omega)

end

/-- The call keeps to its format and prints what it says, piece by piece, each with its own word. -/
structure StaysInside (fuel : Nat) (call : Call) (chars : List UInt8) (strings : UInt32 → List UInt8) : Prop where
  reads : ∀ index, .format index ∈ (printf fuel call).run.log → index ≤ chars.length
  ends : ∃ last, (printf fuel call).run.value = some last ∧ last.buf = chars.length ∧
    last.esp = (pieces none chars).countP Piece.takesWord ∧
    last.printed = render strings call.words 0 (pieces none chars)

/-- For every format, all words and whatever the buffers hold: `printf` stays in its format exactly
when the format does not end inside a piece. -/
theorem printf_stays_inside_iff (call : Call) (chars : List UInt8) (strings : UInt32 → List UInt8) (fuel : Nat)
    (format : StringAt call.memory call.format chars) (passed : Passed fuel call chars strings)
    (enough : chars.length + 34 ≤ fuel) :
    StaysInside fuel call chars strings ↔ Complete none chars := by
  constructor
  · intro stays
    by_contra broken
    have index := stays.reads _ (printf_overruns format passed enough broken)
    omega
  · intro complete
    obtain ⟨places, ends⟩ := printf_returns format passed enough complete
    exact ⟨fun index member => places _ member, ends⟩

/-- A call with a format at 0x100 and one word behind it. -/
def callOf (chars : List UInt8) (word : UInt32) : Call :=
  ⟨written (fun _ => 0) 0x100 (chars ++ [0]), 0x100, fun _ => word, fun _ => 0⟩

theorem printf_stays_inside_iff_sample :
    StaysInside 64 (callOf (ascii "0x%##x\n".toList) 0xCAFE) (ascii "0x%##x\n".toList) (fun _ => []) ↔
      Complete none (ascii "0x%##x\n".toList) := by
  have noStrings : stringWords (fun _ => 0xCAFE) 0 (pieces none (ascii "0x%##x\n".toList)) = [] := by
    decide +kernel
  refine printf_stays_inside_iff _ _ _ _ (stringAt_written _ _ (by decide)) (fun word member => ?_) (by decide)
  rw [show (callOf (ascii "0x%##x\n".toList) 0xCAFE).words = fun _ => 0xCAFE from rfl, noStrings] at member
  cases member

/-- A format that is `%` alone: the byte behind its NUL is read. -/
theorem lone_percent_overruns :
    ¬ StaysInside 64 (callOf [37] 0) [37] (fun _ => []) := by
  intro stays
  have reads : .format 2 ∈ (printf 64 (callOf [37] 0)).run.log :=
    printf_overruns (stringAt_written (fun _ => 0) 0x100 (show 0 ∉ [37] by decide))
      (show Passed 64 (callOf [37] 0) [37] fun _ => [] from fun _ member => nomatch member) (by decide) (by decide)
  exact absurd (stays.reads 2 reads) (by decide)

/-! ## What the numbers denote -/

/-- The decimal numeral of an integer, with a sign in front if it is negative. -/
def SignedCanonical (value : Int) (text : List UInt8) : Prop :=
  if value < 0 then ∃ digits, text = 45 :: digits ∧ Canonical 10 value.natAbs digits else Canonical 10 value.natAbs text

/-- Exactly eight hexadecimal digits that denote the value. -/
structure EightDigits (value : Nat) (text : List UInt8) : Prop where
  length : text.length = 8
  digits : ∀ c ∈ text, IsDigit 16 c
  denotes : valueOf 16 text = value

theorem signedNumeral_canonical (value : Int) : SignedCanonical value (signedNumeral value) := by
  have canonical := numeral_canonical (show 2 ≤ 10 by decide) (by decide) value.natAbs
  unfold SignedCanonical signedNumeral
  by_cases negative : value < 0
  · rw [if_pos negative, if_pos negative]
    exact ⟨_, rfl, canonical⟩
  · rw [if_neg negative, if_neg negative]
    exact canonical

/-- Zeros in front do not change the value. -/
theorem valueOf_zeros (radix zeros : Nat) (text : List UInt8) :
    valueOf radix (List.replicate zeros 48 ++ text) = valueOf radix text := by
  induction zeros with
  | zero => rfl
  | succ zeros ih =>
      have first : 0 * radix + (digitValue 48).getD 0 = 0 := Nat.zero_mul radix
      rw [List.replicate_succ, List.cons_append, valueOf, List.foldl_cons, first]
      exact ih

theorem padded_eightDigits (word : UInt32) : EightDigits word.toNat (padded word.toNat) := by
  have canonical := numeral_canonical (show 2 ≤ 16 by decide) (by decide) word.toNat
  refine ⟨length_padded word, fun c member => ?_, ?_⟩
  · rcases List.mem_append.mp member with zero | digit
    · rw [List.eq_of_mem_replicate zero]
      exact ⟨0, by decide, rfl⟩
    · exact canonical.digits c digit
  · rw [padded, valueOf_zeros]
    exact canonical.denotes

/-- `itoa` stores the canonical text of the number and a NUL, and writes nothing else. -/
def ItoaDenotes : Prop :=
  ∀ (value : UInt32) (radix : Nat), 2 ≤ radix → radix ≤ 36 → ∀ (buf : Nat) (memory : Memory) (fuel : Nat),
    33 ≤ fuel → ∃ text, Canonical radix value.toNat text ∧
      Returns (Within buf (text.length + 1)) (fun after => after = written memory buf (text ++ [0]))
        (itoa fuel value.toNat buf radix memory)

/-- The number cases print what the word denotes, and write inside their buffers of 64 and 36 bytes. -/
def CasesDenote : Prop :=
  ∀ (word : UInt32) (convBuf : Memory) (fuel : Nat), 34 ≤ fuel →
    (∃ text, Canonical 16 word.toNat text ∧
      Returns (· < 64) (fun printed => printed = text) (printHexadecimal fuel convBuf word false)) ∧
    (∃ text, EightDigits word.toNat text ∧
      Returns (· < 64) (fun printed => printed = text) (printHexadecimal fuel convBuf word true)) ∧
    (∃ text, Canonical 10 word.toNat text ∧
      Returns (· < 36) (fun printed => printed = text) (printUnsigned fuel convBuf word)) ∧
    ∃ text, SignedCanonical word.toInt32.toInt text ∧
      Returns (· < 36) (fun printed => printed = text) (printSigned fuel convBuf word)

/-- In every format that ends with a whole piece, `printf` prints the texts of its pieces one after the
other, and those of number conversions denote their words. -/
def PrintfDenotes : Prop :=
  (∀ (call : Call) (chars : List UInt8) (strings : UInt32 → List UInt8) (fuel : Nat),
    StringAt call.memory call.format chars → Passed fuel call chars strings → chars.length + 34 ≤ fuel →
      Complete none chars →
        Returns (Inside chars.length) (fun last => last.printed = render strings call.words 0 (pieces none chars))
          (printf fuel call)) ∧
  ∀ (strings : UInt32 → List UInt8) (word : UInt32) (alternate : Bool),
    Canonical 16 word.toNat ((Piece.conversion false 120).text strings word) ∧
    EightDigits word.toNat ((Piece.conversion true 120).text strings word) ∧
    Canonical 10 word.toNat ((Piece.conversion alternate 117).text strings word) ∧
    SignedCanonical word.toInt32.toInt ((Piece.conversion alternate 100).text strings word)

theorem itoaDenotes : ItoaDenotes := by
  intro value radix least most buf memory fuel enough
  refine ⟨numeral radix value.toNat, numeral_canonical least most _, itoa_returns least most ?_⟩
  have length := numeral_length_word least value
  omega

theorem casesDenote : CasesDenote := by
  intro word convBuf fuel enough
  refine ⟨⟨_, numeral_canonical (by decide) (by decide) _, printHexadecimal_returns word convBuf false enough⟩,
    ⟨_, padded_eightDigits word, printHexadecimal_returns word convBuf true enough⟩,
    ⟨_, numeral_canonical (by decide) (by decide) _, printUnsigned_returns word convBuf (by omega)⟩,
    ⟨_, signedNumeral_canonical _, printSigned_returns word convBuf enough⟩⟩

theorem printfDenotes : PrintfDenotes := by
  refine ⟨fun call chars strings fuel format passed enough complete => ?_, fun strings word alternate => ?_⟩
  · exact (printf_returns format passed enough complete).imp fun last ends => ends.2.2
  · exact ⟨numeral_canonical (by decide) (by decide) _, padded_eightDigits word,
      numeral_canonical (by decide) (by decide) _, signedNumeral_canonical _⟩

/-- Numbers are printed as what they denote: by `itoa` in every radix, and through it by `printf`. -/
theorem number_printing_denotes : ItoaDenotes ∧ CasesDenote ∧ PrintfDenotes :=
  ⟨itoaDenotes, casesDenote, printfDenotes⟩

theorem number_printing_denotes_sample :
    ∃ text, Canonical 36 0xCAFE text ∧
      Returns (Within 8 (text.length + 1)) (fun after => after = written (fun _ => 0) 8 (text ++ [0]))
        (itoa 33 0xCAFE 8 36 fun _ => 0) :=
  number_printing_denotes.1 0xCAFE 36 (by decide) (by decide) 8 (fun _ => 0) 33 (by decide)

end LinuxLikeOS.Printf
