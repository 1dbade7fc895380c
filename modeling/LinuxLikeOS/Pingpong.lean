import LinuxLikeOS.GrepDirectory

/-!
# The bouncing letter (`ece391pingpong.c`)

A letter moves between two walls, and the program never ends. What it draws is one buffer, of which only the part
between the walls is ever cleared. After each line it reads the RTC; how long that takes is not looked at here.
-/

namespace LinuxLikeOS.Programs

open Function Blocks Fueled LinuxLikeOS.Task LinuxLikeOS.ProcessTable

/-- The variables of the loops that clear. -/
structure Blanking where
  i : Nat
  memory : Memory

def blank (buf : Nat) (blanking : Blanking) : Fueled Nat Blanking := do
  access (buf + blanking.i)
  pure ⟨blanking.i + 1, update blanking.memory (buf + blanking.i) 32⟩

/-- `for (i = first; i < last; i++) buf[i] = ' '`. -/
def blanks (fuel buf first last : Nat) (memory : Memory) : Fueled Nat Memory := do
  let blanking ← whileLoop (fun blanking => pure (decide (blanking.i < last))) (blank buf) fuel ⟨first, memory⟩
  pure blanking.memory

/-- The variables of the loops that move. -/
structure Moving where
  j : Nat
  process : Process

/-- The variables of the outer loop. -/
structure Playing where
  curchar : UInt8
  process : Process

/-- An `int` in memory. -/
def storeInt (memory : Memory) (address : Nat) (value : Int) : Memory :=
  written memory address ((List.range 4).map (byteOf (toUnsigned value)))

section

variable (image : Image) (world : World) (fuel buf retVal garbage : Nat)

/-- The letter at one place, and a read of the RTC. -/
def draw (rtcFd : Int) (curchar : UInt8) (j : Nat) (process : Process) : Fueled Nat Process := do
  let memory ← blanks fuel buf 2 78 process.memory
  access (buf + j)
  let process ← ece391Fdputs image world fuel 1 buf { process with memory := update memory (buf + j) curchar }
  let (_, process) ← ece391Read image world rtcFd garbage 4 process
  pure process

def moveOut (rtcFd : Int) (curchar : UInt8) (process : Process) : Fueled Nat Moving :=
  whileLoop (fun moving => pure (decide (moving.j < 78)))
    (fun moving => do
      let process ← draw image world fuel buf garbage rtcFd curchar moving.j moving.process
      pure ⟨moving.j + 1, process⟩) fuel ⟨2, process⟩

def bounceBack (rtcFd : Int) (curchar : UInt8) (process : Process) : Fueled Nat Moving :=
  whileLoop (fun moving => pure (decide (moving.j ≥ 2)))
    (fun moving => do
      let process ← draw image world fuel buf garbage rtcFd curchar moving.j moving.process
      pure ⟨moving.j - 1, process⟩) fuel ⟨77, process⟩

def playRound (rtcFd : Int) (playing : Playing) : Fueled Nat Playing := do
  let moving ← moveOut image world fuel buf garbage rtcFd playing.curchar playing.process
  let moving ← bounceBack image world fuel buf garbage rtcFd playing.curchar moving.process
  pure ⟨if playing.curchar = 90 then 65 else playing.curchar + 1, moving.process⟩

/-- `main`, with so many rounds of its loop. -/
def pingpongMain (rounds : Nat) (process : Process) : Fueled Nat Playing := do
  let memory ← blanks fuel buf 0 81 process.memory
  access (buf + 80)
  access (buf + 79)
  access (buf + 78)
  access (buf + 1)
  let memory := update (update (update (update memory (buf + 80) 0) (buf + 79) 10) (buf + 78) 124) (buf + 1) 124
  let (rtcFd, process) ← { process with memory := memory }.request image world
    (.open Image.rtc (world.residue process.calls)) 0
  let (ret, process) ← ece391Write image world rtcFd retVal 4
    { process with memory := storeInt process.memory retVal 32 }
  repeated (playRound image world fuel buf garbage rtcFd) rounds
    ⟨65, { process with memory := storeInt process.memory retVal ret }⟩

end

/-! ## The animation -/

/-- What stands at a place of the buffer besides the letter. -/
def wall (i : Nat) : UInt8 := if i = 80 then 0 else if i = 79 then 10 else if i = 1 ∨ i = 78 then 124 else 32

/-- A line of 80 characters with the letter at one place. -/
def frame (curchar : UInt8) (j : Nat) : List UInt8 := (List.range 80).map fun i => if i = j then curchar else wall i

/-- From one wall to the other and back. -/
def outward (curchar : UInt8) (n : Nat) : List UInt8 := (List.range n).flatMap fun i => frame curchar (2 + i)

def backward (curchar : UInt8) (n : Nat) : List UInt8 := (List.range n).flatMap fun i => frame curchar (77 - i)

/-- The letter of a round. -/
def letter (k : Nat) : UInt8 := UInt8.ofNat (65 + k % 26)

def animation (rounds : Nat) : List UInt8 :=
  (List.range rounds).flatMap fun k => outward (letter k) 76 ++ backward (letter k) 76

theorem letter_succ (k : Nat) : (if letter k = 90 then 65 else letter k + 1) = letter (k + 1) := by
  have all : ∀ r : Fin 26, (if UInt8.ofNat (65 + r.val) = 90 then 65 else UInt8.ofNat (65 + r.val) + 1) =
      UInt8.ofNat (65 + (r.val + 1) % 26) := by decide
  have step := all ⟨k % 26, Nat.mod_lt _ (by decide)⟩
  rw [Nat.mod_add_mod] at step
  exact step

theorem letter_ne_zero (k : Nat) : letter k ≠ 0 := by
  have all : ∀ r : Fin 26, UInt8.ofNat (65 + r.val) ≠ 0 := by decide
  exact all ⟨k % 26, Nat.mod_lt _ (by decide)⟩

/-! ## The buffer -/

/-- The walls stand. -/
def Walls (memory : Memory) (buf : Nat) : Prop := ∀ i < 81, ¬ (2 ≤ i ∧ i < 78) → memory (buf + i) = wall i

/-- What the loop leaves. -/
def blanked (memory : Memory) (buf first last : Nat) : Memory := fun address =>
  if Within (buf + first) (last - first) address then 32 else memory address

section

variable {memory : Memory} {buf fuel first last : Nat} {curchar : UInt8} {P : Nat → Prop}

theorem blanks_returns (order : first ≤ last) (enough : last - first < fuel)
    (writable : ∀ i, first ≤ i → i < last → P (buf + i)) :
    Returns P (fun after => after = blanked memory buf first last) (blanks fuel buf first last memory) := by
  refine (returns_while_pure (fun blanking : Blanking => decide (blanking.i < last))
    (fun blanking => ∃ i, first ≤ i ∧ i ≤ last ∧ blanking = ⟨i, blanked memory buf first i⟩)
    (fun blanking => blanking.memory = blanked memory buf first last) (fun blanking => last - blanking.i)
    ?_ ?_ ⟨first, Nat.le_refl _, order, congrArg (Blanking.mk first) ?_⟩ enough).bind fun blanking whole => returns_pure whole
  · rintro _ ⟨i, low, -, rfl⟩ goes
    have before : i < last := of_decide_eq_true goes
    refine returns_access_bind (writable i low before)
      (returns_pure ⟨⟨i + 1, Nat.le_succ_of_le low, before, congrArg (Blanking.mk (i + 1)) ?_⟩, ?_⟩)
    rotate_left
    · show last - (i + 1) < last - i
      omega
    funext address
    by_cases here : address = buf + i
    · rw [here, update_self, blanked, if_pos]
      exact ⟨by omega, by omega⟩
    · rw [update_of_ne here]
      refine if_congr ?_ rfl rfl
      unfold Within
      omega
  · rintro _ ⟨i, -, high, rfl⟩ stops
    have ended : ¬ i < last := of_decide_eq_false stops
    show blanked memory buf first i = _
    rw [Nat.le_antisymm high (Nat.le_of_not_lt ended)]
  · funext address
    exact (if_neg (by unfold Within; omega)).symm

/-- Between the walls everything is blank but the letter. -/
theorem drawn_eq (walls : Walls memory buf) {i j : Nat} (inside : i < 81) :
    update (blanked memory buf 2 78) (buf + j) curchar (buf + i) = if i = j then curchar else wall i := by
  by_cases here : i = j
  · rw [if_pos here, here, update_self]
  · rw [if_neg here, update_of_ne (by omega), blanked]
    by_cases between : 2 ≤ i ∧ i < 78
    · rw [if_pos ⟨by omega, by omega⟩, wall, if_neg (by omega), if_neg (by omega), if_neg (by omega)]
    · rw [if_neg (by unfold Within; omega), walls i inside between]

theorem drawn_walls (walls : Walls memory buf) {j : Nat} (low : 2 ≤ j) (high : j < 78) :
    Walls (update (blanked memory buf 2 78) (buf + j) curchar) buf := by
  intro i inside border
  rw [drawn_eq walls inside, if_neg (by omega)]

theorem wall_ne_zero {i : Nat} (inside : i < 80) : wall i ≠ 0 := by
  unfold wall
  rw [if_neg (by omega)]
  split_ifs <;> decide

theorem drawn_string (walls : Walls memory buf) (notNul : curchar ≠ 0) {j : Nat} (high : j < 78) :
    StringAt (update (blanked memory buf 2 78) (buf + j) curchar) buf (frame curchar j) where
  chars i inside := by
    have less : i < 80 := by simpa [frame] using inside
    rw [drawn_eq walls (by omega)]
    simp [frame]
  noNul := by
    simp only [frame, List.mem_map, List.mem_range, not_exists, not_and]
    intro i inside
    split
    · exact notNul
    · exact wall_ne_zero inside
  nul := by
    have length : (frame curchar j).length = 80 := by simp [frame]
    rw [length, drawn_eq walls (by decide), if_neg (by omega)]
    rfl

/-- The buffer as the program sets it up. -/
theorem setUp_walls (memory : Memory) (buf : Nat) :
    Walls (update (update (update (update (blanked memory buf 0 81) (buf + 80) 0) (buf + 79) 10) (buf + 78) 124)
      (buf + 1) 124) buf := by
  intro i inside border
  unfold wall
  simp only [update_apply, Nat.add_left_cancel_iff, blanked]
  rw [if_pos (show Within (buf + 0) (81 - 0) (buf + i) from ⟨by omega, by omega⟩)]
  split_ifs <;> first | rfl | omega

end

/-! ## The program -/

section

variable {image : Image} {world : World} {fuel buf retVal garbage k : Nat} {curchar : UInt8} {text : List UInt8}
  {start process : Process} {playing : Playing} {P : Nat → Prop}

/-- What has been drawn since `start`, and what the loops rely on. -/
structure Drawn (buf : Nat) (start : Process) (text : List UInt8) (process : Process) : Prop where
  printed : process.printed = start.printed ++ text
  standard : StandardOpen process.fds
  rtc : ∃ inode, process.fds 2 = ⟨.rtc, inode, 0, .open⟩
  walls : Walls process.memory buf
  outside : ∀ address, ¬ Within buf 81 address → process.memory address = start.memory address

theorem draw_returns {j : Nat} (drawn : Drawn buf start text process) (notNul : curchar ≠ 0) (low : 2 ≤ j)
    (high : j < 78) (enough : 80 < fuel) :
    Returns (Within buf 81) (Drawn buf start (text ++ frame curchar j))
      (draw image world fuel buf garbage (2 : Fin 8).val curchar j process) := by
  have length : (frame curchar j).length = 80 := by simp [frame]
  refine (blanks_returns (by decide) (by omega) fun i _ less => within_add buf (by omega)).bind ?_
  rintro _ rfl
  refine returns_access_bind (within_add buf (by omega)) ?_
  let shows : Process := { process with memory := update (blanked process.memory buf 2 78) (buf + j) curchar }
  have string : StringAt shows.memory buf (frame curchar j) := drawn_string drawn.walls notNul high
  have standard : StandardOpen shows.fds := drawn.standard
  refine (fdputs_returns False.elim standard string (by omega) (by omega)
    fun address inside => ?_).bind fun shown prints => ?_
  · rwa [length] at inside
  obtain ⟨inode, opened⟩ := drawn.rtc
  refine (readRtc_returns (by decide) (prints.fds ▸ opened) (by decide) False.elim).bind ?_
  rintro ⟨cnt, after⟩ ⟨-, does, fds, memory⟩
  refine returns_pure ⟨?_, ?_, ⟨inode, ?_⟩, ?_, fun address away => ?_⟩
  · rw [does.printed, prints.printed, List.append_nil, ← List.append_assoc]
    exact congrArg (· ++ frame curchar j) drawn.printed
  · rw [fds, prints.fds]
    exact drawn.standard
  · rw [fds, prints.fds]
    exact opened
  · rw [memory, prints.memory]
    exact drawn_walls drawn.walls low high
  · rw [memory, prints.memory, ← drawn.outside address away]
    show update (blanked process.memory buf 2 78) (buf + j) curchar address = _
    rw [update_of_ne, blanked, if_neg]
    · exact fun inside => away ⟨by have := inside.1; omega, by have := inside.2; omega⟩
    · rintro rfl
      exact away (within_add buf (by omega))

theorem outward_succ (curchar : UInt8) (n : Nat) :
    outward curchar (n + 1) = outward curchar n ++ frame curchar (2 + n) := by
  rw [outward, List.range_succ, List.flatMap_append, List.flatMap_singleton]
  rfl

theorem backward_succ (curchar : UInt8) (n : Nat) :
    backward curchar (n + 1) = backward curchar n ++ frame curchar (77 - n) := by
  rw [backward, List.range_succ, List.flatMap_append, List.flatMap_singleton]
  rfl

theorem moveOut_returns (drawn : Drawn buf start text process) (notNul : curchar ≠ 0) (enough : 80 < fuel) :
    Returns (Within buf 81) (fun moving => Drawn buf start (text ++ outward curchar 76) moving.process)
      (moveOut image world fuel buf garbage (2 : Fin 8).val curchar process) := by
  refine returns_while_pure (fun moving : Moving => decide (moving.j < 78))
    (fun moving => ∃ n, moving.j = 2 + n ∧ n ≤ 76 ∧ Drawn buf start (text ++ outward curchar n) moving.process) _
    (fun moving => 78 - moving.j) ?_ ?_ ⟨0, rfl, Nat.zero_le _, (List.append_nil text).symm ▸ drawn⟩ (by omega)
  · rintro ⟨_, process⟩ ⟨n, rfl, -, drawn⟩ goes
    have before : 2 + n < 78 := of_decide_eq_true goes
    refine (draw_returns drawn notNul (by omega) before enough).bind fun next drawn => returns_pure ?_
    rw [List.append_assoc, ← outward_succ] at drawn
    refine ⟨⟨n + 1, rfl, by omega, drawn⟩, ?_⟩
    show 78 - (2 + n + 1) < 78 - (2 + n)
    omega
  · rintro ⟨_, process⟩ ⟨n, rfl, most, drawn⟩ stops
    have ended : ¬ 2 + n < 78 := of_decide_eq_false stops
    obtain rfl : n = 76 := by omega
    exact drawn

theorem bounceBack_returns (drawn : Drawn buf start text process) (notNul : curchar ≠ 0) (enough : 80 < fuel) :
    Returns (Within buf 81) (fun moving => Drawn buf start (text ++ backward curchar 76) moving.process)
      (bounceBack image world fuel buf garbage (2 : Fin 8).val curchar process) := by
  refine returns_while_pure (fun moving : Moving => decide (moving.j ≥ 2))
    (fun moving => ∃ n, moving.j = 77 - n ∧ n ≤ 76 ∧ Drawn buf start (text ++ backward curchar n) moving.process) _
    (fun moving => moving.j) ?_ ?_ ⟨0, rfl, Nat.zero_le _, (List.append_nil text).symm ▸ drawn⟩
    (show 77 < fuel by omega)
  · rintro ⟨_, process⟩ ⟨n, rfl, most, drawn⟩ goes
    have before : 77 - n ≥ 2 := of_decide_eq_true goes
    refine (draw_returns drawn notNul before (by omega) enough).bind fun next drawn => returns_pure ?_
    rw [List.append_assoc, ← backward_succ] at drawn
    refine ⟨⟨n + 1, rfl, by omega, drawn⟩, ?_⟩
    show 77 - n - 1 < 77 - n
    omega
  · rintro ⟨_, process⟩ ⟨n, rfl, most, drawn⟩ stops
    have ended : ¬ 77 - n ≥ 2 := of_decide_eq_false stops
    obtain rfl : n = 76 := by omega
    exact drawn

theorem storeInt_outside {memory : Memory} {address other : Nat} {value : Int} (away : ¬ Within address 4 other) :
    storeInt memory address value other = memory other := written_outside memory away

/-- A process that has just been started opens the RTC. -/
theorem openRtc_returns (wellFormed : image.WellFormedDirectory) (entry : image.entryNamed Image.rtc = some k)
    (device : (image.direntry k).filetype = 0) {stale : Table} (fds : process.fds = initFds stale) :
    Returns P (fun answer => answer.1 = ((2 : Fin 8).val : Int) ∧ Does world False process answer.2 [] ∧
        StandardOpen answer.2.fds ∧ (∃ inode, answer.2.fds 2 = ⟨.rtc, inode, 0, .open⟩) ∧
        answer.2.memory = process.memory)
      (process.request image world (.open Image.rtc (world.residue process.calls)) 0) := by
  rcases image.readDentryByName_cases wellFormed Image.rtc (world.residue process.calls).dentry with
    ⟨missing, -⟩ | ⟨index, copied, entry', found, sameType, -, -⟩
  · rw [entry] at missing
    cases missing
  obtain rfl : k = index := Option.some.inj (entry.symm.trans entry')
  refine (openRequest_returns (False.elim : False → world.Considerate) Image.rtc found (by omega)
    (by rw [fds, firstClosed_initFds]) (Or.inl (sameType.trans device))).imp ?_
  rintro ⟨fd, opened⟩ ⟨rfl, does, table, memory⟩
  rw [fds, sameType, device] at table
  refine ⟨rfl, does, fun fd low => ?_, ⟨copied.inodeNum, by rw [table, update_self]; rfl⟩, memory⟩
  have apart : fd ≠ 2 := by
    rintro rfl
    exact absurd low (by decide)
  rw [table, update_of_ne apart]
  exact initFds_standardOpen stale fd low

/-- A write of a rate to the RTC prints nothing and keeps the descriptors. -/
theorem writeRtc_returns {inode : Nat} (opened : process.fds 2 = ⟨.rtc, inode, 0, .open⟩) (address : Nat) :
    Returns P (fun answer => answer.2.printed = process.printed ∧ answer.2.fds = process.fds ∧
        answer.2.memory = process.memory)
      (ece391Write image world (2 : Fin 8).val address 4 process) := by
  have named : descriptor? (Int32.ofInt (2 : Fin 8).val) = some 2 := descriptor_val 2
  have going : ¬ ((2 : Fin 8) = 0 ∨ (process.fds 2).flags = .close) := by
    rw [opened]
    rintro (zero | closed)
    · exact absurd zero (by decide)
    · cases closed
  have driver : (process.fds 2).fops = .rtc := by rw [opened]
  have called : (process.task world).call image
      (.write (Int32.ofInt (2 : Fin 8).val) (some (behind process.memory address)) (Int32.ofInt 4)) =
        some (.plain ((process.task world).rtcWrite (behind process.memory address) (Int32.ofInt 4).toInt).1,
          ((process.task world).rtcWrite (behind process.memory address) (Int32.ofInt 4).toInt).2) := by
    simp only [Task.call, Task.write, named, Process.task, if_neg going, driver, driverWrite, Option.map_some]
  have table : ((process.task world).rtcWrite (behind process.memory address) (Int32.ofInt 4).toInt).2.fds =
      process.fds := by
    simp only [rtcWrite]
    split_ifs <;> rfl
  have silent : output process.fds
      (.write (Int32.ofInt (2 : Fin 8).val) (some (behind process.memory address)) (Int32.ofInt 4)) = [] := by
    have other : ¬ ((2 : Fin 8) ≠ 0 ∧ (process.fds 2).flags = .open ∧ (process.fds 2).fops = .terminal) := by
      rw [opened]
      rintro ⟨-, -, terminal⟩
      cases terminal
    simp only [output, named, if_neg other]
  refine returns_request called ⟨?_, table, storedAt_nothing 0 _⟩
  show process.printed ++ output process.fds _ = _
  rw [silent, List.append_nil]

/-- The animation after so many rounds. -/
def Played (buf : Nat) (start : Process) (rounds : Nat) (playing : Playing) : Prop :=
  playing.curchar = letter rounds ∧ Drawn buf start (animation rounds) playing.process

theorem playRound_returns {rounds : Nat} (played : Played buf start rounds playing) (enough : 80 < fuel) :
    Returns (Within buf 81) (Played buf start (rounds + 1))
      (playRound image world fuel buf garbage (2 : Fin 8).val playing) := by
  obtain ⟨same, drawn⟩ := played
  have notNul := letter_ne_zero rounds
  unfold playRound
  rw [same]
  refine (moveOut_returns drawn notNul enough).bind fun out drawn => ?_
  refine (bounceBack_returns drawn notNul enough).bind fun back drawn => returns_pure ⟨letter_succ rounds, ?_⟩
  have next : animation (rounds + 1) =
      animation rounds ++ outward (letter rounds) 76 ++ backward (letter rounds) 76 := by
    rw [animation, List.range_succ, List.flatMap_append, List.flatMap_singleton, List.append_assoc]
    rfl
  rw [next]
  exact drawn

/-- However long it runs, the program draws its letter from wall to wall and back, then the next one of the alphabet,
in lines of 80 characters, and writes nothing but its buffer and the variable it sets the rate with. -/
theorem letter_bounces (rounds : Nat) (wellFormed : image.WellFormedDirectory)
    (entry : image.entryNamed Image.rtc = some k) (device : (image.direntry k).filetype = 0) (stale : Table)
    (fresh : start.fds = initFds stale) (apart : ∀ address, Within retVal 4 address → ¬ Within buf 81 address)
    (enough : 81 < fuel) :
    Returns (Within buf 81) (fun playing => playing.curchar = letter rounds ∧
        playing.process.printed = start.printed ++ animation rounds ∧
        ∀ address, ¬ Within buf 81 address → ¬ Within retVal 4 address →
          playing.process.memory address = start.memory address)
      (pingpongMain image world fuel buf retVal garbage rounds start) := by
  refine (blanks_returns (by decide) (by omega) fun i _ less => within_add buf (by omega)).bind ?_
  rintro _ rfl
  refine returns_access_bind (within_add buf (by decide)) (returns_access_bind (within_add buf (by decide))
    (returns_access_bind (within_add buf (by decide)) (returns_access_bind (within_add buf (by decide)) ?_)))
  have walls := setUp_walls start.memory buf
  have outside : ∀ address, ¬ Within buf 81 address → update (update (update (update (blanked start.memory buf 0 81)
      (buf + 80) 0) (buf + 79) 10) (buf + 78) 124) (buf + 1) 124 address = start.memory address := by
    intro address away
    unfold Within at away
    rw [update_of_ne (by omega), update_of_ne (by omega), update_of_ne (by omega), update_of_ne (by omega), blanked,
      if_neg (by unfold Within; omega)]
  generalize update (update (update (update (blanked start.memory buf 0 81) (buf + 80) 0) (buf + 79) 10) (buf + 78) 124)
    (buf + 1) 124 = memory at walls outside ⊢
  let board : Process := { start with memory := memory }
  have fds : board.fds = initFds stale := fresh
  refine (openRtc_returns wellFormed entry device fds).bind ?_
  rintro ⟨rtcFd, opened⟩ ⟨rfl, does, standard, ⟨inode, rtc⟩, same⟩
  let rated : Process := { opened with memory := storeInt opened.memory retVal 32 }
  have device : rated.fds 2 = ⟨.rtc, inode, 0, .open⟩ := rtc
  refine (writeRtc_returns device retVal).bind ?_
  rintro ⟨ret, wrote⟩ ⟨printed, table, stored⟩
  let begun : Process := { wrote with memory := storeInt wrote.memory retVal ret }
  have kept : ∀ address, ¬ Within retVal 4 address → begun.memory address = memory address := by
    intro address away
    show storeInt wrote.memory retVal ret address = _
    rw [storeInt_outside away, stored]
    exact (storeInt_outside away).trans (congrFun same address)
  have drawn : Drawn buf begun (animation 0) begun := by
    refine ⟨(List.append_nil _).symm, ?_, ⟨inode, ?_⟩, fun i inside border => ?_, fun _ _ => rfl⟩
    · show StandardOpen wrote.fds
      rw [table]
      exact standard
    · show wrote.fds 2 = _
      rw [table]
      exact rtc
    · rw [kept _ fun within => apart _ within (within_add buf inside), walls i inside border]
  have played : Played buf begun 0 ⟨65, begun⟩ := ⟨rfl, drawn⟩
  refine (returns_repeated (Played buf begun) (fun k playing played => playRound_returns played (by omega)) played
    rounds).imp ?_
  rintro playing ⟨last, drawn⟩
  rw [Nat.zero_add] at last drawn
  refine ⟨last, ?_, fun address away apart' => ?_⟩
  · have all : begun.printed = start.printed := by
      show wrote.printed = _
      rw [printed]
      exact does.printed.trans (List.append_nil _)
    rw [drawn.printed, all]
  · rw [drawn.outside address away, kept address apart', outside address away]

end

theorem letter_bounces_sample : Returns (Within 0 81) (fun playing => playing.curchar = letter 30 ∧
      playing.process.printed = (Process.started "pingpong").printed ++ animation 30 ∧
      ∀ address, ¬ Within 0 81 address → ¬ Within 100 4 address →
        playing.process.memory address = (Process.started "pingpong").memory address)
    (pingpongMain Image.sample World.quiet 82 0 100 104 30 (Process.started "pingpong")) :=
  letter_bounces (k := 2) 30 Image.sample_wellFormed (by decide +kernel) (by decide +kernel) unusedTable rfl
    (fun address low high => by unfold Within at low high; omega) (by decide)

end LinuxLikeOS.Programs
