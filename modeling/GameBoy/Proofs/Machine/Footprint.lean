import GameBoy.Proofs.Cpu.Decimal
import GameBoy.Proofs.Cpu.Shift

/-!
# What an instruction changes

An instruction changes what it names and nothing else.  `Instruction.footprint` lists what it names
of the processor: the registers and the flags that it may change, and whether it may move the stack
pointer or the program counter, switch the interrupts or stop the processor.  `Machine.store` says
what it writes to memory: nothing, a byte, or a word.

`Machine.instruction_footprint` says that the processor stays the same outside the footprint
(`Cpu.SameOutside`) and that exactly the writes of the store are made.  The proof goes family by
family; that of the jumps starts from `Machine.run_jump`, since their footprint depends on whether
they are taken.
-/

namespace GameBoy

/-! ## Flags by name -/

/-- The flags, by name. -/
inductive Flag where
  | zero | subtract | halfCarry | carry
  deriving DecidableEq, Repr

/-- All four flags. -/
def Flag.all : List Flag := [zero, subtract, halfCarry, carry]

/-- There are no other flags. -/
theorem Flag.mem_all (flag : Flag) : flag ∈ all := by
  cases flag <;> decide

/-- What is none of the other three is the zero flag. -/
theorem Flag.eq_zero {flag : Flag} (h : flag ∉ [subtract, halfCarry, carry]) : flag = zero := by
  cases flag <;> first | rfl | exact absurd (by decide) h

/-- What is none of the other three is the subtract flag. -/
theorem Flag.eq_subtract {flag : Flag} (h : flag ∉ [zero, halfCarry, carry]) :
    flag = subtract := by
  cases flag <;> first | rfl | exact absurd (by decide) h

/-- What is none of the other three is the carry flag. -/
theorem Flag.eq_carry {flag : Flag} (h : flag ∉ [zero, subtract, halfCarry]) : flag = carry := by
  cases flag <;> first | rfl | exact absurd (by decide) h

/-- The value of a flag. -/
def Flags.get (f : Flags) : Flag → Bool
  | .zero => f.zero
  | .subtract => f.subtract
  | .halfCarry => f.halfCarry
  | .carry => f.carry

/-! ## Footprints -/

/-- The parts of the processor that an instruction may change. -/
structure Footprint where
  registers : List Register := []
  flags : List Flag := []
  stackPointer : Bool := false
  programCounter : Bool := false
  ime : Bool := false
  imeSwitch : Bool := false
  activity : Bool := false

/-- The processor changes in the footprint only.  No footprint includes the cycle counter. -/
structure Cpu.SameOutside (footprint : Footprint) (before after : Cpu) : Prop where
  register : ∀ r ∉ footprint.registers, after.register r = before.register r
  flag : ∀ flag ∉ footprint.flags, after.f.get flag = before.f.get flag
  stackPointer : footprint.stackPointer = false → after.sp = before.sp
  programCounter : footprint.programCounter = false → after.pc = before.pc
  ime : footprint.ime = false → after.ime = before.ime
  imeSwitch : footprint.imeSwitch = false → after.imeSwitch = before.imeSwitch
  activity : footprint.activity = false → after.activity = before.activity
  cycles : after.cycles = before.cycles

namespace Cpu

variable {footprint : Footprint} {cpu cpu' cpu'' : Cpu}

/-- A processor that does not change changes in no footprint. -/
theorem SameOutside.refl (footprint : Footprint) (cpu : Cpu) : SameOutside footprint cpu cpu where
  register _ _ := rfl
  flag _ _ := rfl
  stackPointer _ := rfl
  programCounter _ := rfl
  ime _ := rfl
  imeSwitch _ := rfl
  activity _ := rfl
  cycles := rfl

/-- Two changes in a footprint are one. -/
theorem SameOutside.trans (h : SameOutside footprint cpu cpu')
    (h' : SameOutside footprint cpu' cpu'') : SameOutside footprint cpu cpu'' where
  register r hr := (h'.register r hr).trans (h.register r hr)
  flag f hf := (h'.flag f hf).trans (h.flag f hf)
  stackPointer hout := (h'.stackPointer hout).trans (h.stackPointer hout)
  programCounter hout := (h'.programCounter hout).trans (h.programCounter hout)
  ime hout := (h'.ime hout).trans (h.ime hout)
  imeSwitch hout := (h'.imeSwitch hout).trans (h.imeSwitch hout)
  activity hout := (h'.activity hout).trans (h.activity hout)
  cycles := h'.cycles.trans h.cycles

/-- Setting a register changes that register. -/
theorem sameOutside_setRegister (cpu : Cpu) {r : Register} (hr : r ∈ footprint.registers)
    (value : UInt8) : SameOutside footprint cpu (cpu.setRegister r value) := by
  constructor
  case register =>
    intro s hs
    -- A register that is not named is another one.
    have hne : s ≠ r := fun h => hs (h ▸ hr)
    rw [register_setRegister, if_neg hne]
  -- The other parts are fields of their own.
  all_goals cases r <;> intros <;> rfl

/-- Setting flags changes those that differ. -/
theorem sameOutside_flags (cpu : Cpu) {f : Flags}
    (hf : ∀ flag ∉ footprint.flags, f.get flag = cpu.f.get flag) :
    SameOutside footprint cpu { cpu with f := f } := by
  constructor
  case flag => exact hf
  -- F is not among the registers that have names of their own.
  case register => intro r _; cases r <;> rfl
  all_goals intros; rfl

/-- A pair of registers takes a word. -/
theorem sameOutside_setPair (cpu : Cpu) (r s : Register) (hr : r ∈ footprint.registers)
    (hs : s ∈ footprint.registers) (w : UInt16) :
    SameOutside footprint cpu ((cpu.setRegister r (Word.high w)).setRegister s (Word.low w)) :=
  (cpu.sameOutside_setRegister hr _).trans (sameOutside_setRegister _ hs _)

/-- The other parts change all at once, each only if it is in the footprint. -/
theorem sameOutside_rest (cpu : Cpu) {sp pc : UInt16} {ime : Bool} {imeSwitch : PendingSwitch}
    {activity : Activity} (hsp : footprint.stackPointer = false → sp = cpu.sp)
    (hpc : footprint.programCounter = false → pc = cpu.pc)
    (hime : footprint.ime = false → ime = cpu.ime)
    (hswitch : footprint.imeSwitch = false → imeSwitch = cpu.imeSwitch)
    (hactivity : footprint.activity = false → activity = cpu.activity) :
    SameOutside footprint cpu { cpu with
      sp := sp, pc := pc, ime := ime, imeSwitch := imeSwitch, activity := activity } where
  register r _ := by cases r <;> rfl
  flag _ _ := rfl
  stackPointer := hsp
  programCounter := hpc
  ime := hime
  imeSwitch := hswitch
  activity := hactivity
  cycles := rfl

end Cpu

/-! ## What instructions name -/

/-- Whether a jump under a condition is taken. -/
def Cpu.takes (cpu : Cpu) : Option Condition → Bool
  | none => true
  | some c => cpu.holds c

/-- A register that is named is changed; a byte in memory is no part of the processor. -/
def Place.footprint : Place → Footprint
  | register r => { registers := [r] }
  | atHL => {}

/-- A word register is a pair of registers or the stack pointer. -/
def WordRegister.footprint : WordRegister → Footprint
  | bc => { registers := [.b, .c] }
  | de => { registers := [.d, .e] }
  | hl => { registers := [.h, .l] }
  | sp => { stackPointer := true }

/-- A pair that is pushed and popped; AF includes the flags. -/
def StackRegister.footprint : StackRegister → Footprint
  | bc => { registers := [.b, .c] }
  | de => { registers := [.d, .e] }
  | hl => { registers := [.h, .l] }
  | af => { registers := [.a], flags := Flag.all }

/-- HL counts as well if the pointer moves it. -/
def Pointer.footprint : Pointer → Footprint
  | bc | de => {}
  | hlIncrement | hlDecrement => { registers := [.h, .l] }

namespace Cpu

variable {footprint : Footprint}

/-- Setting a word register changes its own parts. -/
theorem sameOutside_setWordRegister (cpu : Cpu) (target : WordRegister)
    (hregisters : target.footprint.registers ⊆ footprint.registers)
    (hsp : target = .sp → footprint.stackPointer = true) (w : UInt16) :
    SameOutside footprint cpu (cpu.setWordRegister target w) := by
  cases target with
  | bc => exact cpu.sameOutside_setPair .b .c (hregisters (by decide)) (hregisters (by decide)) w
  | de => exact cpu.sameOutside_setPair .d .e (hregisters (by decide)) (hregisters (by decide)) w
  | hl => exact cpu.sameOutside_setPair .h .l (hregisters (by decide)) (hregisters (by decide)) w
  | sp =>
    -- The footprint has the stack pointer in it, so there is nothing to show about that.
    have hout : footprint.stackPointer ≠ false := by rw [hsp rfl]; decide
    exact cpu.sameOutside_rest (fun h => absurd h hout) (fun _ => rfl) (fun _ => rfl) (fun _ => rfl)
      (fun _ => rfl)

/-- Setting a pair that is popped changes its own parts. -/
theorem sameOutside_setStackRegister (cpu : Cpu) (target : StackRegister)
    (hregisters : target.footprint.registers ⊆ footprint.registers)
    (hflags : target.footprint.flags ⊆ footprint.flags) (w : UInt16) :
    SameOutside footprint cpu (cpu.setStackRegister target w) := by
  cases target with
  | bc => exact cpu.sameOutside_setPair .b .c (hregisters (by decide)) (hregisters (by decide)) w
  | de => exact cpu.sameOutside_setPair .d .e (hregisters (by decide)) (hregisters (by decide)) w
  | hl => exact cpu.sameOutside_setPair .h .l (hregisters (by decide)) (hregisters (by decide)) w
  | af =>
    refine (cpu.sameOutside_setRegister (r := .a) (hregisters (by decide)) (Word.high w)).trans ?_
    -- A pop of AF names all flags, so there is no other one.
    exact sameOutside_flags _ fun flag hflag => absurd (hflags flag.mem_all) hflag

end Cpu

/-- A load changes its target, and the pointer and the stack pointer that it moves. -/
def Load.footprint : Load → Footprint
  | copy target _ | byte target => target.footprint
  | word target => target.footprint
  | accumulatorFrom pointer => { registers := .a :: pointer.footprint.registers }
  | accumulatorTo pointer => pointer.footprint
  | storeStackPointer | storeHigh | storeHighC | storeAbsolute => {}
  | loadHigh | loadHighC | loadAbsolute => { registers := [.a] }
  | stackPointerFromHL | push _ => { stackPointer := true }
  | stackOffset => { registers := [.h, .l], flags := Flag.all }
  | pop target => { target.footprint with stackPointer := true }

/-- Control instructions change whether the processor runs. -/
def Control.footprint : Control → Footprint
  | nop => {}
  | halt | stop => { activity := true }

/-- A jump that is not taken changes nothing. -/
def Jump.footprint (cpu : Cpu) : Jump → Footprint
  | relative condition | absolute condition => { programCounter := cpu.takes condition }
  | toHL => { programCounter := true }
  | call condition | ret condition =>
    { programCounter := cpu.takes condition, stackPointer := cpu.takes condition }
  | restart _ => { programCounter := true, stackPointer := true }
  | retEnable => { programCounter := true, stackPointer := true, ime := true }

/-- A comparison changes the flags alone, and counting keeps the carry. -/
def Calculation.footprint : Calculation → Footprint
  | accumulate .cp _ => { flags := Flag.all }
  | accumulate _ _ => { registers := [.a], flags := Flag.all }
  | increment target | decrement target =>
    { target.footprint with flags := [.zero, .subtract, .halfCarry] }
  | addWord _ => { registers := [.h, .l], flags := [.subtract, .halfCarry, .carry] }
  | incrementWord target | decrementWord target => target.footprint
  | addStackPointer => { stackPointer := true, flags := Flag.all }

/-- A test changes flags, and the others change the byte. -/
def BitAccess.footprint (i : BitAccess) : Footprint :=
  match i.action with
  | .test => { flags := [.zero, .subtract, .halfCarry] }
  | .reset | .set => i.place.footprint

/-- A shift changes the byte and all flags. -/
def Shift.footprint (i : Shift) : Footprint := { i.place.footprint with flags := Flag.all }

/-- Each of these instructions names its own flags. -/
def Misc.footprint : Misc → Footprint
  | decimalAdjust => { registers := [.a], flags := [.zero, .halfCarry, .carry] }
  | setCarry | complementCarry => { flags := [.subtract, .halfCarry, .carry] }
  | complement => { registers := [.a], flags := [.subtract, .halfCarry] }
  | disableInterrupts | enableInterrupts => { imeSwitch := true }
  | rotate _ => { registers := [.a], flags := Flag.all }

/-- What an instruction may change of the processor that it finds. -/
def Instruction.footprint (cpu : Cpu) : Instruction → Footprint
  | load op => op.footprint
  | control op => op.footprint
  | jump op => op.footprint cpu
  | calculation op => op.footprint
  | bit op => op.footprint
  | shift op => op.footprint
  | misc op => op.footprint
  | extend => {}

/-! ## Stores -/

/-- What an instruction writes to memory. -/
inductive Store where
  | nothing
  | byte (addr : UInt16) (value : UInt8)
  | word (addr value : UInt16)
  deriving DecidableEq, Repr

/-- The single writes of a store; a word goes with its low byte first. -/
def Store.writes : Store → List (UInt16 × UInt8)
  | nothing => []
  | byte addr value => [(addr, value)]
  | word addr value => [(addr, Word.low value), (addr + 1, Word.high value)]

/-- The address in a pointer, before the pointer moves. -/
def Cpu.pointer (cpu : Cpu) : Pointer → UInt16
  | .bc => cpu.bc
  | .de => cpu.de
  | .hlIncrement | .hlDecrement => cpu.hl

/-- The write that an access is, if it is one. -/
def Access.written? : Access → Option (UInt16 × UInt8)
  | write addr value => some (addr, value)
  | read _ | poll | acknowledge _ => none

/-- Bytes are written to memory, the first one first. -/
def Memory.writeAll {μ : Type} [Memory μ] (m : μ) (writes : List (UInt16 × UInt8)) : μ :=
  writes.foldl (fun m write => Memory.write m write.1 write.2) m

/-- Accesses to bytes leave what their writes make. -/
theorem Access.performAll_of_isByte {μ : Type} [Memory μ] (m : μ) {accesses : List Access}
    (h : ∀ access ∈ accesses, access.IsByte) :
    performAll m accesses = Memory.writeAll m (accesses.filterMap written?) := by
  induction accesses generalizing m with
  | nil => rfl
  | cons access rest ih =>
    obtain ⟨hbyte, hrest⟩ := List.forall_mem_cons.mp h
    cases access with
    | read addr => exact ih m hrest
    -- Only writes change the memory, and only they are kept.
    | write addr value => exact ih _ hrest
    | poll => cases hbyte
    | acknowledge source => cases hbyte

namespace Machine

variable {μ : Type} [Memory μ]

/-- A byte that goes to a place is stored if the place is in memory. -/
def storeAt (m : Machine μ) (place : Place) (value : UInt8) : Store :=
  match place with
  | .register _ => .nothing
  | .atHL => .byte m.cpu.hl value

/-- The word goes below the stack. -/
def pushed (m : Machine μ) (w : UInt16) : Store := .word (m.cpu.sp - 2) w

/-- What a load writes. -/
def loadStore (m : Machine μ) (operand : UInt16) : Load → Store
  | .copy target source => m.storeAt target (m.placeByte source)
  | .byte target => m.storeAt target (Word.low operand)
  | .accumulatorTo pointer => .byte (m.cpu.pointer pointer) m.cpu.a
  | .storeStackPointer => .word operand m.cpu.sp
  | .push source => m.pushed (m.cpu.stackRegister source)
  | .storeHigh => .byte (Execution.highAddress (Word.low operand)) m.cpu.a
  | .storeHighC => .byte (Execution.highAddress m.cpu.c) m.cpu.a
  | .storeAbsolute => .byte operand m.cpu.a
  | _ => .nothing

/-- What a jump writes: a call that is taken stores where to return to. -/
def jumpStore (m : Machine μ) : Jump → Store
  | .call condition => if m.cpu.takes condition then m.pushed m.cpu.pc else .nothing
  | .restart _ => m.pushed m.cpu.pc
  | _ => .nothing

/-- What an instruction writes, given the machine that it finds. -/
def store (m : Machine μ) (operand : UInt16) : Instruction → Store
  | .load op => m.loadStore operand op
  | .jump op => m.jumpStore op
  | .calculation (.increment target) =>
    m.storeAt target (Arithmetic.increment (m.placeByte target) m.cpu.f).1
  | .calculation (.decrement target) =>
    m.storeAt target (Arithmetic.decrement (m.placeByte target) m.cpu.f).1
  | .bit ⟨.reset, index, place⟩ => m.storeAt place (m.placeByte place &&& ~~~(1 <<< index))
  | .bit ⟨.set, index, place⟩ => m.storeAt place (m.placeByte place ||| (1 <<< index))
  | .shift ⟨op, place⟩ => m.storeAt place (m.shifted op place).1
  | _ => .nothing

/-! ## The writes of an instruction -/

/-- The writes that an instruction issues, in order. -/
def writes (m : Machine μ) (i : Instruction) (operand : UInt16) : List (UInt16 × UInt8) :=
  (accessesOf (Execution.execute i operand) m).filterMap Access.written?

/-- The memory after an instruction is what its writes make of it. -/
theorem memory_carried (m : Machine μ) (i : Instruction) (operand : UInt16) :
    (m.carried i operand).memory = Memory.writeAll m.memory (m.writes i operand) := by
  -- An instruction does not reach the interrupt controller, so its writes are all that counts.
  have hbytes : ∀ access ∈ accessesOf (Execution.execute i operand) m, access.IsByte :=
    (Execution.uniform_execute Execution.uniform_onlyBytes Execution.onlyBytes_modify i operand
      m.cpu).forall_accesses m.memory
  rw [writes, ← Access.performAll_of_isByte m.memory hbytes]
  exact Transaction.run_memory Listener.deaf _ m.memory ()

/-- A load writes its store. -/
theorem writes_load (m : Machine μ) (op : Load) (operand : UInt16) :
    m.writes (.load op) operand = (m.loadStore operand op).writes := by
  cases op with
  | copy target source => cases target <;> cases source <;> rfl
  | byte target => cases target <;> rfl
  | accumulatorFrom pointer => cases pointer <;> rfl
  | accumulatorTo pointer => cases pointer <;> rfl
  | _ => rfl

/-! ## Jumps -/

section Jumps

variable {op : Jump} {operand : UInt16} {condition : Option Condition} {action : Execution Unit}
  (hjump : Execution.jump operand op = Execution.whenHolds condition action) (m : Machine μ)
include hjump

/-- A jump does what it does when it is taken, or nothing. -/
theorem run_jump (cpu : Cpu) : (Execution.execute (.jump op) operand).run cpu =
    if cpu.takes condition then
      (do action; return op.cycles + op.takenPenalty : Execution UInt8).run cpu
    else pure (op.cycles, cpu) := by
  have hexecute : Execution.execute (.jump op) operand = (do
      if ← Execution.whenHolds condition action then return op.cycles + op.takenPenalty
      else return op.cycles) := hjump ▸ rfl
  rw [hexecute]
  -- Whether the jump is taken decides on its cost as well, so the two are split together.
  cases condition with
  | none => simp [Execution.whenHolds, Cpu.takes]
  | some c => cases h : cpu.holds c <;> simp [Execution.whenHolds, Cpu.takes, h]

/-- The machine after a jump is that after its action, or the machine before. -/
theorem carried_jump : m.carried (.jump op) operand =
    if m.cpu.takes condition then (m.perform action Listener.deaf ()).2.1 else m := by
  rw [carried, perform, run_jump hjump]
  cases m.cpu.takes condition with
  | true =>
    show (m.perform (action >>= fun _ => return op.cycles + op.takenPenalty)
      Listener.deaf ()).2.1 = _
    rw [perform_bind]
    rfl
  | false => rfl

/-- A jump writes what its action writes, or nothing. -/
theorem writes_jump : m.writes (.jump op) operand =
    if m.cpu.takes condition then (accessesOf action m).filterMap Access.written? else [] := by
  rw [writes, accessesOf, run_jump hjump]
  cases m.cpu.takes condition with
  | true =>
    show ((action.run m.cpu >>= fun r =>
      return (op.cycles + op.takenPenalty, r.2)).accesses m.memory).filterMap _ = _
    rw [Transaction.accesses_bind]
    -- What follows the action is the cost, which takes no access.
    exact congrArg (List.filterMap _) (List.append_nil _)
  | false => rfl

/-- Only a jump that is taken has to be looked at. -/
theorem sameOutside_of_taken {footprint : Footprint}
    (htaken : m.cpu.takes condition = true →
      m.cpu.SameOutside footprint (m.perform action Listener.deaf ()).2.1.cpu) :
    m.cpu.SameOutside footprint (m.carried (.jump op) operand).cpu := by
  rw [carried_jump hjump]
  split
  · exact htaken ‹_›
  · exact .refl ..

end Jumps

/-- A jump writes its store. -/
theorem writes_eq_jumpStore (m : Machine μ) (op : Jump) (operand : UInt16) :
    m.writes (.jump op) operand = (m.jumpStore op).writes := by
  cases op with
  | call condition =>
    rw [writes_jump rfl, jumpStore]
    split <;> rfl
  -- Taken or not, these write nothing.
  | relative condition | absolute condition | ret condition =>
    rw [writes_jump rfl]
    exact ite_self _
  | toHL => rfl
  | retEnable => rfl
  | restart vector => rfl

/-- A jump changes nothing but what it names. -/
theorem sameOutside_jump (m : Machine μ) (op : Jump) (operand : UInt16) :
    m.cpu.SameOutside (op.footprint m.cpu) (m.carried (.jump op) operand).cpu := by
  -- The footprint of a jump that is not taken is empty, and then nothing changes either.
  cases op with
  | relative condition | absolute condition =>
    refine sameOutside_of_taken rfl m fun htaken => ?_
    simp only [Jump.footprint, htaken]
    exact Cpu.sameOutside_rest _ (fun _ => rfl) nofun (fun _ => rfl) (fun _ => rfl) (fun _ => rfl)
  | toHL =>
    exact Cpu.sameOutside_rest _ (fun _ => rfl) nofun (fun _ => rfl) (fun _ => rfl) (fun _ => rfl)
  | call condition | ret condition =>
    refine sameOutside_of_taken rfl m fun htaken => ?_
    simp only [Jump.footprint, htaken]
    exact Cpu.sameOutside_rest _ nofun nofun (fun _ => rfl) (fun _ => rfl) (fun _ => rfl)
  | retEnable => exact Cpu.sameOutside_rest _ nofun nofun nofun (fun _ => rfl) (fun _ => rfl)
  | restart vector =>
    exact Cpu.sameOutside_rest _ nofun nofun (fun _ => rfl) (fun _ => rfl) (fun _ => rfl)

/-! ## The other families -/

omit [Memory μ] in

/-- A new accumulator with new flags. -/
theorem sameOutside_withAccumulator {footprint : Footprint} (m : Machine μ)
    {outcome : UInt8 × Flags} (ha : .a ∈ footprint.registers)
    (hflags : ∀ flag ∉ footprint.flags, outcome.2.get flag = m.cpu.f.get flag) :
    m.cpu.SameOutside footprint (m.withAccumulator outcome).cpu :=
  (m.cpu.sameOutside_setRegister ha outcome.1).trans (Cpu.sameOutside_flags _ hflags)

/-- A new byte at a place with new flags. -/
theorem sameOutside_withPlace {footprint : Footprint} (m : Machine μ) {place : Place}
    {outcome : UInt8 × Flags} (hplace : place.footprint.registers ⊆ footprint.registers)
    (hflags : ∀ flag ∉ footprint.flags, outcome.2.get flag = m.cpu.f.get flag) :
    m.cpu.SameOutside footprint (m.withPlace place outcome).cpu := by
  cases place with
  | register r =>
    refine (m.cpu.sameOutside_setRegister (hplace (List.mem_singleton_self r)) outcome.1).trans ?_
    refine Cpu.sameOutside_flags _ fun flag hflag => ?_
    -- The flags are compared with those from before the register was set.
    rw [Cpu.f_setRegister]
    exact hflags flag hflag
  | atHL => exact m.cpu.sameOutside_flags hflags

omit [Memory μ] in

/-- A new word in a register with new flags. -/
theorem sameOutside_withWord {footprint : Footprint} (m : Machine μ) {target : WordRegister}
    {outcome : UInt16 × Flags} (hregisters : target.footprint.registers ⊆ footprint.registers)
    (hsp : target = .sp → footprint.stackPointer = true)
    (hflags : ∀ flag ∉ footprint.flags, outcome.2.get flag = m.cpu.f.get flag) :
    m.cpu.SameOutside footprint (m.withWord target outcome).cpu := by
  refine (m.cpu.sameOutside_setWordRegister target hregisters hsp outcome.1).trans ?_
  refine Cpu.sameOutside_flags _ fun flag hflag => ?_
  rw [Cpu.f_setWordRegister]
  exact hflags flag hflag

/-- A pop moves the stack pointer first, and then the pair takes the word. -/
theorem carried_pop (m : Machine μ) (target : StackRegister) (operand : UInt16) :
    let w := Word.ofBytes (Memory.read m.memory (m.cpu.sp + 1)) (Memory.read m.memory m.cpu.sp)
    m.carried (.load (.pop target)) operand =
      { m with cpu := { m.cpu with sp := m.cpu.sp + 2 }.setStackRegister target w } := rfl

/-- A load changes nothing but what it names. -/
theorem sameOutside_load (m : Machine μ) (op : Load) (operand : UInt16) :
    m.cpu.SameOutside op.footprint (m.carried (.load op) operand).cpu := by
  cases op with
  | copy target source =>
    cases target with
    | register r =>
      cases source <;> exact m.cpu.sameOutside_setRegister (List.mem_singleton_self r) _
    | atHL => cases source <;> exact .refl ..
  | word target =>
    exact m.cpu.sameOutside_setWordRegister target (fun _ h => h) (by rintro rfl; rfl) operand
  | byte target =>
    cases target with
    | register r => exact m.cpu.sameOutside_setRegister (List.mem_singleton_self r) _
    | atHL => exact .refl ..
  | accumulatorFrom pointer =>
    cases pointer with
    | bc => exact m.cpu.sameOutside_setRegister (r := .a) (by decide) _
    | de => exact m.cpu.sameOutside_setRegister (r := .a) (by decide) _
    -- The pointer moves on before the accumulator is loaded.
    | hlIncrement =>
      exact (m.cpu.sameOutside_setPair .h .l (by decide) (by decide) _).trans
        (Cpu.sameOutside_setRegister _ (r := .a) (by decide) _)
    | hlDecrement =>
      exact (m.cpu.sameOutside_setPair .h .l (by decide) (by decide) _).trans
        (Cpu.sameOutside_setRegister _ (r := .a) (by decide) _)
  | accumulatorTo pointer =>
    cases pointer with
    | bc => exact .refl ..
    | de => exact .refl ..
    | hlIncrement => exact m.cpu.sameOutside_setPair .h .l (by decide) (by decide) _
    | hlDecrement => exact m.cpu.sameOutside_setPair .h .l (by decide) (by decide) _
  | stackOffset =>
    rw [carried_stackOffset]
    exact m.sameOutside_withWord (List.Subset.refl _) (by nofun) fun flag hflag =>
      absurd flag.mem_all hflag
  | pop target =>
    -- Popping into a pair comes in two changes, of the stack pointer and of the pair.
    have hsp : m.cpu.SameOutside (Load.pop target).footprint { m.cpu with sp := m.cpu.sp + 2 } :=
      m.cpu.sameOutside_rest nofun (fun _ => rfl) (fun _ => rfl) (fun _ => rfl) (fun _ => rfl)
    rw [carried_pop]
    refine hsp.trans ?_
    apply Cpu.sameOutside_setStackRegister <;> exact List.Subset.refl _
  -- These move the stack pointer alone; what is pushed goes to memory.
  | stackPointerFromHL | push source =>
    exact m.cpu.sameOutside_rest (by nofun) (fun _ => rfl) (fun _ => rfl) (fun _ => rfl)
      (fun _ => rfl)
  | loadHigh | loadHighC | loadAbsolute =>
    exact m.cpu.sameOutside_setRegister (r := .a) (by decide) _
  | storeStackPointer | storeHigh | storeHighC | storeAbsolute => exact .refl ..

/-- A calculation changes nothing but what it names. -/
theorem sameOutside_calculation (m : Machine μ) (op : Calculation) (operand : UInt16) :
    m.cpu.SameOutside op.footprint (m.carried (.calculation op) operand).cpu := by
  cases op with
  | accumulate op source =>
    rw [carried_accumulate]
    cases op with
    | cp => exact m.cpu.sameOutside_flags fun flag hflag => absurd flag.mem_all hflag
    -- Besides the comparison they all write the accumulator and every flag.
    | _ =>
      exact m.sameOutside_withAccumulator (List.mem_singleton_self _) fun flag hflag =>
        absurd flag.mem_all hflag
  | increment target =>
    rw [carried_increment]
    refine m.sameOutside_withPlace (List.Subset.refl _) fun flag hflag => ?_
    -- Counting keeps the carry, the one flag that it does not name.
    obtain rfl := Flag.eq_carry hflag
    rfl
  | decrement target =>
    rw [carried_decrement]
    refine m.sameOutside_withPlace (List.Subset.refl _) fun flag hflag => ?_
    obtain rfl := Flag.eq_carry hflag
    rfl
  | addWord source =>
    rw [carried_addWord]
    refine m.sameOutside_withWord (List.Subset.refl _) (by nofun) fun flag hflag => ?_
    obtain rfl := Flag.eq_zero hflag
    rfl
  | incrementWord target =>
    rw [carried_incrementWord]
    exact m.sameOutside_withWord (List.Subset.refl _) (by rintro rfl; rfl) fun _ _ => rfl
  | decrementWord target =>
    rw [carried_decrementWord]
    exact m.sameOutside_withWord (List.Subset.refl _) (by rintro rfl; rfl) fun _ _ => rfl
  | addStackPointer =>
    rw [carried_addStackPointer]
    exact m.sameOutside_withWord (List.nil_subset _) (fun _ => rfl) fun flag hflag =>
      absurd flag.mem_all hflag

/-- The machine with a bit of the byte at a place cleared; the flags stay. -/
theorem carried_bit_reset (m : Machine μ) (index : UInt8) (place : Place) (operand : UInt16) :
    m.carried (.bit ⟨.reset, index, place⟩) operand =
      m.withPlace place (m.placeByte place &&& ~~~(1 <<< index), m.cpu.f) := by
  cases place with
  | register r => cases r <;> rfl
  | atHL => rfl

/-- The machine with a bit of the byte at a place set; the flags stay. -/
theorem carried_bit_set (m : Machine μ) (index : UInt8) (place : Place) (operand : UInt16) :
    m.carried (.bit ⟨.set, index, place⟩) operand =
      m.withPlace place (m.placeByte place ||| (1 <<< index), m.cpu.f) := by
  cases place with
  | register r => cases r <;> rfl
  | atHL => rfl

/-- A test leaves the byte and the carry alone. -/
theorem carried_bit_test (m : Machine μ) (index : UInt8) (place : Place) (operand : UInt16) :
    m.carried (.bit ⟨.test, index, place⟩) operand =
      let f := { m.cpu.f with
        zero := !Byte.bit index (m.placeByte place), subtract := false, halfCarry := true }
      { m with cpu := { m.cpu with f := f } } := by
  cases place with
  | register r => rfl
  | atHL => rfl

/-- An access to a bit changes nothing but what it names. -/
theorem sameOutside_bit (m : Machine μ) (op : BitAccess) (operand : UInt16) :
    m.cpu.SameOutside op.footprint (m.carried (.bit op) operand).cpu := by
  obtain ⟨action, index, place⟩ := op
  cases action with
  | test =>
    rw [carried_bit_test]
    refine m.cpu.sameOutside_flags fun flag hflag => ?_
    obtain rfl := Flag.eq_carry hflag
    rfl
  | reset =>
    rw [carried_bit_reset]
    exact m.sameOutside_withPlace (List.Subset.refl _) fun _ _ => rfl
  | set =>
    rw [carried_bit_set]
    exact m.sameOutside_withPlace (List.Subset.refl _) fun _ _ => rfl

/-- A shift changes nothing but what it names. -/
theorem sameOutside_shift (m : Machine μ) (op : Shift) (operand : UInt16) :
    m.cpu.SameOutside op.footprint (m.carried (.shift op) operand).cpu := by
  rw [carried_shift]
  exact m.sameOutside_withPlace (List.Subset.refl _) fun flag hflag => absurd flag.mem_all hflag

/-- The correction asks whether there was a subtraction and does not change the answer. -/
theorem subtract_decimalAdjust (a : UInt8) (f : Flags) :
    (Arithmetic.decimalAdjust a f).2.subtract = f.subtract := by
  rw [Arithmetic.decimalAdjust]
  split <;> rfl

/-- The other instructions change nothing but what they name. -/
theorem sameOutside_misc (m : Machine μ) (op : Misc) (operand : UInt16) :
    m.cpu.SameOutside op.footprint (m.carried (.misc op) operand).cpu := by
  cases op with
  | decimalAdjust =>
    rw [carried_decimalAdjust]
    refine m.sameOutside_withAccumulator (List.mem_singleton_self _) fun flag hflag => ?_
    obtain rfl := Flag.eq_subtract hflag
    exact subtract_decimalAdjust ..
  -- Of these instructions each leaves some flags alone, by name.
  | setCarry | complementCarry =>
    refine m.cpu.sameOutside_flags fun flag hflag => ?_
    obtain rfl := Flag.eq_zero hflag
    rfl
  | complement =>
    have hcarried : m.carried (.misc .complement) operand = m.withAccumulator
        (~~~m.cpu.a, { m.cpu.f with subtract := true, halfCarry := true }) := rfl
    rw [hcarried]
    refine m.sameOutside_withAccumulator (List.mem_singleton_self _) fun flag hflag => ?_
    cases flag with
    | zero | carry => rfl
    | subtract | halfCarry => exact absurd (by decide) hflag
  | disableInterrupts | enableInterrupts =>
    exact m.cpu.sameOutside_rest (fun _ => rfl) (fun _ => rfl) (fun _ => rfl) nofun (fun _ => rfl)
  | rotate r =>
    have hcarried : m.carried (.misc (.rotate r)) operand =
        let outcome := Execution.shiftByte (.rotate r) m.cpu.f.carry m.cpu.a
        m.withAccumulator (outcome.1, .ofShift false outcome.2) := rfl
    rw [hcarried]
    exact m.sameOutside_withAccumulator (List.mem_singleton_self _) fun flag hflag =>
      absurd flag.mem_all hflag

/-- An instruction changes nothing of the processor but what it names. -/
theorem sameOutside_carried (m : Machine μ) (i : Instruction) (operand : UInt16) :
    m.cpu.SameOutside (i.footprint m.cpu) (m.carried i operand).cpu := by
  cases i with
  | load op => exact m.sameOutside_load op operand
  | control op =>
    cases op with
    | nop => exact .refl ..
    | halt | stop =>
      exact m.cpu.sameOutside_rest (fun _ => rfl) (fun _ => rfl) (fun _ => rfl) (fun _ => rfl) nofun
  | jump op => exact m.sameOutside_jump op operand
  | calculation op => exact m.sameOutside_calculation op operand
  | bit op => exact m.sameOutside_bit op operand
  | shift op => exact m.sameOutside_shift op operand
  | misc op => exact m.sameOutside_misc op operand
  -- The prefix by itself does nothing.
  | extend => exact .refl ..

/-- Every instruction writes its store. -/
theorem writes_eq (m : Machine μ) (i : Instruction) (operand : UInt16) :
    m.writes i operand = (m.store operand i).writes := by
  -- By the constructors: loads, jumps and what works on a place in memory write, and nothing else
  -- does.
  cases i with
  | load op => exact m.writes_load op operand
  | control op => cases op <;> rfl
  | jump op => exact m.writes_eq_jumpStore op operand
  | calculation op =>
    cases op with
    | accumulate op source => cases source with | place p => cases p <;> rfl | immediate => rfl
    | increment target | decrement target => cases target <;> rfl
    | _ => rfl
  | bit op =>
    obtain ⟨action, index, place⟩ := op
    cases action <;> cases place <;> rfl
  | shift op =>
    obtain ⟨op, place⟩ := op
    cases place <;> rfl
  | misc op => cases op <;> rfl
  | extend => rfl

/-- Whatever instruction is executed with whatever operand, the processor changes only in what the
instruction names, and the memory only by what it stores. -/
theorem instruction_footprint (m : Machine μ) (i : Instruction) (operand : UInt16) :
    m.cpu.SameOutside (i.footprint m.cpu) (m.carried i operand).cpu ∧
    m.writes i operand = (m.store operand i).writes ∧
    (m.carried i operand).memory = Memory.writeAll m.memory (m.store operand i).writes := by
  refine ⟨m.sameOutside_carried i operand, m.writes_eq i operand, ?_⟩
  rw [memory_carried, writes_eq]

end Machine

end GameBoy
