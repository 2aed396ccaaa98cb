import GameBoy.Cpu.Step

/-!
# Properties of all instructions

Besides the registers that programs compute with, the processor has a clockwork: the master switch of
the interrupts with its pending change, and the cycle counter.  Only three instructions touch it.

`Execution.Uniform` says what a property of executions needs so that it holds of every instruction
but those three: it holds of the operations on the rest of the processor and of single accesses, and
is kept by sequencing.  The walk through the instruction set is done once for all such properties;
`Execution.uniform_execute` adds the three for a property that does not ask about the processor.
-/

namespace GameBoy

/-- The part of the processor that instructions do not compute with. -/
structure Clockwork where
  ime : Bool
  imeSwitch : PendingSwitch
  cycles : UInt64
  deriving DecidableEq

/-- The clockwork of a processor. -/
def Cpu.clockwork (cpu : Cpu) : Clockwork := ⟨cpu.ime, cpu.imeSwitch, cpu.cycles⟩

namespace Cpu

/-- No byte register is part of the clockwork. -/
@[simp] theorem clockwork_setRegister (cpu : Cpu) (r : Register) (value : UInt8) :
    (cpu.setRegister r value).clockwork = cpu.clockwork := by
  cases r <;> rfl

/-- No word register is part of the clockwork. -/
@[simp] theorem clockwork_setWordRegister (cpu : Cpu) (r : WordRegister) (w : UInt16) :
    (cpu.setWordRegister r w).clockwork = cpu.clockwork := by
  cases r <;> rfl

/-- No pair that is pushed and popped is part of the clockwork. -/
@[simp] theorem clockwork_setStackRegister (cpu : Cpu) (r : StackRegister) (w : UInt16) :
    (cpu.setStackRegister r w).clockwork = cpu.clockwork := by
  cases r <;> rfl

end Cpu

namespace Execution

/-- A property of executions that holds of single accesses and of every operation on the processor
that leaves the clockwork alone, and that is kept by sequencing. -/
structure Uniform (P : {α : Type} → Execution α → Prop) : Prop where
  pure {α : Type} (a : α) : P (pure a)
  bind {α β : Type} {e : Execution α} {f : α → Execution β} :
    P e → (∀ a, P (f a)) → P (e >>= f)
  get : P get
  modifyGet {α : Type} (f : Cpu → α × Cpu) :
    (∀ cpu, (f cpu).2.clockwork = cpu.clockwork) → P (modifyGet f)
  readByte (addr : UInt16) : P (readByte addr)
  writeByte (addr : UInt16) (value : UInt8) : P (writeByte addr value)

section Uniform

variable {α : Type} {P : {α : Type} → Execution α → Prop} (h : Uniform P)
include h

/-! ## Operands and the stack -/

/-- What comes next may depend on the processor. -/
theorem uniform_get_bind {f : Cpu → Execution α} (hf : ∀ cpu, P (f cpu)) : P (get >>= f) :=
  h.bind h.get hf

/-- An operation on the processor that leaves the clockwork alone. -/
theorem uniform_modify (f : Cpu → Cpu) (hf : ∀ cpu, (f cpu).clockwork = cpu.clockwork) :
    P (modify f : Execution Unit) := h.modifyGet _ hf

/-- A word is read as two bytes. -/
theorem uniform_readWord (addr : UInt16) : P (readWord addr) :=
  h.bind (h.readByte addr) fun _ => h.bind (h.readByte (addr + 1)) fun _ => h.pure _

/-- A word is written as two bytes. -/
theorem uniform_writeWord (addr value : UInt16) : P (writeWord addr value) :=
  h.bind (h.writeByte addr _) fun _ => h.writeByte (addr + 1) _

/-- A place is read in a register or in memory. -/
theorem uniform_readPlace (place : Place) : P (readPlace place) := by
  cases place with
  | register r => exact uniform_get_bind h fun _ => h.pure _
  | atHL => exact uniform_get_bind h fun _ => h.readByte _

/-- A place is written in a register or in memory. -/
theorem uniform_writePlace (place : Place) (value : UInt8) : P (writePlace place value) := by
  cases place with
  | register r => exact uniform_modify h _ fun _ => Cpu.clockwork_setRegister ..
  | atHL => exact uniform_get_bind h fun _ => h.writeByte _ _

/-- A byte is replaced where it is, in a register or in memory. -/
theorem uniform_exchangePlace (place : Place) (f : UInt8 → UInt8 × α) :
    P (exchangePlace place f) := by
  cases place with
  | register r => exact h.modifyGet _ fun _ => Cpu.clockwork_setRegister ..
  | atHL =>
    exact uniform_get_bind h fun _ => h.bind (h.readByte _) fun _ =>
      h.bind (h.writeByte _ _) fun _ => h.pure _

/-- A byte is updated where it is, which is an exchange that returns nothing. -/
theorem uniform_updatePlace (place : Place) (f : UInt8 → UInt8) : P (updatePlace place f) := by
  rw [updatePlace_eq]
  exact uniform_exchangePlace h place _

/-- A source is a place or the byte after the op code. -/
theorem uniform_readSource (immediate : UInt8) (source : Source) :
    P (readSource immediate source) := by
  cases source with
  | place p => exact uniform_readPlace h p
  | immediate => exact h.pure _

/-- A pointer may move on after it has been read. -/
theorem uniform_readPointer (pointer : Pointer) : P (readPointer pointer) := by
  cases pointer with
  | bc => exact uniform_get_bind h fun _ => h.pure _
  | de => exact uniform_get_bind h fun _ => h.pure _
  | hlIncrement => exact h.modifyGet _ fun _ => rfl
  | hlDecrement => exact h.modifyGet _ fun _ => rfl

/-- The accumulator is set. -/
theorem uniform_setAccumulator (value : UInt8) : P (setAccumulator value) :=
  uniform_modify h _ fun _ => rfl

/-- The flags are set. -/
theorem uniform_setFlags (f : Flags) : P (setFlags f) := uniform_modify h _ fun _ => rfl

/-- The program counter is set. -/
theorem uniform_setProgramCounter (addr : UInt16) : P (setProgramCounter addr) :=
  uniform_modify h _ fun _ => rfl

/-- A push moves the stack pointer and writes a word. -/
theorem uniform_push (value : UInt16) : P (push value) :=
  h.bind (uniform_modify h _ fun _ => rfl) fun _ =>
    uniform_get_bind h fun _ => uniform_writeWord h _ _

/-- A pop reads a word and moves the stack pointer. -/
theorem uniform_pop : P pop :=
  uniform_get_bind h fun _ => h.bind (uniform_readWord h _) fun _ =>
    h.bind (uniform_modify h _ fun _ => rfl) fun _ => h.pure _

/-- A call pushes the program counter and goes on elsewhere. -/
theorem uniform_call (addr : UInt16) : P (call addr) :=
  uniform_get_bind h fun _ => h.bind (uniform_push h _) fun _ => uniform_setProgramCounter h _

/-- A return goes on at a word that it pops. -/
theorem uniform_ret : P (do setProgramCounter (← pop)) :=
  h.bind (uniform_pop h) fun _ => uniform_setProgramCounter h _

/-- An action under a condition. -/
theorem uniform_whenHolds (condition : Option Condition) {action : Execution Unit}
    (haction : P action) : P (whenHolds condition action) := by
  cases condition with
  | none => exact h.bind haction fun _ => h.pure _
  | some c =>
    -- Whether the action happens depends on the flags; if it does not, nothing is done.
    refine uniform_get_bind h fun cpu => ?_
    split
    · exact h.bind haction fun _ => h.pure _
    · exact h.pure _

/-! ## The families of instructions -/

/-- Loads. -/
theorem uniform_load (operand : UInt16) (op : Load) : P (load operand op) := by
  -- Each load is a sequence of the operations above.
  cases op with
  | copy target source =>
    exact h.bind (uniform_readPlace h source) fun _ => uniform_writePlace h _ _
  | word target => exact uniform_modify h _ fun _ => Cpu.clockwork_setWordRegister ..
  | byte target => exact uniform_writePlace h _ _
  | accumulatorFrom pointer =>
    exact h.bind (uniform_readPointer h pointer) fun _ =>
      h.bind (h.readByte _) fun _ => uniform_setAccumulator h _
  | accumulatorTo pointer =>
    exact h.bind (uniform_readPointer h pointer) fun _ =>
      uniform_get_bind h fun _ => h.writeByte _ _
  | storeStackPointer => exact uniform_get_bind h fun _ => uniform_writeWord h _ _
  | stackPointerFromHL => exact uniform_modify h _ fun _ => rfl
  | stackOffset =>
    exact h.bind (h.modifyGet _ fun _ => rfl) fun _ => uniform_modify h _ fun _ => rfl
  | pop target =>
    exact h.bind (uniform_pop h) fun _ =>
      uniform_modify h _ fun _ => Cpu.clockwork_setStackRegister ..
  | push source => exact uniform_get_bind h fun _ => uniform_push h _
  | storeHigh => exact uniform_get_bind h fun _ => h.writeByte _ _
  | loadHigh => exact h.bind (h.readByte _) fun _ => uniform_setAccumulator h _
  | storeHighC =>
    exact uniform_get_bind h fun _ => uniform_get_bind h fun _ => h.writeByte _ _
  | loadHighC =>
    exact uniform_get_bind h fun _ => h.bind (h.readByte _) fun _ => uniform_setAccumulator h _
  | storeAbsolute => exact uniform_get_bind h fun _ => h.writeByte _ _
  | loadAbsolute => exact h.bind (h.readByte _) fun _ => uniform_setAccumulator h _

/-- Control of the processor. -/
theorem uniform_control (op : Control) : P (control op) := by
  cases op with
  | nop => exact h.pure _
  | halt => exact uniform_modify h _ fun _ => rfl
  | stop => exact uniform_modify h _ fun _ => rfl

/-- Jumps, apart from the return from a handler, which turns the master switch on. -/
theorem uniform_jump (operand : UInt16) {op : Jump} (hop : op ≠ .retEnable) :
    P (jump operand op) := by
  cases op with
  | relative condition =>
    exact uniform_whenHolds h condition
      (uniform_get_bind h fun _ => uniform_setProgramCounter h _)
  | absolute condition => exact uniform_whenHolds h condition (uniform_setProgramCounter h _)
  | toHL =>
    exact uniform_whenHolds h none (uniform_get_bind h fun _ => uniform_setProgramCounter h _)
  | call condition => exact uniform_whenHolds h condition (uniform_call h operand)
  | ret condition => exact uniform_whenHolds h condition (uniform_ret h)
  | retEnable => exact absurd rfl hop
  | restart vector => exact uniform_whenHolds h none (uniform_call h _)

/-- Calculations. -/
theorem uniform_calculation (operand : UInt16) (op : Calculation) : P (calculation operand op) := by
  cases op with
  | accumulate op source =>
    exact h.bind (uniform_readSource h _ source) fun _ => uniform_modify h _ fun _ => rfl
  | increment target =>
    exact uniform_get_bind h fun _ => h.bind (uniform_exchangePlace h target _) fun _ =>
      uniform_setFlags h _
  | decrement target =>
    exact uniform_get_bind h fun _ => h.bind (uniform_exchangePlace h target _) fun _ =>
      uniform_setFlags h _
  | addWord source => exact uniform_modify h _ fun _ => rfl
  | incrementWord target => exact uniform_modify h _ fun _ => Cpu.clockwork_setWordRegister ..
  | decrementWord target => exact uniform_modify h _ fun _ => Cpu.clockwork_setWordRegister ..
  | addStackPointer =>
    exact h.bind (h.modifyGet _ fun _ => rfl) fun _ => uniform_modify h _ fun _ => rfl

/-- Accesses to bits. -/
theorem uniform_bit (op : BitAccess) : P (bit op) := by
  unfold bit
  split
  · exact h.bind (uniform_readPlace h _) fun _ => uniform_modify h _ fun _ => rfl
  · exact h.bind (uniform_updatePlace h _ _) fun _ => h.pure _
  · exact h.bind (uniform_updatePlace h _ _) fun _ => h.pure _

/-- Shifts. -/
theorem uniform_shift (op : Shift) : P (shift op) :=
  uniform_get_bind h fun _ => h.bind (uniform_exchangePlace h _ _) fun _ => uniform_setFlags h _

/-- A property that holds of everything that is done to the processor, the clockwork included, holds of
the three instructions that touch it as well. -/
theorem uniform_execute (hmodify : ∀ f, P (modify f : Execution Unit)) (i : Instruction)
    (operand : UInt16) : P (execute i operand) := by
  -- The return from a handler is the one jump, EI and DI are the two others that need the stronger
  -- premise.
  have hjump (op : Jump) : P (jump operand op) := by
    by_cases hop : op = .retEnable
    · subst hop
      exact uniform_whenHolds h none (h.bind (hmodify _) fun _ => uniform_ret h)
    · exact uniform_jump h operand hop
  have hmisc (op : Misc) : P (misc op) := by
    cases op <;> exact hmodify _
  cases i with
  | load op => exact h.bind (uniform_load h operand op) fun _ => h.pure _
  | control op => exact h.bind (uniform_control h op) fun _ => h.pure _
  | jump op =>
    refine h.bind (hjump op) fun taken => ?_
    cases taken <;> exact h.pure _
  | calculation op => exact h.bind (uniform_calculation h operand op) fun _ => h.pure _
  | bit op => exact h.bind (uniform_bit h op) fun _ => h.pure _
  | shift op => exact h.bind (uniform_shift h op) fun _ => h.pure _
  | misc op => exact h.bind (hmisc op) fun _ => h.pure _
  | extend => exact h.pure _

/-- Fetching reads one or two bytes and may report an undefined op code. -/
theorem uniform_fetch (hreport : ∀ code pc,
    P (Transaction.reportEvent (.undefinedOpcode code pc) : Transaction Unit)) : P fetch := by
  refine uniform_get_bind h fun cpu => h.bind (h.readByte _) fun code => ?_
  -- An undefined op code is reported and nothing more; the prefix reads a second byte.
  split
  · exact h.bind (hreport _ _) fun _ => h.pure _
  · split
    · exact h.bind (h.readByte _) fun _ => h.pure _
    · exact h.pure _

/-- An operand is read as a byte or as a word. -/
theorem uniform_fetchOperand (i : Instruction) : P (fetchOperand i) := by
  refine uniform_get_bind h fun cpu => ?_
  dsimp only
  -- By the addressing mode; the length says whether one byte is read or two.
  split
  · exact h.pure _
  · split
    · exact h.bind (h.readByte _) fun _ => h.pure _
    · exact uniform_readWord h _
  · split
    · exact h.bind (h.readByte _) fun _ => h.pure _
    · exact uniform_readWord h _

end Uniform

end Execution

end GameBoy
