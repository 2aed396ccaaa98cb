import GameBoy.Proofs.Console.Stack
import GameBoy.Proofs.Machine.Place

/-!
# Control flow

The program counter moves past an instruction before the instruction takes effect, and only a jump,
call or return that is taken moves it again (`Instruction.programCounter_footprint`).  A conditional
jump either does nothing (`Machine.leaves_of_not_taken`) or does what the same jump does without its
condition (`Machine.leaves_of_taken`): the two differ in what they cost, and only for a return.

`Machine.step_of_leaves` carries this over to steps, and `Machine.control_flow` puts it together.
-/

namespace GameBoy

namespace Jump

/-- The condition of a jump, if it has one. -/
def condition : Jump → Option Condition
  | relative condition | absolute condition | call condition | ret condition => condition
  | toHL | retEnable | restart _ => none

/-- The same jump without its condition. -/
def unconditional : Jump → Jump
  | relative _ => relative none
  | absolute _ => absolute none
  | call _ => call none
  | ret _ => ret none
  | op => op

/-- What a jump that is taken costs more than the same jump without a condition. -/
def surcharge : Jump → UInt8
  | ret (some _) => 4
  | _ => 0

/-- Both forms of a jump are encoded in as many bytes. -/
theorem length_unconditional (op : Jump) : op.unconditional.length = op.length := by
  cases op <;> rfl

/-- The costs of the instructions and what they cost on top come from two tables, which agree. -/
theorem cycles_add_takenPenalty (op : Jump) :
    op.cycles + op.takenPenalty = op.unconditional.cycles + op.surcharge := by
  cases op with
  | relative condition | absolute condition | call condition | ret condition =>
    cases condition <;> rfl
  | toHL | retEnable | restart vector => rfl

end Jump

/-! ## The program counter -/

/-- Whether an instruction is a jump, call or return that is taken. -/
def Cpu.branches (cpu : Cpu) : Instruction → Bool
  | .jump op => cpu.takes op.condition
  | _ => false

/-- Only jumps that are taken name the program counter. -/
theorem Instruction.programCounter_footprint (cpu : Cpu) (i : Instruction) :
    (i.footprint cpu).programCounter = cpu.branches i := by
  -- By the constructors: only the footprint of a jump asks for the program counter.
  cases i with
  | load op =>
    cases op with
    | copy target source | byte target => cases target <;> rfl
    | word target | pop target => cases target <;> rfl
    | accumulatorTo pointer => cases pointer <;> rfl
    | _ => rfl
  | control op => cases op <;> rfl
  | jump op => cases op <;> rfl
  | calculation op =>
    cases op with
    | accumulate op source => cases op <;> rfl
    | increment target | decrement target => cases target <;> rfl
    | incrementWord target | decrementWord target => cases target <;> rfl
    | _ => rfl
  | bit op =>
    obtain ⟨action, index, place⟩ := op
    cases action <;> cases place <;> rfl
  | shift op =>
    obtain ⟨op, place⟩ := op
    cases place <;> rfl
  | misc op => cases op <;> rfl
  | extend => rfl

/-! ## Jumps that are taken -/

/-- What a jump does when it is taken. -/
def Execution.leave (operand : UInt16) : Jump → Execution Unit
  | .relative _ => do setProgramCounter ((← get).pc + Word.signExtend (Word.low operand))
  | .absolute _ => setProgramCounter operand
  | .toHL => do setProgramCounter (← get).hl
  | .call _ => call operand
  | .ret _ => do setProgramCounter (← pop)
  | .retEnable => do
    modify fun cpu => { cpu with ime := true }
    setProgramCounter (← pop)
  | .restart vector => call vector.toUInt16

/-- A jump checks its condition first and then leaves, whatever kind it is. -/
theorem Execution.jump_eq_whenHolds (operand : UInt16) (op : Jump) :
    jump operand op = whenHolds op.condition (leave operand op) := by
  cases op <;> rfl

/-- The processor after a jump that is taken, given the word on top of the stack. -/
def Cpu.jumped (cpu : Cpu) (operand top : UInt16) : Jump → Cpu
  | .relative _ => { cpu with pc := cpu.pc + Word.signExtend (Word.low operand) }
  | .absolute _ => { cpu with pc := operand }
  | .toHL => { cpu with pc := cpu.hl }
  | .call _ => { cpu with sp := cpu.sp - 2, pc := operand }
  | .ret _ => { cpu with sp := cpu.sp + 2, pc := top }
  | .retEnable => { cpu with sp := cpu.sp + 2, pc := top, ime := true }
  | .restart vector => { cpu with sp := cpu.sp - 2, pc := vector.toUInt16 }

/-- Of the conditional jumps only returns depend on the stack. -/
theorem Cpu.jumped_congr (cpu : Cpu) (operand : UInt16) {top top' : UInt16} {op : Jump}
    {c : Condition} (hcondition : op.condition = some c)
    (htop : ∀ condition, op = .ret condition → top' = top) :
    cpu.jumped operand top' op = cpu.jumped operand top op := by
  cases op with
  | ret condition => rw [htop condition rfl]
  | retEnable => cases hcondition
  | _ => rfl

/-- The cycles of an instruction have no part in its retirement. -/
theorem Cpu.retire_spend (cpu : Cpu) (a b : UInt8) :
    (cpu.spend a).retire = { (cpu.spend b).retire with cycles := (cpu.spend a).retire.cycles } := rfl

namespace Machine

variable {μ σ : Type} [Memory μ] {m : Machine μ} {i : Instruction}

/-- A jump that is not taken does nothing. -/
theorem leaves_of_not_taken {op : Jump} (h : m.cpu.takes op.condition = false) (operand : UInt16) :
    m.Leaves (.jump op) operand m [] op.cycles := by
  have hjump := Execution.jump_eq_whenHolds operand op
  -- The effect of a jump is guarded by its condition, so here nothing of it is left.
  constructor
  case carried => simp [carried_jump hjump, h]
  case writes => simp [writes_jump hjump, h]
  case cycles =>
    rw [perform, run_jump hjump, h]
    rfl

/-- The machine after a jump that is taken. -/
def jumped (m : Machine μ) (operand : UInt16) (op : Jump) : Machine μ where
  cpu := m.cpu.jumped operand m.stackTop op
  memory := Memory.writeAll m.memory (m.jumpStore op.unconditional).writes

/-- A jump that is taken moves the program counter, stores what it pushes and costs the penalty as
well. -/
theorem leaves_of_taken {op : Jump} (h : m.cpu.takes op.condition = true) (operand : UInt16) :
    m.Leaves (.jump op) operand (m.jumped operand op) (m.jumpStore op.unconditional).writes
      (op.unconditional.cycles + op.surcharge) := by
  have hjump := Execution.jump_eq_whenHolds operand op
  constructor
  case carried =>
    rw [carried_jump hjump, if_pos h]
    cases op <;> rfl
  case writes =>
    rw [writes_jump hjump, if_pos h]
    cases op <;> rfl
  case cycles =>
    -- Table and penalty add up to the cost of the unconditional form and the surcharge.
    rw [perform, run_jump hjump, if_pos h, ← op.cycles_add_takenPenalty]
    cases op <;> rfl

omit [Memory μ] in
/-- What a jump stores depends on the processor alone. -/
theorem jumpStore_congr {u : Machine μ} (hcpu : u.cpu = m.cpu) (op : Jump) :
    u.jumpStore op = m.jumpStore op := by
  cases op <;> simp [jumpStore, pushed, hcpu]

/-! ## Steps -/

/-- Whoever listens, an instruction leaves the same machine and takes as long. -/
theorem Leaves.perform {operand : UInt16} {next : Machine μ} {writes : List (UInt16 × UInt8)}
    {cycles : UInt8} (h : m.Leaves i operand next writes cycles) (listener : Listener σ) (s : σ) :
    ∃ s', m.perform (Execution.execute i operand) listener s = (cycles, next, s') := by
  have heval := Transaction.run_eq_eval listener ((Execution.execute i operand).run m.cpu) m.memory s
  rw [Machine.perform, heval, ← h.carried, ← h.cycles]
  exact ⟨_, rfl⟩

/-- A step in which an instruction retires leaves what the instruction leaves, and takes as long. -/
theorem step_of_leaves (h : m.retires = some i) {next : Machine μ}
    {writes : List (UInt16 × UInt8)} {cycles : UInt8}
    (hleaves : (m.past i).Leaves i (m.operand i) next writes cycles) (listener : Listener σ)
    (s : σ) :
    ∃ s', m.step listener s =
      (.ok cycles, { next with cpu := (next.cpu.spend cycles).retire }, s') := by
  obtain ⟨s₁, hstep⟩ := step_of_retires h listener s
  obtain ⟨s₂, hperform⟩ := hleaves.perform listener s₁
  -- Moving the program counter past the instruction comes first, and then its effect.
  have heffect : m.awake.perform (Execution.takeEffect i (m.operand i)) listener s₁ =
      (cycles, next, s₂) := by
    rw [Execution.takeEffect, perform_bind, ← hperform]
    rfl
  rw [hstep, heffect]
  exact ⟨_, rfl⟩

/-- The flags that an instruction finds are those before its step. -/
theorem takes_past (m : Machine μ) (i : Instruction) (condition : Option Condition) :
    (m.past i).cpu.takes condition = m.cpu.takes condition := by
  cases condition with
  | none => rfl
  | some c => cases c <;> rfl

/-- Whether an instruction branches is decided before its step. -/
theorem branches_past (m : Machine μ) (i j : Instruction) :
    (m.past i).cpu.branches j = m.cpu.branches j := by
  cases j with
  | jump op => exact m.takes_past i op.condition
  | _ => rfl

/-- An instruction that retires is executed with the processor running. -/
theorem past_of_retires (h : m.retires = some i) : m.past i =
    { m with cpu := { m.cpu with
        pc := m.cpu.pc + i.length.toUInt16
        activity := .running } } := by
  rw [past, awake_eq_roused (execute_of_retires h).1]
  rfl

/-- An instruction that issues no writes retires in a step without writes. -/
theorem written?_eq_none (h : m.retires = some i) (hwrites : (m.past i).writes i (m.operand i) = []) :
    ∀ access ∈ m.accesses, access.written? = none :=
  forall_accesses_of_retires _ h rfl (fun _ => rfl) (List.filterMap_eq_nil_iff.mp hwrites)

/-- What is not a jump that is taken goes on with the next instruction. -/
theorem pc_step_of_not_branches (h : m.retires = some i) (hbranches : m.cpu.branches i = false)
    (listener : Listener σ) (s : σ) :
    (m.step listener s).2.1.cpu.pc = m.cpu.pc + i.length.toUInt16 := by
  have hkept : (i.footprint (m.past i).cpu).programCounter = false := by
    rw [i.programCounter_footprint, branches_past, hbranches]
  obtain ⟨cycles, hstep⟩ := machine_step_of_retires h listener s
  rw [hstep]
  exact ((m.past i).sameOutside_carried i (m.operand i)).programCounter hkept

section Jumps

variable {op : Jump}

/-- A step in which a jump is not taken goes on with the next instruction. -/
theorem step_of_not_taken (h : m.retires = some (.jump op))
    (htakes : m.cpu.takes op.condition = false) (listener : Listener σ) (s : σ) :
    let next := m.past (.jump op)
    ∃ s', m.step listener s =
      (.ok op.cycles, { next with cpu := (next.cpu.spend op.cycles).retire }, s') := by
  refine step_of_leaves h (leaves_of_not_taken ?_ _) listener s
  rwa [takes_past]

/-- A step in which a jump is taken goes where the jump leads. -/
theorem step_of_taken (h : m.retires = some (.jump op))
    (htakes : m.cpu.takes op.condition = true) (listener : Listener σ) (s : σ) :
    let cost := op.unconditional.cycles + op.surcharge
    let next := (m.past (.jump op)).jumped (m.operand (.jump op)) op
    ∃ s', m.step listener s =
      (.ok cost, { next with cpu := (next.cpu.spend cost).retire }, s') := by
  refine step_of_leaves h (leaves_of_taken ?_ _) listener s
  rwa [takes_past]

/-- A relative jump starts from the instruction after it. -/
theorem toNat_pc_of_relative {condition : Option Condition}
    (h : m.retires = some (.jump (.relative condition))) (htakes : m.cpu.takes condition = true)
    (listener : Listener σ) (s : σ) :
    ((m.step listener s).2.1.cpu.pc.toNat : Int) =
      (m.cpu.pc.toNat + 2 + (Memory.read m.memory (m.cpu.pc + 1)).toInt8.toInt) % 65536 := by
  obtain ⟨s', hstep⟩ := step_of_taken h htakes listener s
  have hoffset : Word.low (m.operand (.jump (.relative condition))) =
      Memory.read m.memory (m.cpu.pc + 1) := by
    show Word.low (Memory.read m.memory (m.cpu.pc + 1)).toUInt16 = _
    simp [Word.low]
  -- Adding a signed byte is an offset modulo 2 ^ 16, and so is passing the instruction.
  have hvalue := (Arithmetic.isOffset_addSigned (m.cpu.pc + 2)
    (Word.low (m.operand (.jump (.relative condition))))).value
  have hnext : (m.cpu.pc + 2).toNat = (m.cpu.pc.toNat + 2) % 65536 := UInt16.toNat_add ..
  rw [hstep, ← hoffset]
  show ((Arithmetic.addSigned (m.cpu.pc + 2)
    (Word.low (m.operand (.jump (.relative condition))))).1.toNat : Int) = _
  omega

/-- Where a call that is taken leads to. -/
def callee (m : Machine μ) : Instruction → Option UInt16
  | .jump (.call condition) =>
    if m.cpu.takes condition then some (m.operand (.jump (.call condition))) else none
  | .jump (.restart vector) => some vector.toUInt16
  | _ => none

/-- A call stores the address of the instruction after it. -/
theorem storesWord_of_callee (h : m.retires = some i) {target : UInt16}
    (hcallee : m.callee i = some target) (listener : Listener σ) (s : σ) :
    (m.step listener s).2.1.cpu.pc = target ∧
      StoresWord (m.cpu.pc + i.length.toUInt16) m (m.step listener s).2.1 := by
  unfold callee at hcallee
  -- A call that is taken, or a restart; nothing else has a callee.
  split at hcallee
  case h_1 condition =>
    obtain ⟨htakes, hoperand⟩ := Option.ite_none_right_eq_some.mp hcallee
    obtain ⟨s', hstep⟩ := step_of_taken h htakes listener s
    rw [hstep, ← Option.some.inj hoperand]
    exact ⟨rfl, rfl, rfl⟩
  case h_2 vector =>
    obtain ⟨s', hstep⟩ := step_of_taken h rfl listener s
    rw [hstep, ← Option.some.inj hcallee]
    exact ⟨rfl, rfl, rfl⟩
  case h_3 => cases hcallee

end Jumps

/-! ## Conditional jumps and their counterparts -/

/-- A jump without a condition leaves what the same jump leaves when its condition holds. -/
theorem leaves_unconditional (m : Machine μ) (op : Jump) (operand : UInt16) :
    m.Leaves (.jump op.unconditional) operand (m.jumped operand op)
      (m.jumpStore op.unconditional).writes op.unconditional.cycles := by
  cases op <;> exact leaves_of_taken rfl operand

/-- A machine that differs in its memory may run the jump without its condition instead.  It goes on
in the same way if it finds the same operand, and a return the same word. -/
theorem step_counterpart {op : Jump} {c : Condition} (h : m.retires = some (.jump op))
    (hcondition : op.condition = some c) (hholds : m.cpu.holds c = true) {u : Machine μ}
    (hcpu : u.cpu = m.cpu) (hu : u.retires = some (.jump op.unconditional))
    (hoperand : u.operand (.jump op.unconditional) = m.operand (.jump op))
    (htop : ∀ condition, op = .ret condition → u.stackTop = m.stackTop) (listener : Listener σ)
    (s : σ) :
    ∃ writes,
      (u.step listener s).1 = .ok op.unconditional.cycles ∧
      (m.step listener s).2.1.cpu =
        { (u.step listener s).2.1.cpu with cycles := (m.step listener s).2.1.cpu.cycles } ∧
      (u.step listener s).2.1.memory = Memory.writeAll u.memory writes ∧
      (m.step listener s).2.1.memory = Memory.writeAll m.memory writes := by
  have htakes : m.cpu.takes op.condition = true := by rw [hcondition]; exact hholds
  obtain ⟨s₁, hstep⟩ := step_of_taken h htakes listener s
  obtain ⟨s₂, hother⟩ := step_of_leaves hu (leaves_unconditional _ op _) listener s
  -- Both go past two instructions of the same length, so they find the same processor.
  have hpast : (u.past (.jump op.unconditional)).cpu = (m.past (.jump op)).cpu := by
    rw [past_of_retires hu, past_of_retires h, hcpu]
    simp only [Instruction.length, Jump.length_unconditional]
  have hjumped : ((u.past (.jump op.unconditional)).jumped (m.operand (.jump op)) op).cpu =
      ((m.past (.jump op)).jumped (m.operand (.jump op)) op).cpu := by
    show Cpu.jumped _ _ u.stackTop op = Cpu.jumped _ _ m.stackTop op
    rw [hpast, Cpu.jumped_congr _ _ hcondition htop]
  have hstore : (u.past (.jump op.unconditional)).jumpStore op.unconditional =
      (m.past (.jump op)).jumpStore op.unconditional := jumpStore_congr hpast _
  rw [hoperand] at hother
  rw [hstep, hother]
  refine ⟨_, rfl, ?_, congrArg (fun store : Store => Memory.writeAll u.memory store.writes) hstore,
    rfl⟩
  dsimp only
  rw [hjumped]
  exact Cpu.retire_spend ..

/-- Unless an instruction is a jump that is taken, the program goes on after it, also where the address
wraps around.  A relative jump moves on from there by its signed offset, and a call stores the address
there before it leaves.

A conditional jump whose condition fails spends its cycles and retires, and nothing else happens
but that the processor may have woken up.  One whose condition holds leaves what the same jump leaves
without the condition, for the same cycles; only a return takes four more.  So the program goes
on in the same way where another memory has the unconditional jump in its place. -/
theorem control_flow (h : m.retires = some i) (listener : Listener σ) (s : σ) :
    let next := m.cpu.pc + i.length.toUInt16
    let result := (m.step listener s).1
    let after := (m.step listener s).2.1
    (m.cpu.branches i = false → after.cpu.pc = next) ∧
    (∀ condition, i = .jump (.relative condition) → m.cpu.takes condition = true →
      (after.cpu.pc.toNat : Int) =
        (m.cpu.pc.toNat + 2 + (Memory.read m.memory (m.cpu.pc + 1)).toInt8.toInt) % 65536) ∧
    (∀ target, m.callee i = some target → after.cpu.pc = target ∧ StoresWord next m after) ∧
    ∀ op c, i = .jump op → op.condition = some c →
      (m.cpu.holds c = false →
        let passed : Cpu := { m.cpu with pc := next, activity := .running }
        result = .ok i.cycles ∧
        after = { m with cpu := (passed.spend i.cycles).retire } ∧
        ∀ access ∈ m.accesses, access.written? = none) ∧
      (m.cpu.holds c = true →
        let plain := Instruction.jump op.unconditional
        let cost := plain.cycles + op.surcharge
        (∃ arrived writes,
          (m.past i).Leaves plain (m.operand i) arrived writes plain.cycles ∧
          (m.past i).Leaves i (m.operand i) arrived writes cost ∧
          result = .ok cost ∧ after = { arrived with cpu := (arrived.cpu.spend cost).retire }) ∧
        ∀ u : Machine μ, u.cpu = m.cpu → u.retires = some plain → u.operand plain = m.operand i →
          (∀ condition, op = .ret condition → u.stackTop = m.stackTop) →
          let other := u.step listener s
          ∃ writes, other.1 = .ok plain.cycles ∧
            after.cpu = { other.2.1.cpu with cycles := after.cpu.cycles } ∧
            other.2.1.memory = Memory.writeAll u.memory writes ∧
            after.memory = Memory.writeAll m.memory writes) := by
  refine ⟨fun hbranches => pc_step_of_not_branches h hbranches listener s, ?_,
    fun target hcallee => storesWord_of_callee h hcallee listener s, ?_⟩
  · rintro condition rfl htakes
    exact toNat_pc_of_relative h htakes listener s
  · rintro op c rfl hcondition
    constructor
    -- The condition fails: the jump only costs its cycles.
    · intro hfails
      have htakes : m.cpu.takes op.condition = false := by rw [hcondition]; exact hfails
      have hpast : (m.past (.jump op)).cpu.takes op.condition = false := by rwa [takes_past]
      obtain ⟨s', hstep⟩ := step_of_not_taken h htakes listener s
      have hwrites := written?_eq_none h (leaves_of_not_taken hpast _).writes
      rw [hstep, past_of_retires h]
      exact ⟨rfl, rfl, hwrites⟩
    -- The condition holds: the jump leaves what its counterpart leaves, here and on another memory.
    · intro hholds
      have htakes : m.cpu.takes op.condition = true := by rw [hcondition]; exact hholds
      have hpast : (m.past (.jump op)).cpu.takes op.condition = true := by rwa [takes_past]
      obtain ⟨s', hstep⟩ := step_of_taken h htakes listener s
      refine ⟨⟨_, _, leaves_unconditional _ op _, leaves_of_taken hpast _, ?_⟩,
        fun u hcpu hu hoperand htop =>
          step_counterpart h hcondition hholds hcpu hu hoperand htop listener s⟩
      rw [hstep]
      exact ⟨rfl, rfl⟩

/-- A conditional jump whose op code is the last byte of memory and whose offset is the first. -/
def wrapping : Machine FlatMemory where
  cpu := { Cpu.initial with pc := 0xFFFF }
  memory := .ofCells (((Block.zero _).set 0xFFFF 0x20).set 0x0000 0xFB)

/-- The op code is at the end of memory, its offset at the start, and the rest is zero. -/
theorem read_wrapping (addr : UInt16) : Memory.read wrapping.memory addr =
    if addr.toNat = 0 then 0xFB else if addr.toNat = 0xFFFF then 0x20 else 0 := by
  simp [Memory.read, wrapping, FlatMemory.ofCells, Block.get_set]

/-- The conditional jump is what retires in the next step. -/
theorem retires_wrapping : wrapping.retires = some (.jump (.relative (some .notZero))) := by
  have hduty : wrapping.duty = .execute := Cpu.duty_wake_eq_execute_iff.mpr ⟨rfl, .inl rfl⟩
  have hcode : Memory.read wrapping.memory wrapping.cpu.pc = 0x20 := by
    rw [read_wrapping]
    rfl
  rw [retires, hduty, fetched, hcode,
    Descriptor.select_of_decode (i := .jump (.relative (some .notZero))) (by decide) (by decide)]
  rfl

/-- The jump starts from the second byte of memory and goes back over the end. -/
theorem control_flow_wrapping :
    wrapping.retires = some (.jump (.relative (some .notZero))) ∧
    (wrapping.step Listener.deaf ()).1 = .ok 12 ∧
    (wrapping.step Listener.deaf ()).2.1.cpu.pc = 0xFFFC := by
  obtain ⟨-, hrelative, -, hconditional⟩ := control_flow retires_wrapping Listener.deaf ()
  obtain ⟨-, htaken⟩ := hconditional _ _ rfl rfl
  obtain ⟨⟨arrived, writes, -, -, hresult, -⟩, -⟩ := htaken rfl
  have hpc := hrelative _ rfl rfl
  refine ⟨retires_wrapping, hresult, ?_⟩
  have hoffset : Memory.read wrapping.memory (wrapping.cpu.pc + 1) = 0xFB := by
    rw [read_wrapping]
    rfl
  -- The offset is -5, taken from address 1.
  rw [hoffset] at hpc
  exact UInt16.toNat_inj.mp (Int.ofNat_inj.mp hpc)

end Machine

end GameBoy
