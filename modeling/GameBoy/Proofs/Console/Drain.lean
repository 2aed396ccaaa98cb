import GameBoy.Proofs.Bus.Retention
import GameBoy.Proofs.Console.Ledger
import GameBoy.Proofs.Machine.Outcome

/-!
# Draining the interrupts

A handler that returns at once gives the processor back as it was.  If the handlers of all sources that
are due do so, the sources are served one after the other, in the order of their priority, and then
the interrupted program goes on as if nothing had happened.

`Console.Interruptible` is what this takes: interrupts are enabled, the return address fits on a
stack in RAM, and there is a return instruction where each handler starts.
`Interruptible.round` follows one source through its service and its return, and
`Console.drains_in_order` all of them.
-/

namespace GameBoy

/-- The ROM below 0x4000 is always the start of the image, whichever banks are selected. -/
theorem Bus.read_of_rom {bus : Bus VideoRam} {addr : UInt16} {b : UInt8} (haddr : addr < 0x4000)
    (h : Storage.getD bus.cartridge.rom addr.toNat 0 = b) (hb : b ≠ 0) : bus.read addr = b := by
  have hrom : addr < 0x8000 := UInt16.lt_trans haddr (by decide)
  have hregion : Region.of bus.model addr = .cartridge := Region.of_eq_iff.mpr (.inl hrom)
  have hsize : addr.toNat < bus.cartridge.rom.size := by
    apply Decidable.byContradiction
    intro hsize
    rw [Storage.getD, dif_neg hsize] at h
    exact hb h.symm
  -- A byte that is there is read whatever is read past the end.
  have hget (fallback : UInt8) : Storage.getD bus.cartridge.rom addr.toNat fallback = b := by
    rw [← h, Storage.getD, Storage.getD, dif_pos hsize, dif_pos hsize]
  rw [read, hregion]
  show bus.cartridge.controller.read bus.cartridge.rom addr = b
  -- Both controllers show the start of the image there.
  cases bus.cartridge.controller with
  | direct ram => rw [Controller.read, if_pos hrom, hget]
  | mbc1 chip => rw [Controller.read, Mbc1.read, if_pos haddr, hget]

namespace Execution

/-- A return from a handler takes the program counter from the stack and turns the master switch on
at once. -/
theorem run_carryOut_retEnable (operand : UInt16) (cpu : Cpu) :
    (carryOut (.jump .retEnable) operand).run cpu =
      .read cpu.sp fun lo => .read (cpu.sp + 1) fun hi =>
        .done (.ok 16, (Cpu.spend { cpu with
          ime := true
          sp := cpu.sp + 2
          pc := Word.ofBytes hi lo } 16).retire) := rfl

end Execution

/-- Without a change of the master switch under way nothing happens at a retirement. -/
theorem Cpu.retire_of_idle {cpu : Cpu} (h : cpu.imeSwitch = .idle) : cpu.retire = cpu := by
  rw [retire, h]
  simp [PendingSwitch.retire, ← h]

namespace Machine

variable {μ σ : Type} [Memory μ] {m : Machine μ}

/-- The word on top of the stack. -/
def stackTop (m : Machine μ) : UInt16 :=
  Word.ofBytes (Memory.read m.memory (m.cpu.sp + 1)) (Memory.read m.memory m.cpu.sp)

/-- The op code 0xD9 is the return from a handler. -/
theorem fetched_of_return (h : Memory.read m.memory m.cpu.pc = 0xD9) :
    m.fetched = some ⟨0xD9, .jump .retEnable⟩ := by
  rw [fetched, h]
  exact Descriptor.select_of_decode (by decide) (by decide) _

/-- A step that returns from a handler.  A change of the master switch that is under way happens when
the return retires. -/
theorem step_of_retEnable (hduty : m.duty = .execute) {code : UInt8}
    (hfetched : m.fetched = some ⟨code, .jump .retEnable⟩) (listener : Listener σ) (s : σ) :
    (m.step listener s).1 = .ok 16 ∧
      (m.step listener s).2.1 = {
        cpu := Cpu.retire { m.awake.cpu with
          ime := true
          sp := m.cpu.sp + 2
          pc := m.stackTop
          cycles := m.cpu.cycles + 16 }
        memory := m.memory } := by
  obtain ⟨s', hs⟩ := step_of_fetched_eq_some hduty hfetched listener s
  rw [hs, perform, Execution.run_carryOut_retEnable]
  exact ⟨rfl, rfl⟩

end Machine

/-! ## The stack -/

/-- The two bytes below the stack pointer, where a return address is stored. -/
def stackSlot (sp : UInt16) : List UInt16 := [sp - 1, sp - 2]

namespace Bus

/-- A word has been pushed: it can be read back, and nothing but its bytes has changed. -/
structure Pushed (sp value : UInt16) (bus bus' : Bus VideoRam) : Prop where
  wellFormed : bus'.WellFormed
  low : bus'.read (sp - 2) = Word.low value
  high : bus'.read (sp - 2 + 1) = Word.high value
  interrupts : bus'.interrupts = bus.interrupts
  memory : bus.SameExcept (stackSlot sp) bus'

/-- A word that is pushed on a stack in RAM can be read back. -/
theorem Pushed.write {bus : Bus VideoRam} {sp : UInt16} (h : bus.WellFormed)
    (hstack : ∀ addr ∈ stackSlot sp,
      0xC000 ≤ addr ∧ addr < 0xE000 ∨ 0xFF80 ≤ addr ∧ addr < 0xFFFF) (value : UInt16) :
    bus.Pushed sp value
      ((bus.write (sp - 2) (Word.low value)).write (sp - 2 + 1) (Word.high value)) := by
  -- The stack grows downwards, so the upper byte is the first one below the old stack pointer.
  have hupper : sp - 2 + 1 = sp - 1 := by grind
  have hmem : sp - 2 ∈ stackSlot sp ∧ sp - 2 + 1 ∈ stackSlot sp := by simp [stackSlot, hupper]
  have hram (addr : UInt16) (haddr : addr ∈ stackSlot sp) : IsRamAddress addr :=
    .inr (hstack addr haddr)
  have hisRam {model : Model} {addr : UInt16} (haddr : addr ∈ stackSlot sp) :
      (Region.of model addr).isRam = true := Region.isRam_of_iff.mpr (hram addr haddr)
  obtain ⟨hwf, hlow, hhigh⟩ := retains.write_word h (hram _ hmem.1) (hram _ hmem.2) value
  constructor
  case wellFormed => exact hwf
  case low => exact hlow
  case high => exact hhigh
  case interrupts =>
    rw [interrupts_write_of_isRam (hisRam hmem.2), interrupts_write_of_isRam (hisRam hmem.1)]
  -- Each of the two writes goes to an address of the slot.
  case memory =>
    exact (SameExcept.write h hmem.1 (hstack _ hmem.1) _).trans
      (.write (h.write _ _) hmem.2 (hstack _ hmem.2) _)

end Bus

/-! ## One source -/

namespace Console

variable {σ : Type} {m : Console} {source : Interrupt} {rest : List Interrupt}

/-- A console that can be interrupted without a trace. -/
structure Interruptible (m : Console) : Prop where
  wellFormed : m.memory.WellFormed
  activity : m.cpu.activity = .running ∨ m.cpu.activity = .halted
  ime : m.cpu.ime = true
  imeSwitch : m.cpu.imeSwitch = .idle
  /-- The return address is stored in the working RAM or in the high RAM. -/
  stack : (∀ addr ∈ stackSlot m.cpu.sp, 0xC000 ≤ addr ∧ addr < 0xE000) ∨
    ∀ addr ∈ stackSlot m.cpu.sp, 0xFF80 ≤ addr ∧ addr < 0xFFFF
  /-- The handlers return at once. -/
  handlers : ∀ source ∈ m.memory.interrupts.due,
    Storage.getD m.memory.cartridge.rom source.vector.toNat 0 = 0xD9

/-- In two steps a source is served and its handler returns. -/
structure Dispatches (listener : Listener σ) (c : Console × σ) (source : Interrupt) : Prop where
  duty : c.1.duty = .serve source
  served : (c.1.step listener c.2).1 = .ok 20
  returns : (Machine.stepMany listener 1 c).1.retires = some (.jump .retEnable)
  returned : ((Machine.stepMany listener 1 c).1.step listener (Machine.stepMany listener 1 c).2).1 =
    .ok 16

/-- What has become of a console when the handlers of some sources have run and returned. -/
structure Drained (sources : List Interrupt) (m m' : Console) : Prop where
  cpu : m'.cpu = { m.cpu with
    activity := if sources = [] then m.cpu.activity else .running
    cycles := m.cpu.cycles + 36 * UInt64.ofNat sources.length }
  interrupts : m'.memory.interrupts = sources.foldl .acknowledge m.memory.interrupts
  memory : m.memory.SameExcept (stackSlot m.cpu.sp) m'.memory
  wellFormed : m'.memory.WellFormed

/-- Nothing has become of the console before the first handler runs. -/
theorem Drained.nil (h : m.memory.WellFormed) : Drained [] m m :=
  ⟨by simp, rfl, .refl _ _, h⟩

/-- The rounds of the handlers add up. -/
theorem Drained.cons {m₁ m₂ : Console} (h : Drained [source] m m₁) (h' : Drained rest m₁ m₂) :
    Drained (source :: rest) m m₂ where
  cpu := by
    have hcycles (n : UInt64) : m.cpu.cycles + 36 + 36 * n = m.cpu.cycles + 36 * (n + 1) := by
      grind
    rw [h'.cpu, h.cpu]
    simp [hcycles]
  interrupts := by rw [h'.interrupts, h.interrupts]; rfl
  memory := by
    -- The slot is the same in every round, since each one gives the stack pointer back.
    have hsp : m₁.cpu.sp = m.cpu.sp := by rw [h.cpu]
    exact h.memory.trans (hsp ▸ h'.memory)
  wellFormed := h'.wellFormed

/-- The console in front of the first instruction of a handler. -/
def atHandler (m : Console) (source : Interrupt) : Console where
  cpu := { m.cpu with
    activity := .running
    ime := false
    sp := m.cpu.sp - 2
    pc := source.vector
    cycles := m.cpu.cycles + interruptCycles.toUInt64 }
  memory := (Bus.write (Memory.acknowledge m.memory source) (m.cpu.sp - 2) (Word.low m.cpu.pc)).write
    (m.cpu.sp - 2 + 1) (Word.high m.cpu.pc)

/-- In a handler no other source is served. -/
theorem duty_atHandler (m : Console) (source : Interrupt) : (m.atHandler source).duty = .execute := rfl

namespace Interruptible

/-- A console whose most important source has been served can be interrupted again. -/
theorem of_drained (h : m.Interruptible) (hdue : m.memory.interrupts.due = source :: rest)
    {m' : Console} (hdrained : Drained [source] m m') :
    m'.Interruptible ∧ m'.memory.interrupts.due = rest := by
  have hrest : m'.memory.interrupts.due = rest := by
    rw [hdrained.interrupts]
    exact Interrupts.due_acknowledge hdue
  refine ⟨?_, hrest⟩
  have hcpu := hdrained.cpu
  constructor
  case wellFormed => exact hdrained.wellFormed
  case activity => rw [hcpu]; exact .inl rfl
  case ime => rw [hcpu]; exact h.ime
  case imeSwitch => rw [hcpu]; exact h.imeSwitch
  case stack => rw [hcpu]; exact h.stack
  -- Writes leave the ROM alone, so the handlers of the other sources are still there.
  case handlers =>
    intro other hmem
    rw [hrest] at hmem
    rw [hdrained.memory.cartridge]
    exact h.handlers other (by rw [hdue]; exact List.mem_cons_of_mem _ hmem)

/-- The most important source is served in the next step. -/
theorem duty (h : m.Interruptible) (hdue : m.memory.interrupts.due = source :: rest) :
    m.duty = .serve source ∧ m.cpu.activity.wake m.memory.interrupts.active = .running := by
  have hfirst : Interrupt.highestPriority m.memory.interrupts.active = some source := by
    rw [← Interrupts.head?_due, hdue]
    rfl
  have hready : Ready m := by
    -- A source that is due is both enabled and requested, so the processor wakes for it.
    refine ⟨h.ime, fun hzero => ?_, fun hstopped => ?_⟩
    · apply Interrupt.mask_of_highestPriority hfirst
      rw [hzero, UInt8.zero_and]
    · rcases h.activity with hactivity | hactivity <;> rw [hactivity] at hstopped <;> cases hstopped
  obtain ⟨other, hduty, hother, hwake⟩ := exists_duty_of_ready h.wellFormed.interrupts hready
  obtain rfl : source = other := Option.some.inj (hfirst.symm.trans hother)
  exact ⟨hduty, hwake⟩

/-- The service has pushed the program counter. -/
theorem pushed_atHandler (h : m.Interruptible) (source : Interrupt) :
    Bus.Pushed m.cpu.sp m.cpu.pc (Memory.acknowledge m.memory source) (m.atHandler source).memory := by
  refine .write (h.wellFormed.acknowledge source) (fun addr hmem => ?_) m.cpu.pc
  exact h.stack.imp (· addr hmem) (· addr hmem)

/-- The service has changed nothing but the slot and the request. -/
theorem memory_atHandler (h : m.Interruptible) (source : Interrupt) :
    m.memory.SameExcept (stackSlot m.cpu.sp) (m.atHandler source).memory :=
  (Bus.SameExcept.acknowledge _ m.memory source).trans (h.pushed_atHandler source).memory

/-- The service leads to the handler. -/
theorem step_service (h : m.Interruptible) (hdue : m.memory.interrupts.due = source :: rest)
    (listener : Listener σ) (s : σ) :
    (m.step listener s).1 = .ok 20 ∧ (m.step listener s).2.1 = m.atHandler source := by
  obtain ⟨hduty, hwake⟩ := h.duty hdue
  obtain ⟨hserved, hservice⟩ := Machine.step_of_serve hduty listener s
  refine ⟨hserved, hservice.trans ?_⟩
  exact congrArg (fun activity => ({ m.atHandler source with
    cpu := { (m.atHandler source).cpu with activity := activity } } : Console)) hwake

/-- The first instruction of the handler is a return. -/
theorem fetched_atHandler (h : m.Interruptible) (hdue : m.memory.interrupts.due = source :: rest) :
    (m.atHandler source).fetched = some ⟨0xD9, .jump .retEnable⟩ := by
  -- The vectors are all in the fixed bank, which the controller always shows.
  have hvector : source.vector < 0x4000 := by cases source <;> decide
  have hcode : (m.atHandler source).memory.read source.vector = 0xD9 := by
    apply Bus.read_of_rom hvector
    · rw [(h.memory_atHandler source).cartridge]
      exact h.handlers source (by rw [hdue]; exact List.mem_cons_self)
    · decide
  exact Machine.fetched_of_return hcode

/-- The return leads back to where the program was interrupted. -/
theorem step_return (h : m.Interruptible) (hdue : m.memory.interrupts.due = source :: rest)
    (listener : Listener σ) (s : σ) :
    ((m.atHandler source).step listener s).1 = .ok 16 ∧
      Drained [source] m ((m.atHandler source).step listener s).2.1 := by
  have hpushed := h.pushed_atHandler source
  obtain ⟨hreturned, hreturn⟩ := Machine.step_of_retEnable (duty_atHandler m source)
    (h.fetched_atHandler hdue) listener s
  refine ⟨hreturned, ?_⟩
  -- No change of the master switch is under way.
  rw [hreturn, Cpu.retire_of_idle (by exact h.imeSwitch)]
  constructor
  case cpu =>
    -- The stack pointer and the program counter are those from before the service.
    have hsp : m.cpu.sp - 2 + 2 = m.cpu.sp := by grind
    have hpc : Word.ofBytes ((m.atHandler source).memory.read (m.cpu.sp - 2 + 1))
        ((m.atHandler source).memory.read (m.cpu.sp - 2)) = m.cpu.pc := by
      rw [hpushed.high, hpushed.low, Word.ofBytes_high_low]
    have hcycles : m.cpu.cycles + interruptCycles.toUInt64 + 16 =
        m.cpu.cycles + 36 * UInt64.ofNat [source].length := by
      rw [UInt64.add_assoc]
      rfl
    show ({ m.cpu with
      activity := .running
      ime := true
      sp := m.cpu.sp - 2 + 2
      pc := Word.ofBytes ((m.atHandler source).memory.read (m.cpu.sp - 2 + 1))
        ((m.atHandler source).memory.read (m.cpu.sp - 2))
      cycles := m.cpu.cycles + interruptCycles.toUInt64 + 16 } : Cpu) = _
    rw [hsp, hpc, hcycles, ← h.ime]
    rfl
  case interrupts => exact hpushed.interrupts
  case memory => exact h.memory_atHandler source
  case wellFormed => exact hpushed.wellFormed

/-- The most important source is served, and its handler returns. -/
theorem round (h : m.Interruptible) (hdue : m.memory.interrupts.due = source :: rest)
    (listener : Listener σ) (s : σ) :
    Dispatches listener (m, s) source ∧
      Drained [source] m (Machine.stepMany listener 2 (m, s)).1 := by
  obtain ⟨hserved, hservice⟩ := h.step_service hdue listener s
  -- The first step ends at the handler, so the second one is the return.
  have hone : Machine.stepMany listener 1 (m, s) =
      (m.atHandler source, (m.step listener s).2.2) := Prod.ext hservice rfl
  obtain ⟨hreturned, hdrained⟩ := h.step_return hdue listener (m.step listener s).2.2
  constructor
  · constructor
    case duty => exact (h.duty hdue).1
    case served => exact hserved
    case returns =>
      rw [hone, Machine.retires, duty_atHandler, h.fetched_atHandler hdue]
      rfl
    case returned => rw [hone]; exact hreturned
  · rw [Machine.stepMany_add listener 1 1, hone, Machine.stepMany, Machine.stepMany, Machine.after]
    dsimp only
    exact hdrained

/-- All sources that are due are served one after the other. -/
theorem drain {sources : List Interrupt} (h : m.Interruptible)
    (hdue : m.memory.interrupts.due = sources) (listener : Listener σ) (s : σ) :
    (∀ i source, sources[i]? = some source →
      Dispatches listener (Machine.stepMany listener (2 * i) (m, s)) source) ∧
    Drained sources m (Machine.stepMany listener (2 * sources.length) (m, s)).1 := by
  have hsplit (i : Nat) (c : Console × σ) : Machine.stepMany listener (2 * (i + 1)) c =
      Machine.stepMany listener (2 * i) (Machine.stepMany listener 2 c) := by
    rw [Nat.mul_succ, Nat.add_comm, Machine.stepMany_add]
  -- Over the sources that are due: a round drains the first one and leaves the others due.
  induction sources generalizing m s with
  | nil => exact ⟨by simp, .nil h.wellFormed⟩
  | cons first rest ih =>
    obtain ⟨hfirst, hdrained⟩ := h.round hdue listener s
    obtain ⟨hagain, hrest⟩ := h.of_drained hdue hdrained
    -- After the first round the rest is due.
    obtain ⟨hlater, hend⟩ := ih hagain hrest (Machine.stepMany listener 2 (m, s)).2
    constructor
    · intro i source hsource
      cases i with
      | zero =>
        obtain rfl : first = source := Option.some.inj hsource
        exact hfirst
      | succ i =>
        rw [hsplit]
        exact hlater i source hsource
    · rw [List.length_cons, hsplit]
      exact hdrained.cons hend

end Interruptible

/-- A console that can be interrupted serves each source that is due exactly once, in ascending order,
in two steps each.  Then its processor is as it was, but for the time that this took, the requests of
these sources are withdrawn and no others, and no memory has changed but the two bytes below the stack
pointer. -/
theorem drains_in_order (h : m.Interruptible) (listener : Listener σ) (s : σ) :
    let sources := m.memory.interrupts.due
    let after k := Machine.stepMany listener k (m, s)
    let m' := (after (2 * sources.length)).1
    (sources.Pairwise fun a b => a.index < b.index) ∧
    (∀ source, source ∈ sources ↔ m.memory.interrupts.enable.contains source = true ∧
      m.memory.interrupts.pending.contains source = true) ∧
    (∀ i source, sources[i]? = some source → Dispatches listener (after (2 * i)) source) ∧
    m'.cpu = { m.cpu with
      activity := if sources = [] then m.cpu.activity else .running
      cycles := m.cpu.cycles + 36 * UInt64.ofNat sources.length } ∧
    m'.memory.interrupts.enable = m.memory.interrupts.enable ∧
    (∀ source, m'.memory.interrupts.pending.contains source =
      (m.memory.interrupts.pending.contains source &&
        !m.memory.interrupts.enable.contains source)) ∧
    m.memory.SameExcept [m.cpu.sp - 1, m.cpu.sp - 2] m'.memory := by
  intro sources after m'
  obtain ⟨hdispatches, hdrained⟩ := h.drain rfl listener s
  refine ⟨Interrupts.pairwise_due _, fun source => Interrupts.mem_due, hdispatches, hdrained.cpu,
    ?_, fun source => ?_, hdrained.memory⟩
  · rw [hdrained.interrupts, Interrupts.enable_foldl]
  -- Only the requests that are due have been taken up, and those are the enabled ones.
  · have hmem : decide (source ∈ sources) = (m.memory.interrupts.enable.contains source &&
        m.memory.interrupts.pending.contains source) := by
      rw [Bool.eq_iff_iff, decide_eq_true_iff, Bool.and_eq_true]
      exact Interrupts.mem_due
    rw [hdrained.interrupts, Interrupts.contains_pending_foldl, hmem]
    cases m.memory.interrupts.pending.contains source <;> simp

/-- A cartridge on which two handlers return at once. -/
def returning : Cartridge :=
  { Cartridge.sample with
    rom := Storage.set (Storage.set Cartridge.sampleImage 0x40 0xD9) 0x50 0xD9 }

/-- A console that sleeps with two sources due and a third one that is not enabled. -/
def interrupted : Console where
  cpu := { Cpu.initial with ime := true, activity := .halted }
  memory := { Bus.assemble returning .empty .dmg with interrupts := ⟨⟨0b00101⟩, ⟨0b00111⟩⟩ }

/-- The two sources that are enabled are served, and the third one stays requested. -/
theorem drains_in_order_two :
    interrupted.memory.interrupts.due = [.vblank, .timer] ∧
      (Machine.stepMany Listener.deaf 4 (interrupted, ())).1.cpu =
        { interrupted.cpu with activity := .running, cycles := 72 } ∧
      (Machine.stepMany Listener.deaf 4 (interrupted, ())).1.memory.interrupts.pending.contains
        .lcd = true := by
  have hdue : interrupted.memory.interrupts.due = [.vblank, .timer] := by decide
  have hcontroller : Cartridge.sample.controller.WellFormed :=
    Cartridge.wellFormed_of_load Cartridge.load_sample
  have hassembled : (Bus.assemble returning VideoRam.empty .dmg).WellFormed :=
    @Bus.WellFormed.assemble returning hcontroller .empty (by decide) .dmg
  have hsize : Cartridge.sampleImage.size = 0x8000 := by
    simp only [Cartridge.sampleImage, Storage.size_set, Storage.size_zeros]
  have hinterruptible : interrupted.Interruptible := by
    constructor
    case wellFormed => exact { hassembled with interrupts := ⟨by decide, by decide⟩ }
    case activity => exact .inr rfl
    case ime => rfl
    case imeSwitch => rfl
    case stack => right; simp [stackSlot, interrupted, Cpu.initial]
    case handlers =>
      rw [hdue]
      show ∀ source ∈ [Interrupt.vblank, .timer],
        Storage.getD returning.rom source.vector.toNat 0 = 0xD9
      simp [returning, Storage.getD_set, Interrupt.vector, Interrupt.index, hsize]
  obtain ⟨-, -, -, hcpu, -, hpending, -⟩ := drains_in_order hinterruptible Listener.deaf ()
  have hlength : 2 * interrupted.memory.interrupts.due.length = 4 := by rw [hdue]; rfl
  simp only [hlength] at hcpu hpending
  rw [hdue] at hcpu
  -- The steps themselves need not be computed.
  generalize Machine.stepMany Listener.deaf 4 (interrupted, ()) = c at hcpu hpending ⊢
  refine ⟨hdue, ?_, ?_⟩
  · rw [hcpu]
    rfl
  · rw [hpending]
    rfl

end Console

end GameBoy
