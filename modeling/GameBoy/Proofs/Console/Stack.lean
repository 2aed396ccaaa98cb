import GameBoy.Proofs.Console.Drain
import GameBoy.Proofs.Console.Program
import GameBoy.Proofs.Machine.Footprint
import Mathlib.Data.List.Forall2

/-!
# The stack

Words that are pushed come back in reverse order.  The stack is no list, though, but memory: what is
taken is what the bus reads at the stack pointer, so the bytes of a word have to survive the pushes
and pops that come after it.  They do if all bytes of the stack lie in RAM (`Console.HasRoom`), where
a write is seen at its own address only.

`Machine.InTurn` describes moves of some kind that happen one after the other, and
`Console.forall₂_of_inTurn` is the result for all kinds of moves that store and take words.
`Console.stack_discipline` applies it to bare pushes and pops, to the instructions that push and
pop, and to the steps of a program that calls and returns.
-/

namespace GameBoy

/-! ## Memory below the stack pointer -/

/-- The bytes of a number of words below a stack pointer. -/
def stackBytes (sp : UInt16) : Nat → List UInt16
  | 0 => []
  | n + 1 => stackSlot sp ++ stackBytes (sp - 2) n

section StackBytes

variable {sp : UInt16} {n : Nat}

/-- The bytes of some words are those of the first one and those of the words below. -/
theorem forall_stackBytes_succ {P : UInt16 → Prop} :
    (∀ addr ∈ stackBytes sp (n + 1), P addr) ↔
      (P (sp - 1) ∧ P (sp - 2)) ∧ ∀ addr ∈ stackBytes (sp - 2) n, P addr := by
  rw [stackBytes, List.forall_mem_append]
  simp [stackSlot]

/-- No RAM lies next to either end of the address space, so a stack in RAM does not wrap around. -/
theorem lt_of_mem_stackBytes (hram : ∀ addr ∈ stackBytes sp n, IsRamAddress addr) :
    ∀ addr ∈ stackBytes sp n, addr < sp := by
  -- Over the words, from the stack pointer downwards.
  induction n generalizing sp with
  | zero => exact fun _ h => nomatch h
  | succ n ih =>
    rw [forall_stackBytes_succ] at hram ⊢
    obtain ⟨⟨hhigh, hlow⟩, hrest⟩ := hram
    unfold IsRamAddress at hhigh hlow
    -- Both bytes are above the ROM, so the difference is one of numbers.
    have hbelow : sp - 2 < sp := by grind
    exact ⟨⟨by grind, hbelow⟩, fun addr hmem => UInt16.lt_trans (ih hrest addr hmem) hbelow⟩

/-- The bytes of a word are none of those below it. -/
theorem not_mem_stackBytes (hram : ∀ addr ∈ stackBytes sp (n + 1), IsRamAddress addr) :
    sp - 2 ∉ stackBytes (sp - 2) n ∧ sp - 2 + 1 ∉ stackBytes (sp - 2) n := by
  obtain ⟨⟨hhigh, hlow⟩, hrest⟩ := forall_stackBytes_succ.mp hram
  unfold IsRamAddress at hhigh hlow
  have horder : sp - 2 < sp - 2 + 1 := by grind
  have hlt := lt_of_mem_stackBytes hrest
  exact ⟨fun hmem => UInt16.lt_irrefl _ (hlt _ hmem),
    fun hmem => UInt16.lt_asymm (hlt _ hmem) horder⟩

end StackBytes

namespace Bus

/-- Nothing on the bus differs but the RAM at some addresses.  Other than in `SameExcept`, the
addresses may lie in video memory. -/
structure SameOutside (addrs : List UInt16) (bus bus' : Bus VideoRam) : Prop where
  cartridge : bus'.cartridge = bus.cartridge
  model : bus'.model = bus.model
  workRamBank : bus'.workRamBank = bus.workRamBank
  videoBank : bus'.videoBank = bus.videoBank
  interrupts : bus'.interrupts = bus.interrupts
  sprites : bus'.video.sprites = bus.video.sprites
  bank : bus'.video.bank = bus.video.bank
  scanline : bus'.video.scanline = bus.video.scanline
  cell : ∀ c : Cell, c.Exists → (∀ addr ∈ addrs, bus.cellAt? addr ≠ some c) →
    bus'.cell c = bus.cell c

namespace SameOutside

variable {addrs addrs' : List UInt16} {bus bus' bus'' : Bus VideoRam}

/-- A bus differs nowhere from itself. -/
theorem refl (addrs : List UInt16) (bus : Bus VideoRam) : bus.SameOutside addrs bus :=
  ⟨rfl, rfl, rfl, rfl, rfl, rfl, rfl, rfl, fun _ _ _ => rfl⟩

/-- It also differs at no more than some more addresses. -/
theorem mono (h : bus.SameOutside addrs bus') (hsubset : addrs ⊆ addrs') :
    bus.SameOutside addrs' bus' :=
  { h with cell := fun c hc hne => h.cell c hc fun addr hmem => hne addr (hsubset hmem) }

/-- The same banks are selected, so the addresses name the same cells. -/
theorem cellAt?_eq (h : bus.SameOutside addrs bus') (addr : UInt16) :
    bus'.cellAt? addr = bus.cellAt? addr := by
  rw [cellAt?, cellAt?, h.workRamBank, h.bank]

/-- Differences in the same places stay there. -/
theorem trans (h : bus.SameOutside addrs bus') (h' : bus'.SameOutside addrs bus'') :
    bus.SameOutside addrs bus'' where
  cartridge := h'.cartridge.trans h.cartridge
  model := h'.model.trans h.model
  workRamBank := h'.workRamBank.trans h.workRamBank
  videoBank := h'.videoBank.trans h.videoBank
  interrupts := h'.interrupts.trans h.interrupts
  sprites := h'.sprites.trans h.sprites
  bank := h'.bank.trans h.bank
  scanline := h'.scanline.trans h.scanline
  cell c hc hne := by
    have hne' : ∀ addr ∈ addrs, bus'.cellAt? addr ≠ some c := by
      simpa only [h.cellAt?_eq] using hne
    rw [h'.cell c hc hne', h.cell c hc hne]

/-- A write to RAM is a difference at its own address. -/
theorem write (h : bus.WellFormed) {addr : UInt16} (hmem : addr ∈ addrs)
    (haddr : IsRamAddress addr) (v : UInt8) : bus.SameOutside addrs (bus.write addr v) := by
  have hcell (c : Cell) (hc : c.Exists) (hne : ∀ addr ∈ addrs, bus.cellAt? addr ≠ some c) :
      (bus.write addr v).cell c = bus.cell c := by
    rw [cell_write h addr v hc, if_neg (hne addr hmem)]
  have hram : (Region.of bus.model addr).isRam = true := Region.isRam_of_iff.mpr haddr
  cases hregion : Region.of bus.model addr <;> rw [hregion] at hram
  -- Each kind of RAM is one part of the bus, and what is left is what the other parts are.
  case video | workRam | bankedWorkRam | highRam =>
    constructor
    case cell => exact hcell
    all_goals
      simp only [Bus.write, hregion]
      try rfl
  all_goals cases hram

/-- Every other address reads as before, whatever is there. -/
theorem read (h : bus.SameOutside addrs bus') (hwf : bus.WellFormed) {addr : UInt16}
    (hmem : addr ∉ addrs) : bus'.read addr = bus.read addr := by
  cases hcell : bus.cellAt? addr with
  | some c =>
    have hcell' : bus'.cellAt? addr = some c := by rw [h.cellAt?_eq, hcell]
    have hne : ∀ other ∈ addrs, bus.cellAt? other ≠ some c := fun other hother heq =>
      hmem (Cell.ofAddress?_inj hwf.workRamBank_pos hcell heq ▸ hother)
    rw [read_of_cellAt? hcell', read_of_cellAt? hcell, h.cell c (hwf.exists_of_cellAt? hcell) hne]
  | none =>
    -- What is not RAM depends on the other parts of the bus alone, and those are the same.
    have hram : (Region.of bus.model addr).isRam = false := by
      rw [← isSome_cellAt?, hcell]
      rfl
    rw [Bus.read, Bus.read, h.model]
    cases hregion : Region.of bus.model addr <;> rw [hregion] at hram
    case video | workRam | bankedWorkRam | highRam => cases hram
    all_goals
      simp only [h.cartridge, h.interrupts, h.videoBank, h.workRamBank, VideoDevice.scanline,
        h.scanline]

end SameOutside

/-- No writes change the program on the cartridge. -/
theorem Plays.writeAll {code : List UInt8} {bus : Bus VideoRam} (h : bus.Plays code)
    (writes : List (UInt16 × UInt8)) : Plays code (Memory.writeAll bus writes) := by
  induction writes generalizing bus with
  | nil => exact h
  | cons write writes ih => exact ih (h.write write.1 write.2)

end Bus

/-! ## Words that are stored and taken -/

namespace Machine

variable {μ : Type} {m m₁ m' : Machine μ}

/-- The stack pointer and the memory stay as they are. -/
structure Undisturbed (m m' : Machine μ) : Prop where
  sp : m'.cpu.sp = m.cpu.sp
  memory : m'.memory = m.memory

/-- A machine does not disturb itself. -/
theorem Undisturbed.refl (m : Machine μ) : Undisturbed m m := ⟨rfl, rfl⟩

/-- Moves of some kind happen one after the other.  Before, between and after them other things may
happen that leave the stack pointer and the memory alone. -/
inductive InTurn {α : Type} (move : α → Machine μ → Machine μ → Prop) :
    List α → Machine μ → Machine μ → Prop
  | nil {m m' : Machine μ} (rest : Undisturbed m m') : InTurn move [] m m'
  | cons {a : α} {as : List α} {m m₁ m₂ m' : Machine μ} (before : Undisturbed m m₁)
      (first : move a m₁ m₂) (rest : InTurn move as m₂ m') : InTurn move (a :: as) m m'

namespace InTurn

variable {α : Type} {move : α → Machine μ → Machine μ → Prop} {as bs : List α} {a : α}

/-- The first of several moves, and the rest. -/
theorem exists_of_cons (h : InTurn move (a :: as) m m') :
    ∃ m₁ m₂, Undisturbed m m₁ ∧ move a m₁ m₂ ∧ InTurn move as m₂ m' := by
  cases h with
  | cons before first rest => exact ⟨_, _, before, first, rest⟩

/-- The only move. -/
theorem exists_of_singleton (h : InTurn move [a] m m') :
    ∃ m₁ m₂, Undisturbed m m₁ ∧ move a m₁ m₂ ∧ Undisturbed m₂ m' := by
  obtain ⟨m₁, m₂, before, first, ⟨after⟩⟩ := h.exists_of_cons
  exact ⟨m₁, m₂, before, first, after⟩

/-- Moves can be split at any point. -/
theorem exists_of_append (h : InTurn move (as ++ bs) m m') :
    ∃ mid, InTurn move as m mid ∧ InTurn move bs mid m' := by
  -- Over the moves before the split.
  induction as generalizing m with
  | nil => exact ⟨m, .nil (.refl m), h⟩
  | cons a as ih =>
    obtain ⟨m₁, m₂, before, first, rest⟩ := h.exists_of_cons
    obtain ⟨mid, hinit, htail⟩ := ih rest
    exact ⟨mid, .cons before first hinit, htail⟩

end InTurn

variable [Memory μ] {w : UInt16}

/-- A word is stored below the stack pointer, which moves down to it. -/
structure StoresWord (w : UInt16) (m m' : Machine μ) : Prop where
  sp : m'.cpu.sp = m.cpu.sp - 2
  memory : m'.memory = Memory.writeAll m.memory (m.pushed w).writes

/-- The word at the stack pointer is taken, and the pointer moves up past it. -/
structure TakesWord (w : UInt16) (m m' : Machine μ) : Prop where
  word : m.stackTop = w
  sp : m'.cpu.sp = m.cpu.sp + 2
  memory : m'.memory = m.memory

/-- An undisturbed stack has the same word on top. -/
theorem Undisturbed.stackTop (h : Undisturbed m m') : m'.stackTop = m.stackTop := by
  rw [Machine.stackTop, Machine.stackTop, h.sp, h.memory]

/-- It makes no difference whether other things happen before a word is stored. -/
theorem Undisturbed.storesWord (h : Undisturbed m m₁) (hstores : StoresWord w m₁ m') :
    StoresWord w m m' where
  sp := by rw [hstores.sp, h.sp]
  memory := by rw [hstores.memory, pushed, pushed, h.sp, h.memory]

end Machine

/-! ## Instructions that store and take words -/

/-- A word loses the lower half of its low byte. -/
theorem Word.ofBytes_and_upper (hi lo : UInt8) :
    ofBytes hi (lo &&& 0xF0) = ofBytes hi lo &&& 0xFFF0 := by
  have hbyte : ∀ i : Fin 16, (0xF0#16)[i] = decide (4 ≤ i.val ∧ i.val < 8) := by decide
  have hword : ∀ i : Fin 16, (0xFFF0#16)[i] = decide (4 ≤ i.val) := by decide
  -- The two masks differ in the bits of the high byte, where the low one has nothing to be masked.
  apply UInt16.toBitVec_inj.mp
  ext i hi
  have hbyte := hbyte ⟨i, hi⟩
  have hword := hword ⟨i, hi⟩
  simp only [Fin.getElem_fin] at hbyte hword
  simp [ofBytes, hbyte, hword]
  grind

/-- A flag register that takes a byte keeps its upper half. -/
theorem Flags.toByte_ofByte (b : UInt8) : (ofByte b).toByte = b &&& 0xF0 := by
  obtain ⟨⟨n⟩⟩ := b
  revert n
  decide +kernel

/-- Where a word that is taken from the stack goes. -/
inductive Receiver where
  | pair (target : StackRegister)
  | programCounter
  deriving DecidableEq, Repr

namespace Receiver

/-- What a receiver keeps of a word; the lower half of the flag register is not wired. -/
def keep : Receiver → UInt16 → UInt16
  | pair .af, w => w &&& 0xFFF0
  | _, w => w

/-- What a receiver holds. -/
def contents (cpu : Cpu) : Receiver → UInt16
  | pair target => cpu.stackRegister target
  | programCounter => cpu.pc

end Receiver

namespace Cpu

/-- A pair that takes a word holds what it keeps of it. -/
theorem stackRegister_setStackRegister (cpu : Cpu) (target : StackRegister) (w : UInt16) :
    (cpu.setStackRegister target w).stackRegister target = (Receiver.pair target).keep w := by
  cases target with
  | af =>
    show Word.ofBytes (Word.high w) (Flags.ofByte (Word.low w)).toByte = w &&& 0xFFF0
    rw [Flags.toByte_ofByte, Word.ofBytes_and_upper, Word.ofBytes_high_low]
  | bc => exact cpu.bc_setBC w
  | de => exact cpu.de_setDE w
  | hl => exact cpu.hl_setHL w

/-- A pair that takes its own word stays as it is, the flags included. -/
theorem setStackRegister_stackRegister (cpu : Cpu) (target : StackRegister) :
    cpu.setStackRegister target (cpu.stackRegister target) = cpu := by
  cases target with
  | af => simp [setStackRegister, stackRegister, setAF, af]
  | bc => simp [setStackRegister, stackRegister, setBC, bc]
  | de => simp [setStackRegister, stackRegister, setDE, de]
  | hl => simp [setStackRegister, stackRegister, setHL, hl]

end Cpu

namespace Machine

variable {μ σ : Type} [Memory μ] {m : Machine μ} {i : Instruction} {w : UInt16} {r : Receiver}

/-- The instruction stores the word, which is an address to return to if it is a call. -/
inductive Stores (m : Machine μ) : Instruction → UInt16 → Prop
  | push (source : StackRegister) : Stores m (.load (.push source)) (m.cpu.stackRegister source)
  | call {condition : Option Condition} (taken : m.cpu.takes condition = true) :
      Stores m (.jump (.call condition)) m.cpu.pc
  | restart (vector : UInt8) : Stores m (.jump (.restart vector)) m.cpu.pc

/-- The instruction takes a word from the stack for the receiver. -/
inductive Takes (m : Machine μ) : Instruction → Receiver → Prop
  | pop (target : StackRegister) : Takes m (.load (.pop target)) (.pair target)
  | ret {condition : Option Condition} (taken : m.cpu.takes condition = true) :
      Takes m (.jump (.ret condition)) .programCounter
  | retEnable : Takes m (.jump .retEnable) .programCounter

/-- An instruction that stores a word stores it below the stack pointer. -/
theorem Stores.storesWord (h : m.Stores i w) (operand : UInt16) :
    StoresWord w m (m.carried i operand) := by
  cases h with
  | push source => exact ⟨rfl, rfl⟩
  | call taken =>
    rw [carried_jump rfl, if_pos taken]
    exact ⟨rfl, rfl⟩
  | restart vector => exact ⟨rfl, rfl⟩

/-- An instruction that takes a word takes the one on top, and its receiver keeps what it can. -/
theorem Takes.takesWord (h : m.Takes i r) (operand : UInt16) :
    TakesWord m.stackTop m (m.carried i operand) ∧
      r.contents (m.carried i operand).cpu = r.keep m.stackTop := by
  cases h with
  | pop target =>
    rw [carried_pop]
    refine ⟨⟨rfl, ?_, rfl⟩, Cpu.stackRegister_setStackRegister ..⟩
    cases target <;> rfl
  | ret taken =>
    rw [carried_jump rfl, if_pos taken]
    exact ⟨⟨rfl, rfl, rfl⟩, rfl⟩
  | retEnable => exact ⟨⟨rfl, rfl, rfl⟩, rfl⟩

/-- An instruction that stores the word is carried out. -/
def Storing (w : UInt16) (m m' : Machine μ) : Prop :=
  ∃ i operand, m.Stores i w ∧ m' = m.carried i operand

/-- An instruction that takes a word for the receiver is carried out, and this is what the receiver
holds then. -/
def Taking (received : Receiver × UInt16) (m m' : Machine μ) : Prop :=
  ∃ i operand, m.Takes i received.1 ∧ m' = m.carried i operand ∧
    received.2 = received.1.contents m'.cpu

/-- A call retires in a step of the machine; the instruction after it is at the given address. -/
def Calling (listener : Listener σ) (next : UInt16) (m m' : Machine μ) : Prop :=
  ∃ op w s, m.retires = some (.jump op) ∧ (m.past (.jump op)).Stores (.jump op) w ∧
    next = m.cpu.pc + (Instruction.jump op).length.toUInt16 ∧ m' = (m.step listener s).2.1

/-- A return retires in a step of the machine, which goes on at the given address. -/
def Returning (listener : Listener σ) (target : UInt16) (m m' : Machine μ) : Prop :=
  ∃ op s, m.retires = some (.jump op) ∧ (m.past (.jump op)).Takes (.jump op) .programCounter ∧
    m' = (m.step listener s).2.1 ∧ target = m'.cpu.pc

/-- In a step the instruction alone moves the stack pointer and accesses the stack. -/
theorem undisturbed_past (m : Machine μ) (i : Instruction) : Undisturbed m (m.past i) := ⟨rfl, rfl⟩

/-- What comes after the instruction in its step leaves the stack and the program counter alone. -/
theorem undisturbed_step (h : m.retires = some i) (listener : Listener σ) (s : σ) :
    Undisturbed ((m.past i).carried i (m.operand i)) (m.step listener s).2.1 ∧
      (m.step listener s).2.1.cpu.pc = ((m.past i).carried i (m.operand i)).cpu.pc := by
  obtain ⟨cycles, hstep⟩ := machine_step_of_retires h listener s
  rw [hstep]
  exact ⟨⟨rfl, rfl⟩, rfl⟩

/-- A step that calls stores the address of the instruction after the call. -/
theorem Calling.storesWord {listener : Listener σ} {next : UInt16} {m' : Machine μ}
    (h : Calling listener next m m') : StoresWord next m m' := by
  obtain ⟨op, w, s, hretires, hstores, rfl, rfl⟩ := h
  -- A jump stores the address of the next instruction if it stores anything.
  obtain rfl : w = m.cpu.pc + (Instruction.jump op).length.toUInt16 := by
    cases hstores <;> rfl
  obtain ⟨hafter, -⟩ := undisturbed_step hretires listener s
  have hcarried := (m.undisturbed_past (.jump op)).storesWord
    (hstores.storesWord (m.operand (.jump op)))
  exact ⟨hafter.sp.trans hcarried.sp, hafter.memory.trans hcarried.memory⟩

/-- A step that returns takes the word that it goes on at. -/
theorem Returning.takesWord {listener : Listener σ} {target : UInt16} {m' : Machine μ}
    (h : Returning listener target m m') : TakesWord target m m' := by
  obtain ⟨op, s, hretires, htakes, rfl, rfl⟩ := h
  obtain ⟨hafter, hpc⟩ := undisturbed_step hretires listener s
  obtain ⟨hcarried, hcontents⟩ := htakes.takesWord (m.operand _)
  exact ⟨hcontents.symm.trans hpc.symm, hafter.sp.trans hcarried.sp,
    hafter.memory.trans hcarried.memory⟩

/-! ## Bare pushes and pops -/

/-- Bare pushes happen in turn, with nothing in between. -/
theorem inTurn_forM_push (ws : List UInt16) (m : Machine μ) (listener : Listener σ) (s : σ) :
    InTurn StoresWord ws m (m.perform (ws.forM Execution.push) listener s).2.1 := by
  induction ws generalizing m s with
  | nil => exact .nil (.refl m)
  | cons w ws ih =>
    show InTurn _ _ _
      (m.perform (Execution.push w >>= fun _ => ws.forM Execution.push) listener s).2.1
    rw [perform_bind]
    exact .cons (.refl m) ⟨rfl, rfl⟩ (ih ..)

/-- As many words are popped as a list has elements. -/
theorem inTurn_mapM_pop {α : Type} (as : List α) (m : Machine μ) (listener : Listener σ) (s : σ) :
    let result := m.perform (as.mapM fun _ => Execution.pop) listener s
    result.1.length = as.length ∧ InTurn TakesWord result.1 m result.2.1 := by
  induction as generalizing m s with
  | nil => exact ⟨rfl, .nil (.refl m)⟩
  | cons a as ih =>
    rw [List.mapM_cons, perform_bind, perform_bind]
    let popped := m.perform Execution.pop listener s
    have hpopped : TakesWord popped.1 m popped.2.1 := ⟨rfl, rfl, rfl⟩
    obtain ⟨hlength, hrest⟩ := ih popped.2.1 popped.2.2
    exact ⟨congrArg Nat.succ hlength, .cons (.refl m) hpopped hrest⟩

end Machine

namespace Console

open Machine

variable {σ : Type} {m m' m₁ mid last : Console} {w : UInt16} {words : Nat}

/-- There is RAM for a number of words below the stack pointer. -/
def HasRoom (m : Console) (words : Nat) : Prop :=
  ∀ addr ∈ stackBytes m.cpu.sp words, IsRamAddress addr

/-- The stack pointer is where it was, and no memory has changed but the bytes of a number of words
below it. -/
structure Restored (words : Nat) (m m' : Console) : Prop where
  sp : m'.cpu.sp = m.cpu.sp
  memory : m.memory.SameOutside (stackBytes m.cpu.sp words) m'.memory

/-- A console after a word has been stored where there was room for it and for `words` more. -/
structure Stored (w : UInt16) (words : Nat) (m m' : Console) : Prop where
  stackTop : m'.stackTop = w
  wellFormed : m'.memory.WellFormed
  room : m'.HasRoom words
  /-- The word is out of reach of the words below it. -/
  low : m'.cpu.sp ∉ stackBytes m'.cpu.sp words
  high : m'.cpu.sp + 1 ∉ stackBytes m'.cpu.sp words
  memory : m.memory.SameOutside (stackSlot m.cpu.sp) m'.memory

/-- A word that is stored where there is room can be read back, and there is room for the rest. -/
theorem Stored.of_storesWord (h : m.memory.WellFormed) (hroom : m.HasRoom (words + 1))
    (hstores : StoresWord w m m') : Stored w words m m' := by
  obtain ⟨⟨hhigh, hlow⟩, hrest⟩ := forall_stackBytes_succ.mp hroom
  have hout := not_mem_stackBytes hroom
  have hupper : m.cpu.sp - 2 + 1 = m.cpu.sp - 1 := by grind
  rw [← hupper] at hhigh
  have hmem : m.cpu.sp - 2 + 1 ∈ stackSlot m.cpu.sp := by simp [stackSlot, hupper]
  have hmemory : m'.memory = (m.memory.write (m.cpu.sp - 2) (Word.low w)).write
      (m.cpu.sp - 2 + 1) (Word.high w) := hstores.memory
  obtain ⟨hwf, hreadLow, hreadHigh⟩ := Bus.retains.write_word h hlow hhigh w
  constructor
  -- The two bytes are at different addresses of RAM, so the second write leaves the first one
  -- alone.
  case stackTop =>
    rw [Machine.stackTop, hstores.sp, hmemory]
    exact (congrArg₂ Word.ofBytes hreadHigh hreadLow).trans (Word.ofBytes_high_low w)
  case wellFormed => rw [hmemory]; exact hwf
  case room => rw [HasRoom, hstores.sp]; exact hrest
  case low => rw [hstores.sp]; exact hout.1
  case high => rw [hstores.sp]; exact hout.2
  case memory =>
    rw [hmemory]
    exact (Bus.SameOutside.write h (by simp [stackSlot]) hlow _).trans
      (.write (h.write _ _) hmem hhigh _)

/-- The word that was stored last is on top of the stack again when those after it have gone. -/
theorem Stored.stackTop_of_restored (h : Stored w words m m') (hrestored : m'.Restored words m₁) :
    m₁.stackTop = w := by
  rw [← h.stackTop, Machine.stackTop, Machine.stackTop, hrestored.sp]
  -- Both bytes of the word are out of reach of what has changed.
  exact congrArg₂ Word.ofBytes (hrestored.memory.read h.wellFormed h.high)
    (hrestored.memory.read h.wellFormed h.low)

/-- The words that moves of one kind store are those that moves of another kind take, the last one
first.  `R` says what else is known of a move that takes a word. -/
theorem forall₂_of_inTurn {α : Type} {push : UInt16 → Console → Console → Prop}
    {pop : α → Console → Console → Prop} {R : α → UInt16 → Prop}
    (hpush : ∀ {w m m'}, push w m m' → StoresWord w m m')
    (hpop : ∀ {a m m'}, pop a m m' → ∃ w, R a w ∧ TakesWord w m m')
    (h : m.memory.WellFormed) {ws : List UInt16} {as : List α} (hlength : as.length = ws.length)
    (hroom : m.HasRoom ws.length) (hpushes : InTurn push ws m mid)
    (hpops : InTurn pop as mid last) :
    List.Forall₂ R as ws.reverse ∧ m.Restored ws.length last := by
  -- The word that is pushed first is popped last, and in between the same is true of the others.
  induction ws generalizing m as last with
  | nil =>
    obtain rfl := List.length_eq_zero_iff.mp hlength
    obtain ⟨hpushed⟩ := hpushes
    obtain ⟨hpopped⟩ := hpops
    refine ⟨.nil, hpopped.sp.trans hpushed.sp, ?_⟩
    rw [hpopped.memory, hpushed.memory]
    exact .refl ..
  | cons w ws ih =>
    obtain rfl | ⟨as, a, rfl⟩ := List.eq_nil_or_concat as
    · cases hlength
    rw [List.concat_eq_append] at hlength hpops ⊢
    obtain ⟨m₁, hinner, houter⟩ := hpops.exists_of_append
    obtain ⟨m₂, m₃, hbefore, hlast, hafter⟩ := houter.exists_of_singleton
    obtain ⟨m₀, m', before, first, rest⟩ := hpushes.exists_of_cons
    have hstores : StoresWord w m m' := before.storesWord (hpush first)
    have hstored : Stored w ws.length m m' := .of_storesWord h hroom hstores
    obtain ⟨hwords, hrestored⟩ := ih hstored.wellFormed (by simpa using hlength) hstored.room rest
      hinner
    obtain ⟨w', hR, htakes⟩ := hpop hlast
    obtain rfl : w' = w := by
      rw [← htakes.word, hbefore.stackTop, hstored.stackTop_of_restored hrestored]
    obtain ⟨hsp, hkept⟩ := hrestored
    rw [hstores.sp] at hsp hkept
    constructor
    · rw [List.reverse_cons]
      exact List.rel_append hwords (.cons hR .nil)
    constructor
    case sp =>
      have hback : m.cpu.sp - 2 + 2 = m.cpu.sp := by grind
      rw [hafter.sp, htakes.sp, hbefore.sp, hsp, hback]
    case memory =>
      rw [hafter.memory, htakes.memory, hbefore.memory]
      exact (hstored.memory.mono (List.subset_append_left ..)).trans
        (hkept.mono (List.subset_append_right ..))

/-- If moves take exactly the words that they say, these are the words that were stored. -/
theorem eq_reverse_of_inTurn {push pop : UInt16 → Console → Console → Prop}
    (hpush : ∀ {w m m'}, push w m m' → StoresWord w m m')
    (hpop : ∀ {w m m'}, pop w m m' → TakesWord w m m')
    (h : m.memory.WellFormed) {ws vs : List UInt16} (hlength : vs.length = ws.length)
    (hroom : m.HasRoom ws.length) (hpushes : InTurn push ws m mid)
    (hpops : InTurn pop vs mid last) : vs = ws.reverse ∧ m.Restored ws.length last := by
  obtain ⟨hwords, hrestored⟩ := forall₂_of_inTurn (R := Eq) hpush
    (fun hmove => ⟨_, rfl, hpop hmove⟩) h hlength hroom hpushes hpops
  exact ⟨List.forall₂_eq_eq_eq ▸ hwords, hrestored⟩

/-- A pair that is pushed and popped again into any pair. -/
theorem cpu_push_pop (h : m.memory.WellFormed) (hroom : m.HasRoom 1) (source target : StackRegister)
    (operand operand' : UInt16) :
    ((m.carried (.load (.push source)) operand).carried (.load (.pop target)) operand').cpu =
      m.cpu.setStackRegister target (m.cpu.stackRegister source) := by
  have hstored : Stored _ 0 m _ := .of_storesWord h hroom ((Stores.push source).storesWord operand)
  have hsp : m.cpu.sp - 2 + 2 = m.cpu.sp := by grind
  have hcpu : (m.carried (.load (.push source)) operand).cpu =
      { m.cpu with sp := m.cpu.sp - 2 } := rfl
  rw [carried_pop]
  show ({ (m.carried (.load (.push source)) operand).cpu with
    sp := (m.carried (.load (.push source)) operand).cpu.sp + 2 } : Cpu).setStackRegister target
      (m.carried (.load (.push source)) operand).stackTop = _
  rw [hstored.stackTop, hcpu]
  dsimp only
  -- The stack pointer has moved down and up again.
  rw [hsp]

/-- The stack of a console gives back what is put on it, in reverse order, if its bytes lie in RAM.
This is true of bare pushes and pops, of all instructions that push and pop, and of the steps of a
program, where nested calls return to the instructions after them.  In each case the stack pointer
returns as well, and no memory changes but the bytes of the stack.  A pair that is pushed arrives
unchanged in the pair that is popped next; only AF takes no more than the upper 12 bits.

The bus of every console that can be reached is well-formed (`Bus.Reachable.wellFormed`). -/
theorem stack_discipline (h : m.memory.WellFormed) (listener : Listener σ) :
    (∀ (ws : List UInt16) (s : σ), m.HasRoom ws.length →
      let popped := m.perform (do ws.forM Execution.push; ws.mapM fun _ => Execution.pop) listener s
      popped.1 = ws.reverse ∧ m.Restored ws.length popped.2.1) ∧
    (∀ (ws : List UInt16) (received : List (Receiver × UInt16)) (mid last : Console),
      m.HasRoom ws.length → received.length = ws.length →
      InTurn Storing ws m mid → InTurn Taking received mid last →
      List.Forall₂ (fun r w => r.2 = r.1.keep w) received ws.reverse ∧
        m.Restored ws.length last) ∧
    (∀ (sites targets : List UInt16) (mid last : Console),
      m.HasRoom sites.length → targets.length = sites.length →
      InTurn (Calling listener) sites m mid → InTurn (Returning listener) targets mid last →
      targets = sites.reverse ∧ m.Restored sites.length last) ∧
    (∀ (source target : StackRegister) (operand operand' : UInt16), m.HasRoom 1 →
      let last := (m.carried (.load (.push source)) operand).carried (.load (.pop target)) operand'
      last.cpu = m.cpu.setStackRegister target (m.cpu.stackRegister source) ∧
      last.cpu.stackRegister target = (Receiver.pair target).keep (m.cpu.stackRegister source) ∧
      (target = source → last.cpu = m.cpu)) := by
  refine ⟨fun ws s hroom => ?_, fun ws received mid last hroom hlength hpushes hpops => ?_,
    fun sites targets mid last hroom hlength hcalls hreturns => ?_,
    fun source target operand operand' hroom => ?_⟩
  -- Bare pushes and pops take exactly the words that they say, and so do calls and returns.
  · have hpushes := inTurn_forM_push ws m listener s
    dsimp only
    rw [perform_bind]
    obtain ⟨hlength, hpops⟩ := inTurn_mapM_pop ws
      (m.perform (ws.forM Execution.push) listener s).2.1 listener
      (m.perform (ws.forM Execution.push) listener s).2.2
    exact eq_reverse_of_inTurn id id h hlength hroom hpushes hpops
  · refine forall₂_of_inTurn ?_ ?_ h hlength hroom hpushes hpops
    · rintro w m m' ⟨i, operand, hstores, rfl⟩
      exact hstores.storesWord operand
    · rintro r m m' ⟨i, operand, htakes, rfl, hcontents⟩
      obtain ⟨hword, hkeep⟩ := htakes.takesWord operand
      exact ⟨m.stackTop, hcontents.trans hkeep, hword⟩
  · exact eq_reverse_of_inTurn Calling.storesWord Returning.takesWord h hlength hroom hcalls
      hreturns
  · intro last
    have hlast : last.cpu = m.cpu.setStackRegister target (m.cpu.stackRegister source) :=
      cpu_push_pop h hroom source target operand operand'
    refine ⟨hlast, ?_, ?_⟩
    · rw [hlast, Cpu.stackRegister_setStackRegister]
    · rintro rfl
      rw [hlast, Cpu.setStackRegister_stackRegister]

/-! ## A call and its return -/

/-- A call, and the return that it leads to two bytes further on. -/
def callAndReturn : List UInt8 := [0xCD, 0x04, 0x01, 0x00, 0xC9]

/-- The console in front of the call, with a word in BC to be pushed. -/
def calling : Console :=
  { playing callAndReturn with cpu := { Cpu.initial with b := 0x12, c := 0x34 } }

/-- The registers have no part in the program. -/
theorem plays_calling : calling.memory.Plays callAndReturn := plays_playing _

/-- The bus comes from a cartridge that can be loaded. -/
theorem wellFormed_calling : calling.memory.WellFormed :=
  .assemble (Cartridge.wellFormed_of_load (Cartridge.load_program callAndReturn)) (by decide) _

/-- The stack starts in the high RAM. -/
theorem hasRoom_calling : calling.HasRoom 1 ∧ calling.HasRoom 2 := by
  simp [HasRoom, stackBytes, stackSlot, IsRamAddress, calling, Cpu.initial]

/-- The call leads to 0x104. -/
theorem operand_calling : calling.operand (.jump (.call none)) = 0x104 := by
  show Word.ofBytes (calling.memory.read 0x102) (calling.memory.read 0x101) = 0x104
  rw [plays_calling.read (by decide), plays_calling.read (by decide)]
  decide

/-- The call leads to the return. -/
theorem retires_called : calling.retires = some (.jump (.call none)) ∧
    Machine.retires (calling.step Listener.deaf ()).2.1 = some (.jump (.ret none)) := by
  have hcall : calling.retires = some (.jump (.call none)) :=
    retires_of_plays plays_calling rfl (by decide) (by decide) (by decide)
  refine ⟨hcall, ?_⟩
  obtain ⟨cycles, hstep⟩ := machine_step_of_retires hcall Listener.deaf ()
  have hjump : Execution.jump 0x104 (.call none) =
    Execution.whenHolds none (Execution.call 0x104) := rfl
  have htaken : (calling.past (.jump (.call none))).cpu.takes none = true := rfl
  have hplays : Bus.Plays callAndReturn
      ((calling.past (.jump (.call none))).carried (.jump (.call none)) 0x104).memory := by
    rw [memory_carried]
    exact Bus.Plays.writeAll plays_calling _
  -- The goals below are closed by computation, which must not look into the memory.
  rw [carried_jump hjump, if_pos htaken] at hplays
  rw [hstep, operand_calling, carried_jump hjump, if_pos htaken]
  apply retires_of_plays
  · exact hplays
  · rfl
  · show (0x104 : UInt16) < 0x8000
    decide
  · show Instruction.decode (Cartridge.codeByte callAndReturn 0x104) = _
    decide
  · decide

/-- The program goes on after its call, and a pair that is pushed before a call comes back in AF. -/
theorem stack_discipline_calling :
    calling.memory.WellFormed ∧
    ((calling.step Listener.deaf ()).2.1.step Listener.deaf ()).2.1.cpu.pc = 0x103 ∧
    (let pushed := calling.carried (.load (.push .bc)) 0
      let returned := (pushed.carried (.jump (.restart 0x20)) 0).carried (.jump (.ret none)) 0
      returned.cpu.pc = 0x100 ∧ (returned.carried (.load (.pop .af)) 0).cpu.af = 0x1230) := by
  obtain ⟨-, hinstructions, hsteps, -⟩ :=
    stack_discipline (m := calling) wellFormed_calling Listener.deaf
  obtain ⟨hroom, hroom'⟩ := hasRoom_calling
  obtain ⟨hcall, hreturn⟩ := retires_called
  have hbc : calling.cpu.bc = 0x1234 := by decide
  have hpc : calling.cpu.pc = 0x100 := rfl
  refine ⟨wellFormed_calling, ?_⟩
  -- Nothing else about the console is needed, and its memory is better not looked into.
  generalize calling = m at *
  constructor
  · have hcalling : Calling Listener.deaf 0x103 m (m.step Listener.deaf ()).2.1 :=
      ⟨.call none, _, (), hcall, .call rfl, by rw [hpc]; decide, rfl⟩
    generalize (m.step Listener.deaf ()).2.1 = called at *
    have hreturning : Returning Listener.deaf (called.step Listener.deaf ()).2.1.cpu.pc called
        (called.step Listener.deaf ()).2.1 := ⟨.ret none, (), hreturn, .ret rfl, rfl, rfl⟩
    generalize (called.step Listener.deaf ()).2.1 = returned at *
    obtain ⟨htargets, -⟩ := hsteps [0x103] [returned.cpu.pc] _ _ hroom List.length_singleton
      (.cons (.refl _) hcalling (.nil (.refl _))) (.cons (.refl _) hreturning (.nil (.refl _)))
    exact List.head_eq_of_cons_eq htargets
  · intro pushed returned
    have hpush : Storing m.cpu.bc m pushed := ⟨.load (.push .bc), 0, .push .bc, rfl⟩
    have hcall : Storing m.cpu.pc pushed (pushed.carried (.jump (.restart 0x20)) 0) :=
      ⟨.jump (.restart 0x20), 0, .restart 0x20, rfl⟩
    have hreturn : Taking (.programCounter, returned.cpu.pc)
        (pushed.carried (.jump (.restart 0x20)) 0) returned :=
      ⟨.jump (.ret none), 0, .ret rfl, rfl, rfl⟩
    have hpop : Taking (.pair .af, (returned.carried (.load (.pop .af)) 0).cpu.af) returned
        (returned.carried (.load (.pop .af)) 0) := ⟨.load (.pop .af), 0, .pop .af, rfl, rfl⟩
    obtain ⟨hwords, -⟩ := hinstructions [m.cpu.bc, m.cpu.pc] [_, _] _ _ hroom' (by simp)
      (.cons (.refl _) hpush (.cons (.refl _) hcall (.nil (.refl _))))
      (.cons (.refl _) hreturn (.cons (.refl _) hpop (.nil (.refl _))))
    simp only [List.reverse_cons, List.reverse_nil, List.nil_append, List.singleton_append,
      List.forall₂_cons] at hwords
    obtain ⟨hreturned, hpopped, -⟩ := hwords
    exact ⟨hreturned.trans hpc, by rw [hpopped, hbc]; decide⟩

end Console

end GameBoy
