import GameBoy.Proofs.Bus.Interference
import GameBoy.Proofs.Machine.Outcome
import GameBoy.Proofs.Machine.Simulation

/-!
# The bus as flat memory

A program that keeps to the ROM and to the RAM of the console cannot tell the bus from 64 KiB of plain
bytes, although the bus has banks and an interrupt controller of its own and flat memory has neither.
`Bus.Agrees` relates the two: they read the same at those addresses, and the wired bits of the bytes
that flat memory has in place of the interrupt registers are those registers.

`Bus.simulation` says that the two answer the accesses of such a program alike, so whole runs are the
same on both (`Console.same_on_flatMemory`).
-/

namespace GameBoy

/-- The addresses of the ROM and of the RAM of the console. -/
def IsPlainAddress (addr : UInt16) : Prop := addr < 0x8000 ∨ IsRamAddress addr

/-- The mask of the requests is a register, not RAM. -/
theorem not_isPlainAddress_enable : ¬IsPlainAddress enableAddress := by
  simp [IsPlainAddress, IsRamAddress, enableAddress]

/-- The requests are a register, not RAM. -/
theorem not_isPlainAddress_pending : ¬IsPlainAddress pendingAddress := by
  simp [IsPlainAddress, IsRamAddress, pendingAddress]

/-- Bytes are read from the ROM and the RAM of the console, and written to that RAM only.  What is
said to the interrupt controller does not count. -/
def Access.IsPlain : Access → Prop
  | read addr => IsPlainAddress addr
  | write addr _ => IsRamAddress addr
  | poll | acknowledge _ => True

namespace FlatMemory

/-- The active requests of flat memory are those bits that are wired in both of its bytes. -/
theorem active_eq (flat : FlatMemory) :
    Memory.active flat =
      (Memory.read flat enableAddress &&& 0x1F) &&& (Memory.read flat pendingAddress &&& 0x1F) := by
  show Memory.read flat enableAddress &&& Memory.read flat pendingAddress &&& 0x1F = _
  -- The mask stands once on the left and twice on the right; the bytes themselves do not matter.
  generalize Memory.read flat enableAddress = enable
  generalize Memory.read flat pendingAddress = pending
  rw [UInt8.and_assoc, UInt8.and_assoc, UInt8.and_comm 0x1F, UInt8.and_assoc, UInt8.and_self]

/-- To take up a request is to write a byte. -/
theorem read_acknowledge (flat : FlatMemory) (source : Interrupt) (addr : UInt16) :
    Memory.read (Memory.acknowledge flat source) addr =
      if addr = pendingAddress then Memory.read flat pendingAddress &&& ~~~source.mask
      else Memory.read flat addr :=
  read_write flat pendingAddress addr _

end FlatMemory

namespace Bus

/-- Flat memory reads as the bus does in the ROM and the RAM of the console, and the five wired bits
of the bytes at the addresses of the interrupt registers are those registers. -/
structure Agrees (bus : Bus VideoRam) (flat : FlatMemory) : Prop where
  read : ∀ addr, IsPlainAddress addr → Memory.read flat addr = bus.read addr
  enable : Memory.read flat enableAddress &&& 0x1F = bus.interrupts.enable.bits
  pending : Memory.read flat pendingAddress &&& 0x1F = bus.interrupts.pending.bits

variable {bus : Bus VideoRam} {flat : FlatMemory} {a : UInt16}

/-- A write to the RAM of the console does not show in the cartridge. -/
private theorem affects_cartridge_of_isRam {r : Region} :
    r.isRam = true → r.affects .cartridge = false := by
  cases r <;> decide

/-- A plain address lies in the cartridge or in the RAM of the console. -/
private theorem region_of_isPlainAddress (model : Model) (h : IsPlainAddress a) :
    Region.of model a = .cartridge ∨ (Region.of model a).isRam = true := by
  -- A plain address is never in the cartridge RAM, but its region does not have to say so.
  rcases h with hrom | hram
  · exact .inl (Region.of_eq_iff.mpr (.inl hrom))
  · exact .inr (Region.isRam_of_iff.mpr hram)

/-- Nothing is reported of a read at a plain address. -/
private theorem readEvents_of_isPlainAddress (h : IsPlainAddress a) : bus.readEvents a = [] := by
  rcases region_of_isPlainAddress bus.model h with hregion | hregion
  · rw [readEvents, hregion]
  · cases hr : Region.of bus.model a <;> simp only [readEvents, hr] <;> rw [hr] at hregion <;>
      cases hregion

/-- Nothing is reported of a write to the RAM of the console. -/
private theorem writeEvents_of_isRam (h : (Region.of bus.model a).isRam = true) (v : UInt8) :
    bus.writeEvents a v = [] := by
  cases hr : Region.of bus.model a <;> simp only [writeEvents, hr] <;> rw [hr] at h <;> cases h

/-- After a write to the RAM plain addresses read as flat memory says. -/
private theorem read_write_of_isPlainAddress (hbus : bus.WellFormed) (ha : IsRamAddress a)
    {b : UInt16} (hb : IsPlainAddress b) (v : UInt8) :
    (bus.write a v).read b = if b = a then v else bus.read b := by
  have hram : (Region.of bus.model a).isRam = true := Region.isRam_of_iff.mpr ha
  rcases region_of_isPlainAddress bus.model hb with hregion | hregion
  · -- The cartridge is left alone, and the address of the write is none of its.
    have hne : b ≠ a := by
      rintro rfl
      rw [hregion] at hram
      cases hram
    have hsame : (Region.of bus.model a).affects (Region.of bus.model b) = false := by
      rw [hregion]
      exact affects_cartridge_of_isRam hram
    rw [if_neg hne, read_write_of_not_affects bus v hsame]
  -- Flat memory has no echo of a byte, and neither has the RAM: different addresses name different
  -- cells.
  · exact read_write_of_isRam hbus hram hregion v

/-- Only the register itself shows that a request has been taken up. -/
theorem read_acknowledge (source : Interrupt) (h : a ≠ pendingAddress) :
    Bus.read (Memory.acknowledge bus source) a = bus.read a := by
  have hmodel : (Memory.acknowledge bus source).model = bus.model := rfl
  rw [read, read, hmodel]
  -- Only the register of the requests depends on what is acknowledged.
  cases hr : Region.of bus.model a
  case interruptPending => exact absurd (Region.of_eq_iff.mp hr) h
  all_goals rfl

namespace Agrees

/-- The same requests are active on both. -/
theorem active (h : bus.Agrees flat) : Memory.active flat = Memory.active bus := by
  rw [FlatMemory.active_eq, h.enable, h.pending]
  rfl

/-- A write to the RAM of the console keeps the two in agreement. -/
theorem write (h : bus.Agrees flat) (hbus : bus.WellFormed) (ha : IsRamAddress a) (v : UInt8) :
    (bus.write a v).Agrees (Memory.write flat a v) := by
  have hram : (Region.of bus.model a).isRam = true := Region.isRam_of_iff.mpr ha
  -- The two registers are not in the RAM, so the bytes in their place are not overwritten.
  have henable : enableAddress ≠ a := fun heq => not_isPlainAddress_enable (heq ▸ .inr ha)
  have hpending : pendingAddress ≠ a := fun heq => not_isPlainAddress_pending (heq ▸ .inr ha)
  constructor
  case read =>
    intro b hb
    rw [FlatMemory.read_write, read_write_of_isPlainAddress hbus ha hb, h.read b hb]
  case enable =>
    rw [FlatMemory.read_write, if_neg henable, interrupts_write_of_isRam hram, h.enable]
  case pending =>
    rw [FlatMemory.read_write, if_neg hpending, interrupts_write_of_isRam hram, h.pending]

/-- Clearing a bit of the byte clears the bit of the register. -/
theorem acknowledge (h : bus.Agrees flat) (source : Interrupt) :
    Agrees (Memory.acknowledge bus source) (Memory.acknowledge flat source) where
  read addr haddr := by
    have hne : addr ≠ pendingAddress := fun heq => not_isPlainAddress_pending (heq ▸ haddr)
    rw [FlatMemory.read_acknowledge, if_neg hne, read_acknowledge source hne, h.read addr haddr]
  enable := by
    rw [FlatMemory.read_acknowledge, if_neg (by decide)]
    exact h.enable
  pending := by
    -- Masking commutes with clearing a bit, so the agreement before is enough.
    rw [FlatMemory.read_acknowledge, if_pos rfl, UInt8.and_assoc, UInt8.and_comm _ 0x1F,
      ← UInt8.and_assoc, h.pending]
    rfl

end Agrees

/-- The bus and flat memory that agrees with it answer alike. -/
theorem simulation : Memory.Simulation Access.IsPlain
    fun (bus : Bus VideoRam) (flat : FlatMemory) => bus.WellFormed ∧ bus.Agrees flat where
  read h haddr := h.2.read _ haddr
  readEvents _ haddr := (readEvents_of_isPlainAddress haddr).symm
  write h haddr := ⟨h.1.write _ _, h.2.write h.1 haddr _⟩
  writeEvents _ haddr := (writeEvents_of_isRam (Region.isRam_of_iff.mpr haddr) _).symm
  active h := h.2.active
  acknowledge h source := ⟨h.1.acknowledge source, h.2.acknowledge source⟩

/-- Flat memory with a copy of all that the processor sees. -/
def flatten (bus : Bus VideoRam) : FlatMemory :=
  .ofCells (.ofFn 0x10000 fun i => bus.read (UInt16.ofNat i))

/-- The copy reads as the bus does, at every address. -/
private theorem read_flatten (bus : Bus VideoRam) (addr : UInt16) :
    Memory.read bus.flatten addr = bus.read addr := by
  show (Block.ofFn 0x10000 fun i => bus.read (UInt16.ofNat i)).get addr.toNat = _
  rw [Block.get_ofFn _ addr.toNat_lt, UInt16.ofNat_toNat]

/-- The upper bits of an interrupt register, whatever they read as, are not wired. -/
private theorem and_wired {bits : UInt8} (h : bits ≤ 0x1F) :
    bits &&& 0x1F = bits ∧ (0xE0 ||| bits) &&& 0x1F = bits := by
  -- There are only 32 patterns of wired bits.
  have hall : ∀ n : Fin 32, UInt8.ofNat n &&& 0x1F = UInt8.ofNat n ∧
      (0xE0 ||| UInt8.ofNat n) &&& 0x1F = UInt8.ofNat n := by decide
  have hbits := hall ⟨bits.toNat, Nat.lt_succ_of_le h⟩
  rwa [UInt8.ofNat_toNat] at hbits

/-- Every bus that a console can have agrees with some flat memory. -/
theorem WellFormed.agrees_flatten (h : bus.WellFormed) : bus.Agrees bus.flatten where
  read addr _ := read_flatten bus addr
  enable := by
    have hregion : Region.of bus.model enableAddress = .interruptEnable := Region.of_eq_iff.mpr rfl
    rw [read_flatten, read, hregion]
    exact (and_wired h.interrupts.enable_le).1
  pending := by
    have hregion : Region.of bus.model pendingAddress = .interruptPending := Region.of_eq_iff.mpr rfl
    rw [read_flatten, read, hregion]
    exact (and_wired h.interrupts.pending_le).2

end Bus

namespace Console

variable {σ : Type} {bus : Bus VideoRam} {flat : FlatMemory}

/-- A push stores two bytes below the stack pointer. -/
private theorem accessesOf_push (source : StackRegister) (operand : UInt16) (m : Console) :
    Machine.accessesOf (Execution.carryOut (.load (.push source)) operand) m =
      [.write (m.cpu.sp - 2) (Word.low (m.cpu.stackRegister source)),
        .write (m.cpu.sp - 2 + 1) (Word.high (m.cpu.stackRegister source))] := by
  cases source <;> rfl

/-- As long as the steps of a console keep to plain addresses, flat memory that agrees with its bus
does as well: every step has the same result and leaves the same processor, a listener hears the
same, and the two memories still agree. -/
theorem same_on_flatMemory (hbus : bus.Reachable) (h : bus.Agrees flat) (cpu : Cpu)
    (listener : Listener σ) (s : σ) (n : Nat)
    (hplain : ∀ k < n, ∀ access ∈
      (Machine.stepMany listener k ((⟨cpu, bus⟩ : Console), s)).1.accesses, access.IsPlain) :
    let onBus k := Machine.stepMany listener k ((⟨cpu, bus⟩ : Console), s)
    let onFlat k := Machine.stepMany listener k ((⟨cpu, flat⟩ : Machine FlatMemory), s)
    (∀ k < n, ((onFlat k).1.step listener (onFlat k).2).1 =
      ((onBus k).1.step listener (onBus k).2).1) ∧
    ∀ k ≤ n, (onFlat k).1.cpu = (onBus k).1.cpu ∧ (onFlat k).2 = (onBus k).2 ∧
      (onBus k).1.memory.Agrees (onFlat k).1.memory := by
  intro onBus onFlat
  -- The hypothesis speaks of the steps before the last, as the simulation wants it.
  have hmany (k : Nat) (hk : k ≤ n) : (onBus k).1.Related _ (onFlat k).1 ∧ _ :=
    Bus.simulation.stepMany k ⟨rfl, hbus.wellFormed, h⟩ rfl fun j hj =>
      hplain j (Nat.lt_of_lt_of_le hj hk)
  constructor
  · intro k hk
    obtain ⟨hrelated, hheard⟩ := hmany k (Nat.le_of_lt hk)
    rw [hheard]
    exact (Bus.simulation.step hrelated (hplain k hk) _).result
  · intro k hk
    obtain ⟨hrelated, hheard⟩ := hmany k hk
    exact ⟨hrelated.cpu, hheard, hrelated.memory.2⟩

/-- A program in the working RAM that pushes a word on a stack in the high RAM. -/
theorem same_on_flatMemory_push :
    let bus := (Bus.assemble .sample VideoRam.empty .cgb).write 0xC000 0xC5
    let cpu := { Cpu.initial with pc := 0xC000 }
    let onBus k := Machine.stepMany Listener.deaf k ((⟨cpu, bus⟩ : Console), ())
    let onFlat k := Machine.stepMany Listener.deaf k ((⟨cpu, bus.flatten⟩ : Machine FlatMemory), ())
    (onFlat 1).1.cpu = (onBus 1).1.cpu ∧ (onBus 1).1.memory.Agrees (onFlat 1).1.memory := by
  intro bus cpu
  have hbus : bus.Reachable := (Bus.Reachable.sample .cgb).write 0xC000 0xC5
  -- The byte that was just written is the op code of the push.
  have hcode : bus.read 0xC000 = 0xC5 := by
    have hram : (Region.of Model.cgb 0xC000).isRam = true := by decide
    exact (Bus.read_write_of_isRam (Bus.Reachable.sample .cgb).wellFormed hram hram 0xC5).trans
      (if_pos rfl)
  have hduty : Machine.duty (⟨cpu, bus⟩ : Console) = .execute := rfl
  have hfetched : Machine.fetched (⟨cpu, bus⟩ : Console) = some ⟨0xC5, .load (.push .bc)⟩ := by
    show Descriptor.select (bus.read 0xC000) _ = _
    rw [hcode]
    exact Descriptor.select_of_decode (by decide) (by decide) _
  -- The step polls, reads the op code and stores two bytes; each access is plain.
  have hplain : ∀ access ∈ Machine.accesses (⟨cpu, bus⟩ : Console), access.IsPlain := by
    apply Machine.forall_accesses_of_fetched_eq_some Access.IsPlain hduty hfetched
    case poll => trivial
    case code => simp [Access.IsPlain, IsPlainAddress, IsRamAddress, cpu]
    case effect =>
      have hsp : (Machine.awake (⟨cpu, bus⟩ : Console)).cpu.sp = 0xFFFE := rfl
      rw [accessesOf_push, hsp]
      simp [Access.IsPlain, IsRamAddress]
  have hafter := same_on_flatMemory hbus hbus.wellFormed.agrees_flatten cpu Listener.deaf () 1
    fun k hk => by
      obtain rfl : k = 0 := Nat.lt_one_iff.mp hk
      exact hplain
  exact ⟨(hafter.2 1 (Nat.le_refl 1)).1, (hafter.2 1 (Nat.le_refl 1)).2.2⟩

end Console

end GameBoy
