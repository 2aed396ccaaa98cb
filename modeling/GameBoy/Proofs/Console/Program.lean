import GameBoy.Proofs.Console.Ledger
import GameBoy.Proofs.Machine.Fault

/-!
# Consoles that play a short program

`Console.playing code` is the console that has loaded a cartridge with nothing on it but some bytes of
code at 0x0100.  Nothing that happens to its bus changes the cartridge (`Bus.Plays`), so every step
at an address of the ROM executes what the code says there (`Console.executes_of_plays`).
-/

namespace GameBoy

namespace Cartridge

/-- The byte at an offset of an image that is zero but for the code at 0x0100.  Code that would reach
into the header is left out. -/
def codeByte (code : List UInt8) (offset : Nat) : UInt8 :=
  if 0x100 ≤ offset ∧ offset < 0x134 then code.getD (offset - 0x100) 0 else 0

/-- An image of 32 KiB with the code on it. -/
def programImage (code : List UInt8) : ByteArray := (Block.ofFn 0x8000 (codeByte code)).bytes

/-- The cartridge has no RAM. -/
def program (code : List UInt8) : Cartridge where
  header := .read (programImage code)
  rom := programImage code
  controller := .direct (Storage.zeros 0)

variable (code : List UInt8)

/-- The image is as long as the smallest size that a header can declare. -/
theorem size_programImage : (programImage code).size = 0x8000 := Block.size_bytes _

/-- The image reads as the code says, also past its end. -/
theorem getD_programImage (offset : Nat) :
    Storage.getD (programImage code) offset 0 = codeByte code offset := by
  by_cases h : offset < 0x8000
  · exact Block.get_ofFn (codeByte code) h
  · rw [Storage.getD, dif_neg (by rw [size_programImage]; exact h), codeByte, if_neg (by omega)]

/-- The image can be loaded, since all codes in its header are zero. -/
theorem load_program : load (programImage code) = .ok (program code) := by
  -- The code ends before the header begins.
  have hbyte (offset : Nat) (h : 0x134 ≤ offset) :
      Storage.getD (programImage code) offset 0 = 0 := by
    rw [getD_programImage, codeByte, if_neg (by omega)]
  have hromCode : (Header.read (programImage code)).romSizeCode = 0 := by
    simp only [Header.read, hbyte, Nat.reduceLeDiff]
  have hramCode : (Header.read (programImage code)).ramSizeCode = 0 := by
    simp only [Header.read, hbyte, Nat.reduceLeDiff]
  have htype : (Header.read (programImage code)).cartridgeType = 0 := by
    simp only [Header.read, hbyte, Nat.reduceLeDiff]
  have hrom : (Header.read (programImage code)).romSize = .ok 0x8000 := by
    rw [Header.romSize, hromCode]
    rfl
  have hram : (Header.read (programImage code)).ramSize = .ok 0 := by
    rw [Header.ramSize, hramCode]
    rfl
  have hheader : Header.ofImage (programImage code) = .ok (.read (programImage code)) :=
    Header.ofImage_eq_ok (by rw [size_programImage]; decide) hrom hram
  have hcontroller : Controller.ofType (Header.read (programImage code)).cartridgeType 0 =
      .ok (.direct (Storage.zeros 0)) := by
    rw [htype]
    rfl
  exact load_eq_ok hheader hrom (Nat.le_of_eq (size_programImage code).symm) hram hcontroller

/-- The cartridge asks for the model without colours. -/
theorem model_program : (program code).model = .dmg := by
  have hflag : (program code).header.colorFlag = 0 := by
    simp only [program, Header.read, getD_programImage, codeByte, Nat.reduceLT, and_false, if_false]
  rw [model, Header.supportsColor, hflag]
  rfl

/-- There is nothing that a write could change. -/
theorem write_program (addr : UInt16) (value : UInt8) :
    (program code).write addr value = program code := by
  -- Without RAM there is no byte to replace.
  have hset : Storage.set (Storage.zeros 0) (addr.toNat - 0xA000) value = Storage.zeros 0 := by
    rw [Storage.set, dif_neg (by rw [Storage.size_zeros]; exact Nat.not_lt_zero _)]
  show ({ program code with controller := _ } : Cartridge) = _
  simp only [program, Controller.write, hset, ite_self]

/-- The ROM reads as the code says. -/
theorem read_program {addr : UInt16} (h : addr < 0x8000) :
    (program code).read addr = codeByte code addr.toNat := by
  show (if addr < 0x8000 then _ else _) = _
  rw [if_pos h]
  exact getD_programImage code addr.toNat

end Cartridge

namespace Bus

/-- A bus of the first model with a short program on its cartridge. -/
structure Plays (code : List UInt8) (bus : Bus VideoRam) : Prop where
  cartridge : bus.cartridge = .program code
  model : bus.model = .dmg

namespace Plays

variable {code : List UInt8} {bus : Bus VideoRam}

/-- The processor reads the code in the ROM. -/
theorem read (h : bus.Plays code) {addr : UInt16} (haddr : addr < 0x8000) :
    bus.read addr = Cartridge.codeByte code addr.toNat := by
  have hregion : Region.of bus.model addr = .cartridge := by
    rw [Region.of_eq_iff]
    exact .inl haddr
  rw [Bus.read, hregion, h.cartridge]
  exact Cartridge.read_program code haddr

/-- Whatever is written, the program stays what it is. -/
theorem write (h : bus.Plays code) (addr : UInt16) (value : UInt8) :
    (bus.write addr value).Plays code := by
  cases hregion : Region.of bus.model addr <;> simp only [Bus.write, hregion, copySprites]
  case cartridge => exact ⟨by rw [h.cartridge, Cartridge.write_program], h.model⟩
  all_goals exact ⟨h.cartridge, h.model⟩

/-- A request leaves the program alone. -/
theorem request (h : bus.Plays code) (source : Interrupt) : (bus.request source).Plays code :=
  ⟨h.cartridge, h.model⟩

/-- Taking up a request leaves the program alone. -/
theorem acknowledge (h : bus.Plays code) (source : Interrupt) :
    (Memory.acknowledge bus source).Plays code := ⟨h.cartridge, h.model⟩

end Plays

end Bus

namespace Console

variable {σ : Type} {code : List UInt8} {m : Console}

/-- The console that has loaded a short program and is about to start it. -/
def playing (code : List UInt8) : Console := .boot (.ofCartridge (.program code))

/-- The console is what loading the image gives. -/
theorem load_playing (code : List UInt8) :
    load (Cartridge.programImage code) = .ok (playing code) := by
  rw [load, Cartridge.load_program]
  rfl

/-- At the start the console plays its program. -/
theorem plays_playing (code : List UInt8) : (playing code).memory.Plays code where
  cartridge := rfl
  model := by
    simp only [playing, Machine.boot, Bus.ofCartridge, Bus.assemble, Cartridge.model_program]

/-- At the start no source is active. -/
theorem active_playing (code : List UInt8) : Memory.active (playing code).memory = 0 := by
  show (playing code).memory.interrupts.active = 0
  rw [playing, Machine.boot, Bus.ofCartridge, Bus.assemble]
  show Interrupts.none.active = 0
  decide

/-- A console that executes an instruction and nothing else in its next step. -/
structure Executes (m : Console) (i : Instruction) (m' : Console) : Prop where
  retires : m.retires = some i
  act : act Listener.deaf (m, ()) .step = (m', ())

/-- A step that executes an instruction succeeds. -/
theorem Executes.step {i : Instruction} {m' : Console} (h : m.Executes i m') :
    ∃ cycles, m.step Listener.deaf () = (.ok cycles, m', ()) := by
  have hact : Machine.after (m.step Listener.deaf ()) = (m', ()) := h.act
  rcases hstep : m.step Listener.deaf () with ⟨result, after, s'⟩
  rw [hstep] at hact
  cases hact
  cases result with
  | ok cycles => exact ⟨cycles, rfl⟩
  | error fault =>
    -- A step that fails has not met an instruction, so none retires.
    have hretires := h.retires
    obtain ⟨hduty, hfetched⟩ := Machine.execute_of_error (congrArg Prod.fst hstep)
    rw [Machine.retires, hduty, hfetched] at hretires
    cases hretires

/-- A run that begins with such a step goes on from the machine after it. -/
theorem Executes.run {i : Instruction} {m' : Console} (h : m.Executes i m') (rest : List Turn) :
    run Listener.deaf (m, ()) ((.step :: rest).map Turn.action) =
      Console.run Listener.deaf (m', ()) (rest.map Turn.action) := by
  rw [List.map_cons, Console.run, List.foldl_cons]
  exact congrArg (fun c => Console.run Listener.deaf c (rest.map Turn.action)) h.act

/-- The instruction that is fetched is the one that the code has there. -/
theorem fetched_of_plays {i : Instruction} (h : m.memory.Plays code) (hpc : m.cpu.pc < 0x8000)
    (hdecode : Instruction.decode (Cartridge.codeByte code m.cpu.pc.toNat) = some i)
    (hextend : i ≠ .extend) :
    m.fetched = some ⟨Cartridge.codeByte code m.cpu.pc.toNat, i⟩ := by
  show Descriptor.select (m.memory.read m.cpu.pc) (m.memory.read (m.cpu.pc + 1)) = _
  rw [h.read hpc]
  exact Descriptor.select_of_decode hdecode hextend _

/-- An instruction that is to be executed retires if it is one of the code. -/
theorem retires_of_plays {i : Instruction} (h : m.memory.Plays code) (hduty : m.duty = .execute)
    (hpc : m.cpu.pc < 0x8000)
    (hdecode : Instruction.decode (Cartridge.codeByte code m.cpu.pc.toNat) = some i)
    (hextend : i ≠ .extend) : m.retires = some i := by
  rw [Machine.retires, hduty, fetched_of_plays h hpc hdecode hextend]
  rfl

/-- Where the code has an instruction without an operand, it is executed. -/
theorem executes_of_plays {cpu : Cpu} {bus : Bus VideoRam} {i : Instruction} {m' : Console}
    (t : Transaction (Except Fault UInt8 × Cpu)) (h : bus.Plays code)
    (hawake : Machine.awake ⟨cpu, bus⟩ = ⟨cpu, bus⟩) (hduty : Machine.duty ⟨cpu, bus⟩ = .execute)
    (hpc : cpu.pc < 0x8000 ∧ cpu.pc + 1 < 0x8000)
    (hdecode : Instruction.decode (Cartridge.codeByte code cpu.pc.toNat) = some i)
    (himplied : i.addressingMode = .implied ∧ i ≠ .extend)
    (hrun : (Execution.carryOut i 0).run cpu = t)
    (ht : (⟨(t.eval bus).1.2, (t.eval bus).2⟩ : Console) = m') : Executes ⟨cpu, bus⟩ i m' := by
  have hfetched : Machine.fetched ⟨cpu, bus⟩ =
      some ⟨Cartridge.codeByte code cpu.pc.toNat, i⟩ :=
    fetched_of_plays h hpc.1 hdecode himplied.2
  have hoperand : Machine.operand ⟨cpu, bus⟩ i = 0 := if_pos himplied.1
  refine ⟨by rw [Machine.retires, hduty, hfetched]; rfl, ?_⟩
  -- The step comes down to the one transaction of the instruction, which is evaluated.
  obtain ⟨s', hs⟩ := Machine.step_of_fetched_eq_some hduty hfetched Listener.deaf ()
  rw [Console.act, hs, hoperand, hawake, Machine.perform, hrun, ← ht]
  rfl

end Console

end GameBoy
