import GameBoy.Proofs.Bus.Region
import GameBoy.Proofs.Cartridge.Loading

/-!
# Well-formed buses

Bank numbers and interrupt registers are bytes, but only few of their values ever occur:
`Bus.WellFormed` says which.  It holds of every bus that is assembled around a loaded cartridge
(`WellFormed.assemble`) and is kept by every operation of the bus (`WellFormed.write`,
`WellFormed.request`, `WellFormed.acknowledge`), so it holds of every bus that can be reached
(`Reachable.wellFormed`).

The bus and the video device each remember a bank of video memory; `Bus.InStep` says that it is the
same one.  `Bus.SameHardware` says what no operation changes: the image with its header, the kind of
the bank controller, the amount of cartridge RAM and the model.
-/

namespace GameBoy

/-! ## Bank numbers -/

/-- A bank number that is cut to some bits and is at least one. -/
private theorem max_one_mem {bank mask : UInt8} (h : bank ≤ mask) (hmask : 1 ≤ mask) :
    1 ≤ max bank 1 ∧ max bank 1 ≤ mask := by
  show 1 ≤ (if bank ≤ 1 then 1 else bank) ∧ (if bank ≤ 1 then 1 else bank) ≤ mask
  split
  · exact ⟨UInt8.le_refl 1, hmask⟩
  · grind

/-! ## Controllers -/

/-- The bank registers of the chip within their bits, and no more RAM than it addresses. -/
structure Mbc1.WellFormed (chip : Mbc1) : Prop where
  romBank_pos : 1 ≤ chip.romBank
  romBank_le : chip.romBank ≤ 31
  ramBank_le : chip.ramBank ≤ 3
  size_ram_le : chip.ram.size ≤ maxRamSize

/-- The chip is well-formed when it is switched on. -/
theorem Mbc1.WellFormed.fresh (ramSize : Nat) : (Mbc1.fresh ramSize).WellFormed where
  romBank_pos := UInt8.le_refl 1
  romBank_le := by simp only [Mbc1.fresh]; decide
  ramBank_le := by simp only [Mbc1.fresh]; decide
  size_ram_le := by
    rw [Mbc1.fresh, Storage.size_zeros]
    exact Nat.min_le_right ..

/-- Every register of the chip masks what is written to it. -/
theorem Mbc1.WellFormed.write {chip : Mbc1} (h : chip.WellFormed) (addr : UInt16) (value : UInt8) :
    (chip.write addr value).WellFormed := by
  unfold Mbc1.write
  split
  · exact ⟨h.romBank_pos, h.romBank_le, h.ramBank_le, h.size_ram_le⟩
  split
  · -- The register clamps what its mask leaves.
    have hbank : 1 ≤ max (value &&& 0x1F) 1 ∧ max (value &&& 0x1F) 1 ≤ 31 :=
      max_one_mem UInt8.and_le_right (by decide)
    exact ⟨hbank.1, hbank.2, h.ramBank_le, h.size_ram_le⟩
  split
  · exact ⟨h.romBank_pos, h.romBank_le, UInt8.and_le_right, h.size_ram_le⟩
  split
  · -- A write to the RAM keeps its size.
    refine ⟨h.romBank_pos, h.romBank_le, h.ramBank_le, ?_⟩
    rw [Storage.size_set]
    exact h.size_ram_le
  · exact h

namespace Controller

/-- Whether a cartridge has the chip. -/
def isMbc1 : Controller → Bool
  | direct _ => false
  | mbc1 _ => true

/-- A chip's registers are well-formed; a cartridge without a chip has none. -/
def WellFormed : Controller → Prop
  | direct _ => True
  | mbc1 chip => chip.WellFormed

/-- A controller that a header asks for starts well-formed. -/
theorem WellFormed.ofType {cartridgeType : UInt8} {ramSize : Nat} {c : Controller}
    (h : Controller.ofType cartridgeType ramSize = .ok c) : c.WellFormed := by
  unfold Controller.ofType at h
  split at h
  · cases h; trivial
  split at h
  · cases h; exact Mbc1.WellFormed.fresh ramSize
  · cases h

/-- Writes to a cartridge without a chip can only change its RAM, and not its size. -/
private theorem write_direct (ram : ByteArray) (addr : UInt16) (value : UInt8) :
    ∃ ram', (direct ram).write addr value = direct ram' ∧ ram'.size = ram.size := by
  rw [write]
  split
  · exact ⟨_, rfl, Storage.size_set ..⟩
  · exact ⟨ram, rfl, rfl⟩

/-- A write keeps the controller well-formed. -/
theorem WellFormed.write {c : Controller} (h : c.WellFormed) (addr : UInt16) (value : UInt8) :
    (c.write addr value).WellFormed := by
  cases c with
  | direct ram =>
    obtain ⟨ram', hwrite, -⟩ := write_direct ram addr value
    rw [hwrite]
    trivial
  | mbc1 chip => exact Mbc1.WellFormed.write h addr value

/-- A write does not turn one kind of controller into the other. -/
@[simp] theorem isMbc1_write (c : Controller) (addr : UInt16) (value : UInt8) :
    (c.write addr value).isMbc1 = c.isMbc1 := by
  cases c with
  | direct ram =>
    obtain ⟨ram', hwrite, -⟩ := write_direct ram addr value
    rw [hwrite]
    rfl
  | mbc1 chip => rfl

/-- A write keeps the amount of cartridge RAM. -/
@[simp] theorem size_ram_write (c : Controller) (addr : UInt16) (value : UInt8) :
    (c.write addr value).ram.size = c.ram.size := by
  cases c with
  | direct ram =>
    obtain ⟨ram', hwrite, hsize⟩ := write_direct ram addr value
    rw [hwrite]
    exact hsize
  | mbc1 chip =>
    -- Of the registers of the chip none touches the RAM.
    show (chip.write addr value).ram.size = chip.ram.size
    unfold Mbc1.write
    split; · rfl
    split; · rfl
    split; · rfl
    split
    · exact Storage.size_set ..
    · rfl

/-- The amount of RAM that a controller has: the chip addresses no more than four banks. -/
theorem size_ram_ofType {code : UInt8} {ramSize : Nat} {c : Controller}
    (h : Controller.ofType code ramSize = .ok c) :
    c.ram.size = if c.isMbc1 then min ramSize Mbc1.maxRamSize else ramSize := by
  unfold Controller.ofType at h
  split at h
  · cases h; exact Storage.size_zeros ramSize
  split at h
  · cases h; exact Storage.size_zeros _
  · cases h

end Controller

namespace Cartridge

/-- A cartridge that has been loaded has a well-formed controller. -/
theorem wellFormed_of_load {image : ByteArray} {c : Cartridge} (h : load image = .ok c) :
    c.controller.WellFormed := by
  obtain ⟨-, -, -, ramSize, -, -, -, hcontroller⟩ := load_eq_ok_iff.mp h
  exact Controller.WellFormed.ofType hcontroller

/-- An image of 32 KiB that is zero but for its header, which asks for the colour model and for an
MBC1 chip with 32 KiB of RAM. -/
def sampleImage : ByteArray :=
  Storage.set (Storage.set (Storage.set (Storage.zeros 0x8000) 0x143 0x80) 0x147 3) 0x149 3

/-- The cartridge with that image. -/
def sample : Cartridge where
  header := .read sampleImage
  rom := sampleImage
  controller := .mbc1 (.fresh 0x8000)

/-- The bytes of the sample image, one by one. -/
private theorem byte_sampleImage (offset : Nat) :
    Storage.getD sampleImage offset 0 =
      if offset = 0x149 then 3
      else if offset = 0x147 then 3
      else if offset = 0x143 then 0x80
      else 0 := by
  simp only [sampleImage, Storage.getD_set, Storage.size_set, Storage.size_zeros,
    Storage.getD_zeros, Nat.reduceLT, and_true]

/-- The sample image is accepted. -/
theorem load_sample : load sampleImage = .ok sample := by
  have hsize : sampleImage.size = 0x8000 := by
    simp only [sampleImage, Storage.size_set, Storage.size_zeros]
  have hrom : (Header.read sampleImage).romSize = .ok 0x8000 := by
    simp only [Header.romSize, Header.read, byte_sampleImage]
    rfl
  have hram : (Header.read sampleImage).ramSize = .ok 0x8000 := by
    simp only [Header.ramSize, Header.read, byte_sampleImage]
    rfl
  have htype : (Header.read sampleImage).cartridgeType = 3 := by
    simp only [Header.read, byte_sampleImage]
    rfl
  have hcontroller : Controller.ofType 3 0x8000 = .ok (.mbc1 (.fresh 0x8000)) := by
    rw [Controller.ofType, if_neg (by decide), if_pos (by decide)]
  have hheader : Header.ofImage sampleImage = .ok (.read sampleImage) :=
    Header.ofImage_eq_ok (by rw [hsize]; decide) hrom hram
  rw [← htype] at hcontroller
  -- The image is exactly as long as its header declares.
  exact load_eq_ok hheader hrom (Nat.le_of_eq hsize.symm) hram hcontroller

end Cartridge

/-! ## The bus -/

/-- Both interrupt registers within their five bits. -/
structure Interrupts.WellFormed (r : Interrupts) : Prop where
  enable_le : r.enable.bits ≤ 0x1F
  pending_le : r.pending.bits ≤ 0x1F

/-- Every source has its bit among the five lowest. -/
theorem Interrupt.mask_le (source : Interrupt) : source.mask ≤ 0x1F := by
  cases source <;> decide

/-- A request sets one of the wired bits. -/
theorem Interrupts.WellFormed.request {r : Interrupts} (h : r.WellFormed) (source : Interrupt) :
    (r.request source).WellFormed := by
  refine ⟨h.enable_le, ?_⟩
  have hmask := source.mask_le
  have hpending := h.pending_le
  -- Two numbers below 32 have no common bits from the sixth on.
  rw [UInt8.le_iff_toNat_le] at *
  show (r.pending.bits ||| source.mask).toNat ≤ 31
  rw [UInt8.toNat_or]
  exact Nat.le_of_lt_succ (Nat.or_lt_two_pow (n := 5) (Nat.lt_succ_of_le hpending)
    (Nat.lt_succ_of_le hmask))

/-- Taking up a request only clears a bit. -/
theorem Interrupts.WellFormed.acknowledge {r : Interrupts} (h : r.WellFormed)
    (source : Interrupt) : (r.acknowledge source).WellFormed :=
  ⟨h.enable_le, UInt8.le_trans UInt8.and_le_left h.pending_le⟩

/-- A write keeps both registers within their bits, wherever it goes. -/
theorem Interrupts.WellFormed.write {V : Type} [VideoDevice V] {bus : Bus V}
    (h : bus.interrupts.WellFormed) (addr : UInt16) (value : UInt8) :
    (bus.write addr value).interrupts.WellFormed := by
  cases hregion : Region.of bus.model addr <;> simp only [Bus.write, hregion, Bus.copySprites]
  case interruptPending => exact ⟨h.enable_le, UInt8.and_le_right⟩
  case interruptEnable => exact ⟨UInt8.and_le_right, h.pending_le⟩
  all_goals exact h

namespace Bus

/-- What holds of every bus that a console can have.  The working RAM has no register for its first
bank, so the selected bank is never zero, and without bank registers the selections are those at the
start. -/
structure WellFormed (bus : Bus VideoRam) : Prop where
  workRamBank_pos : 1 ≤ bus.workRamBank
  workRamBank_le : bus.workRamBank ≤ 7
  videoBank_le : bus.videoBank ≤ 1
  bank_video_le : bus.video.bank ≤ 1
  of_dmg : bus.model = .dmg → bus.workRamBank = 1 ∧ bus.videoBank = 0
  interrupts : bus.interrupts.WellFormed
  controller : bus.cartridge.controller.WellFormed

/-- A bus is well-formed when it is assembled. -/
theorem WellFormed.assemble {cartridge : Cartridge} (h : cartridge.controller.WellFormed)
    {video : VideoRam} (hvideo : video.bank ≤ 1) (model : Model) :
    (Bus.assemble cartridge video model).WellFormed where
  workRamBank_pos := UInt8.le_refl 1
  workRamBank_le := by simp only [Bus.assemble]; decide
  videoBank_le := by simp only [Bus.assemble]; decide
  bank_video_le := hvideo
  of_dmg _ := ⟨rfl, rfl⟩
  interrupts := ⟨UInt8.zero_le, UInt8.zero_le⟩
  controller := h

variable {bus : Bus VideoRam}

/-- A request keeps the bus well-formed. -/
theorem WellFormed.request (h : bus.WellFormed) (source : Interrupt) :
    (bus.request source).WellFormed :=
  { h with interrupts := h.interrupts.request source }

/-- Taking up a request keeps the bus well-formed. -/
theorem WellFormed.acknowledge (h : bus.WellFormed) (source : Interrupt) :
    (Memory.acknowledge bus source).WellFormed :=
  { h with interrupts := h.interrupts.acknowledge source }

/-- Replacing the video device keeps the bus well-formed if the new one selects a bank that exists. -/
private theorem WellFormed.withVideo (h : bus.WellFormed) {video : VideoRam}
    (hbank : video.bank ≤ 1) : ({ bus with video := video } : Bus VideoRam).WellFormed :=
  { h with bank_video_le := hbank }

/-- The bank register selects one of the banks 1 to 7. -/
theorem selectedWorkRamBank_mem (value : UInt8) :
    1 ≤ selectedWorkRamBank value ∧ selectedWorkRamBank value ≤ 7 :=
  max_one_mem UInt8.and_le_right (by decide)

/-- A write keeps the bus well-formed: every register masks what is written to it. -/
theorem WellFormed.write (h : bus.WellFormed) (addr : UInt16) (value : UInt8) :
    (bus.write addr value).WellFormed := by
  cases hregion : Region.of bus.model addr <;> simp only [Bus.write, hregion, copySprites]
  case cartridge => exact { h with controller := h.controller.write addr value }
  case video => exact h.withVideo h.bank_video_le
  -- The contents of memory are not restricted.
  case workRam => exact { h with }
  case bankedWorkRam => exact { h with }
  case highRam => exact { h with }
  case interruptPending =>
    exact { h with interrupts := ⟨h.interrupts.enable_le, UInt8.and_le_right⟩ }
  case interruptEnable =>
    exact { h with interrupts := ⟨UInt8.and_le_right, h.interrupts.pending_le⟩ }
  case scanline => exact h
  case spriteCopy => exact h.withVideo h.bank_video_le
  case videoBank =>
    -- The region exists in the colour model only, so `of_dmg` says nothing here.
    have hmodel : bus.model = .cgb := (Region.of_eq_iff.mp hregion).2
    refine { h with videoBank_le := UInt8.and_le_right, bank_video_le := ?_, of_dmg := ?_ }
    · rw [VideoRam.bank_selectBank]; exact UInt8.and_le_right
    · exact fun hdmg => absurd (hmodel.symm.trans hdmg) (by decide)
  case workRamBank =>
    have hmodel : bus.model = .cgb := (Region.of_eq_iff.mp hregion).2
    have hbank := selectedWorkRamBank_mem value
    refine { h with workRamBank_pos := hbank.1, workRamBank_le := hbank.2, of_dmg := ?_ }
    exact fun hdmg => absurd (hmodel.symm.trans hdmg) (by decide)
  case unmapped => exact h

/-- The buses that any operations make of one around a loaded cartridge.  The video device comes with
whatever it holds. -/
inductive Reachable : Bus VideoRam → Prop where
  | assemble {image : ByteArray} {cartridge : Cartridge}
      (load : Cartridge.load image = .ok cartridge) {video : VideoRam} (bank : video.bank ≤ 1)
      (model : Model) : Reachable (.assemble cartridge video model)
  | write {bus : Bus VideoRam} (h : Reachable bus) (addr : UInt16) (value : UInt8) :
      Reachable (bus.write addr value)
  | request {bus : Bus VideoRam} (h : Reachable bus) (source : Interrupt) :
      Reachable (bus.request source)
  | acknowledge {bus : Bus VideoRam} (h : Reachable bus) (source : Interrupt) :
      Reachable (Memory.acknowledge bus source)

/-- The bus around the sample cartridge can be reached. -/
theorem Reachable.sample (model : Model) : (Bus.assemble .sample .empty model).Reachable :=
  .assemble Cartridge.load_sample (by decide) model

/-- Every bus that can be reached is well-formed. -/
theorem Reachable.wellFormed (h : bus.Reachable) : bus.WellFormed := by
  -- One case for each operation; all but the first start from a well-formed bus.
  induction h with
  | assemble load bank model => exact .assemble (Cartridge.wellFormed_of_load load) bank model
  | write _ addr value ih => exact ih.write addr value
  | request _ source ih => exact ih.request source
  | acknowledge _ source ih => exact ih.acknowledge source

/-! ## The two video banks -/

/-- The video device selects the bank that the bus says. -/
def InStep (bus : Bus VideoRam) : Prop := bus.video.bank = bus.videoBank

/-- A write keeps the two banks the same: only the bank register changes them, and it changes both. -/
theorem InStep.write (h : bus.InStep) (addr : UInt16) (value : UInt8) :
    (bus.write addr value).InStep := by
  unfold InStep at *
  cases hregion : Region.of bus.model addr <;> simp only [Bus.write, hregion, copySprites]
  case video => rw [VideoRam.bank_write, h]
  case spriteCopy => rw [VideoRam.bank_replaceSprites, h]
  case videoBank =>
    -- The device masks once more what the bus has masked already.
    rw [VideoRam.bank_selectBank, selectedVideoBank, UInt8.and_assoc]
    rfl
  all_goals exact h

/-! ## The hardware -/

/-- Two buses with the same image, kind of controller, amount of cartridge RAM and model. -/
structure SameHardware (bus bus' : Bus VideoRam) : Prop where
  header : bus'.cartridge.header = bus.cartridge.header
  rom : bus'.cartridge.rom = bus.cartridge.rom
  isMbc1 : bus'.cartridge.controller.isMbc1 = bus.cartridge.controller.isMbc1
  size_ram : bus'.cartridge.controller.ram.size = bus.cartridge.controller.ram.size
  model : bus'.model = bus.model

/-- Nothing differs from itself. -/
theorem SameHardware.refl (bus : Bus VideoRam) : bus.SameHardware bus := ⟨rfl, rfl, rfl, rfl, rfl⟩

/-- What two operations in turn keep, both keep together. -/
theorem SameHardware.trans {bus bus' bus'' : Bus VideoRam} (h : bus.SameHardware bus')
    (h' : bus'.SameHardware bus'') : bus.SameHardware bus'' where
  header := h'.header.trans h.header
  rom := h'.rom.trans h.rom
  isMbc1 := h'.isMbc1.trans h.isMbc1
  size_ram := h'.size_ram.trans h.size_ram
  model := h'.model.trans h.model

/-- A request changes nothing of the hardware. -/
theorem SameHardware.request (bus : Bus VideoRam) (source : Interrupt) :
    bus.SameHardware (bus.request source) := ⟨rfl, rfl, rfl, rfl, rfl⟩

/-- Taking up a request changes nothing of the hardware. -/
theorem SameHardware.acknowledge (bus : Bus VideoRam) (source : Interrupt) :
    bus.SameHardware (Memory.acknowledge bus source) := ⟨rfl, rfl, rfl, rfl, rfl⟩

/-- A write changes nothing of the hardware. -/
theorem SameHardware.write (bus : Bus VideoRam) (addr : UInt16) (value : UInt8) :
    bus.SameHardware (bus.write addr value) := by
  cases hregion : Region.of bus.model addr <;> simp only [Bus.write, hregion, copySprites]
  -- Only the cartridge could change its own parts.
  case cartridge =>
    exact ⟨rfl, rfl, Controller.isMbc1_write .., Controller.size_ram_write .., rfl⟩
  all_goals exact ⟨rfl, rfl, rfl, rfl, rfl⟩

end Bus

end GameBoy
