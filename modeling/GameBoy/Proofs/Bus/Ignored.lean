import GameBoy.Proofs.Bus.Interference
import GameBoy.Proofs.Bus.Sprites
import GameBoy.Proofs.Cartridge.Mapping
import GameBoy.Proofs.Console.Program

/-!
# Writes that are ignored

Much of the address space takes no writes: ROM that has no register behind it, cartridge RAM that is
not there or not enabled, and all the addresses at which there is nothing to write to.
`Bus.Ignores` lists them.

`Bus.write_of_ignores` says that such a write does nothing, and `Bus.exists_write_ne` that every other
address takes some bytes differently, so the list is complete.  What is reported is a matter of the
place: one event at the lowest level, except for missing cartridge RAM, where a write leaves no trace
(`Bus.ignored_writes_traced`).
-/

namespace GameBoy

/-! ## Cartridges -/

namespace Controller

/-- Whether an address in the window of the cartridge RAM has no byte of RAM behind it: there is none,
the bank that is selected ends before it, or the RAM is disabled. -/
def LacksRam (c : Controller) (addr : UInt16) : Prop :=
  0xA000 ≤ addr ∧ addr < 0xC000 ∧ ¬c.HasRam addr

/-- Whether an address of the ROM has no register behind it.  Only the chip has registers, and none of
its own for the banking mode, which is written at 0x6000. -/
def LacksRegister (c : Controller) (addr : UInt16) : Prop :=
  addr < 0x8000 ∧ (c.isMbc1 = true → 0x6000 ≤ addr)

variable {c : Controller} {addr : UInt16}

/-- A write to RAM that is not there changes nothing. -/
theorem write_of_lacksRam (h : c.LacksRam addr) (value : UInt8) : c.write addr value = c :=
  -- The registers are all below the window of the RAM.
  c.write_eq_self (fun _ => UInt16.le_trans (by decide) h.1) h.2.2 value

/-- A write to ROM that has no register behind it changes nothing. -/
theorem write_of_lacksRegister (h : c.LacksRegister addr) (value : UInt8) :
    c.write addr value = c := by
  have hram : ¬c.HasRam addr := fun hram =>
    absurd (UInt16.lt_of_lt_of_le h.1 (by decide)) (UInt16.not_lt.mpr hram.window.1)
  exact c.write_eq_self h.2 hram value

/-- A write to RAM that is not there is not reported. -/
theorem writeEvents_of_lacksRam (h : c.LacksRam addr) (value : UInt8) :
    c.writeEvents addr value = [] := by
  obtain ⟨hge, hlt, -⟩ := h
  cases c with
  | direct ram => exact if_pos (by simp [hge, hlt])
  | mbc1 chip =>
    -- The chip reports what it ignores by address alone, and only below 0x8000.
    have hpast {bound : UInt16} (hbound : bound ≤ 0xA000) : ¬addr < bound :=
      UInt16.not_lt.mpr (UInt16.le_trans hbound hge)
    show Mbc1.writeEvents addr value = []
    rw [Mbc1.writeEvents, if_neg (hpast (by decide)), if_neg (hpast (by decide)),
      if_neg (hpast (by decide)), if_neg (hpast (by decide))]

/-- A byte that is written to ROM is reported once. -/
theorem writeEvents_of_lacksRegister (h : c.LacksRegister addr) (value : UInt8) :
    ∃ event, c.writeEvents addr value = [event] ∧ event.level = .trace := by
  obtain ⟨hlt, hregister⟩ := h
  cases c with
  | direct ram =>
    -- Without the chip all that is outside the window of the RAM is taken for ROM.
    have hwindow : ¬(0xA000 ≤ addr && addr < 0xC000) = true := by
      have hge : ¬0xA000 ≤ addr := UInt16.not_le.mpr (UInt16.lt_of_lt_of_le hlt (by decide))
      simp [hge]
    exact ⟨.romWriteIgnored addr value, if_neg hwindow, rfl⟩
  | mbc1 chip =>
    have hpast {bound : UInt16} (hbound : bound ≤ 0x6000) : ¬addr < bound :=
      UInt16.not_lt.mpr (UInt16.le_trans hbound (hregister rfl))
    refine ⟨.bankingModeIgnored value, ?_, rfl⟩
    show Mbc1.writeEvents addr value = _
    rw [Mbc1.writeEvents, if_neg (hpast (by decide)), if_neg (hpast (by decide)),
      if_neg (hpast (by decide)), if_pos hlt]

/-- A register of the chip takes some two bytes differently. -/
private theorem exists_write_ne_of_register (chip : Mbc1) (h : addr < 0x6000) :
    ∃ v w, chip.write addr v ≠ chip.write addr w := by
  -- There are three registers: the RAM enable, the ROM bank and the upper bank bits.
  by_cases h2 : addr < 0x2000
  · refine ⟨0, 0x0A, fun heq => ?_⟩
    have henabled := congrArg Mbc1.ramEnabled heq
    rw [Mbc1.ramEnabled_write, Mbc1.ramEnabled_write, if_pos ⟨UInt16.zero_le, h2⟩,
      if_pos ⟨UInt16.zero_le, h2⟩] at henabled
    exact absurd henabled (by decide)
  by_cases h4 : addr < 0x4000
  · refine ⟨1, 2, fun heq => ?_⟩
    have hbank := congrArg Mbc1.romBank heq
    rw [Mbc1.romBank_write, Mbc1.romBank_write, if_pos ⟨UInt16.not_lt.mp h2, h4⟩,
      if_pos ⟨UInt16.not_lt.mp h2, h4⟩] at hbank
    exact absurd hbank (by decide)
  · refine ⟨1, 2, fun heq => ?_⟩
    have hbank := congrArg Mbc1.ramBank heq
    rw [Mbc1.ramBank_write, Mbc1.ramBank_write, if_pos ⟨UInt16.not_lt.mp h4, h⟩,
      if_pos ⟨UInt16.not_lt.mp h4, h⟩] at hbank
    exact absurd hbank (by decide)

/-- Where there is RAM or a register, some two bytes are taken differently. -/
theorem exists_write_ne (hwindow : addr < 0x8000 ∨ 0xA000 ≤ addr ∧ addr < 0xC000)
    (hregister : ¬c.LacksRegister addr) (hram : ¬c.LacksRam addr) :
    ∃ v w, c.write addr v ≠ c.write addr w := by
  rcases hwindow with hrom | ⟨hge, hlt⟩
  · -- Only the chip has something behind its ROM.
    obtain ⟨hchip, hbelow⟩ := Classical.not_imp.mp fun himp => hregister ⟨hrom, himp⟩
    cases c with
    | direct ram => cases hchip
    | mbc1 chip =>
      obtain ⟨v, w, hne⟩ := exists_write_ne_of_register chip (UInt16.not_le.mp hbelow)
      exact ⟨v, w, fun heq => hne (Controller.mbc1.inj heq)⟩
  -- A byte of RAM that is there reads back as it was written.
  · have hhas : c.HasRam addr := Classical.not_not.mp fun hno => hram ⟨hge, hlt, hno⟩
    refine ⟨1, 2, fun heq => ?_⟩
    have hread := congrArg (Controller.read · ByteArray.empty addr) heq
    rw [c.read_write_of_hasRam _ hhas, c.read_write_of_hasRam _ hhas, if_pos rfl, if_pos rfl] at hread
    exact absurd hread (by decide)

end Controller

/-! ## The bus -/

/-- Whether nothing can be written at an address above the RAM: it is not mapped, or it is read only.
Without bank registers their addresses are not mapped either. -/
def Region.Vacant (model : Model) (addr : UInt16) : Prop :=
  0xE000 ≤ addr ∧ addr < 0xFF80 ∧ addr ≠ 0xFF0F ∧ addr ≠ 0xFF46 ∧
    ¬(addr = 0xFF4F ∧ model = .cgb) ∧ ¬(addr = 0xFF70 ∧ model = .cgb)

/-- Above the RAM these are the read-only register and whatever is not mapped. -/
theorem Region.vacant_iff {model : Model} {addr : UInt16} :
    Region.Vacant model addr ↔
      Region.of model addr = .scanline ∨ Region.of model addr = .unmapped := by
  simp only [Region.of_eq_iff, Region.Contains, Region.Vacant]
  grind

namespace Bus

/-- The addresses that take no write. -/
def Ignores {V : Type} (bus : Bus V) (addr : UInt16) : Prop :=
  bus.cartridge.controller.LacksRegister addr ∨ bus.cartridge.controller.LacksRam addr ∨
    Region.Vacant bus.model addr

section Ignored

variable {V : Type} [VideoDevice V] {bus : Bus V} {addr : UInt16}

/-- A write to a vacant address changes nothing and is reported as unmapped. -/
private theorem write_vacant (h : Region.Vacant bus.model addr) (value : UInt8) :
    bus.write addr value = bus ∧ bus.writeEvents addr value = [.unmappedWrite addr value] := by
  rcases Region.vacant_iff.mp h with hregion | hregion
  all_goals
    rw [write, writeEvents, hregion]
    exact ⟨rfl, rfl⟩

/-- A write that the controller ignores leaves the whole bus alone. -/
private theorem write_cartridge (hregion : Region.of bus.model addr = .cartridge) {value : UInt8}
    (h : bus.cartridge.controller.write addr value = bus.cartridge.controller) :
    bus.write addr value = bus := by
  rw [write, hregion]
  show ({ bus with cartridge := { bus.cartridge with
    controller := bus.cartridge.controller.write addr value } } : Bus V) = bus
  rw [h]

/-- A write that is ignored leaves everything as it is. -/
theorem write_of_ignores (h : bus.Ignores addr) (value : UInt8) : bus.write addr value = bus := by
  rcases h with hrom | hram | hvacant
  · exact write_cartridge (Region.of_eq_iff.mpr (.inl hrom.1))
      (Controller.write_of_lacksRegister hrom value)
  · exact write_cartridge (Region.of_eq_iff.mpr (.inr ⟨hram.1, hram.2.1⟩))
      (Controller.write_of_lacksRam hram value)
  · exact (write_vacant hvacant value).1

omit [VideoDevice V] in
/-- What a write to the cartridge reports is up to its controller. -/
private theorem writeEvents_cartridge (hregion : Region.of bus.model addr = .cartridge)
    (value : UInt8) :
    bus.writeEvents addr value = bus.cartridge.controller.writeEvents addr value := by
  rw [writeEvents, hregion]

omit [VideoDevice V] in
/-- The bus does not report what the controller is silent about. -/
theorem writeEvents_of_lacksRam (h : bus.cartridge.controller.LacksRam addr) (value : UInt8) :
    bus.writeEvents addr value = [] := by
  rw [writeEvents_cartridge (Region.of_eq_iff.mpr (.inr ⟨h.1, h.2.1⟩))]
  exact Controller.writeEvents_of_lacksRam h value

/-- A write that is ignored anywhere else is reported once. -/
theorem writeEvents_of_ignores (h : bus.Ignores addr)
    (hram : ¬bus.cartridge.controller.LacksRam addr) (value : UInt8) :
    ∃ event, bus.writeEvents addr value = [event] ∧ event.level = .trace := by
  rcases h with hrom | hlacks | hvacant
  · rw [writeEvents_cartridge (Region.of_eq_iff.mpr (.inl hrom.1))]
    exact Controller.writeEvents_of_lacksRegister hrom value
  · exact absurd hlacks hram
  · exact ⟨_, (write_vacant hvacant value).2, rfl⟩

end Ignored

variable {bus : Bus VideoRam} {addr : UInt16}

/-- The last two pages differ in one byte: of the interrupt register the upper bits read as set, and
there is nothing 256 bytes before it. -/
private theorem spriteCopy_ne :
    bus.write spriteCopyAddress 0xFE ≠ bus.write spriteCopyAddress 0xFF := by
  have hvacant : bus.read 0xFE0F = 0 := by
    have hregion : Region.of bus.model 0xFE0F = .unmapped :=
      Region.of_eq_iff.mpr (by simp [Region.Contains])
    rw [read, hregion]
  have hpending : bus.read 0xFF0F = 0xE0 ||| bus.interrupts.pending.bits := by
    have hregion : Region.of bus.model 0xFF0F = .interruptPending := Region.of_eq_iff.mpr rfl
    rw [read, hregion]
  -- The byte that tells the pages apart is copied to the sixteenth byte of the sprites.
  have hbyte (page : UInt8) (addr : UInt16) (haddr : UInt16.ofNat (256 * page.toNat + 15) = addr) :
      (bus.write spriteCopyAddress page).video.sprites.get 15 = bus.read addr := by
    rw [write_spriteCopyAddress, ← haddr]
    exact get_pageSprites bus page (by decide)
  intro heq
  have hsprite := congrArg (·.video.sprites.get 15) heq
  simp only [hbyte 0xFE 0xFE0F (by decide), hbyte 0xFF 0xFF0F (by decide), hvacant, hpending]
    at hsprite
  have hbits : (0xE0 : UInt8) = 0 := (UInt8.or_eq_zero_iff.mp hsprite.symm).1
  exact absurd hbits (by decide)

/-- At every other address some two bytes have different effects. -/
theorem exists_write_ne (hwell : bus.WellFormed) (h : ¬bus.Ignores addr) :
    ∃ v w, bus.write addr v ≠ bus.write addr w := by
  obtain ⟨hregister, hram, hvacant⟩ := by simpa only [Ignores, not_or] using h
  have hmapped := mt Region.vacant_iff.mpr hvacant
  -- One thing that the bus shows is enough to tell two effects apart.
  have hapart {α : Type} (f : Bus VideoRam → α) {v w : UInt8}
      (hne : f (bus.write addr v) ≠ f (bus.write addr w)) :
      ∃ v w, bus.write addr v ≠ bus.write addr w :=
    ⟨v, w, fun heq => hne (congrArg f heq)⟩
  -- In the RAM any two bytes read back differently.
  by_cases hisRam : (Region.of bus.model addr).isRam = true
  · refine hapart (·.read addr) (v := 1) (w := 2) ?_
    simp only [read_write_of_isRam hwell hisRam hisRam, if_true]
    decide
  cases hregion : Region.of bus.model addr <;> rw [hregion] at hisRam hmapped
  case cartridge =>
    obtain ⟨v, w, hne⟩ := Controller.exists_write_ne (Region.of_eq_iff.mp hregion) hregister hram
    refine hapart (·.cartridge.controller) (v := v) (w := w) ?_
    simp only [write, hregion]
    exact hne
  case spriteCopy =>
    obtain rfl : addr = spriteCopyAddress := Region.of_eq_iff.mp hregion
    exact ⟨0xFE, 0xFF, spriteCopy_ne⟩
  case interruptPending =>
    refine hapart (·.interrupts.pending.bits) (v := 1) (w := 2) ?_
    simp only [write, hregion]
    decide
  case interruptEnable =>
    refine hapart (·.interrupts.enable.bits) (v := 1) (w := 2) ?_
    simp only [write, hregion]
    decide
  case videoBank =>
    refine hapart (·.videoBank) (v := 1) (w := 2) ?_
    simp only [write, hregion]
    decide
  case workRamBank =>
    refine hapart (·.workRamBank) (v := 1) (w := 2) ?_
    simp only [write, hregion]
    decide
  -- What is left is read only, not mapped or RAM.
  case scanline => exact absurd (.inl rfl) hmapped
  case unmapped => exact absurd (.inr rfl) hmapped
  all_goals exact absurd rfl hisRam

/-- The addresses that take no write are those at which no byte that is written ever changes anything.
A write there is reported once, at the lowest level, except where cartridge RAM is missing or disabled:
there it is not reported at all. -/
theorem ignored_writes_traced (h : bus.Reachable) (addr : UInt16) :
    (bus.Ignores addr ↔ ∀ value, bus.write addr value = bus) ∧
      (bus.Ignores addr → ¬bus.cartridge.controller.LacksRam addr → ∀ value,
        ∃ event, bus.writeEvents addr value = [event] ∧ event.level = .trace) ∧
      (bus.cartridge.controller.LacksRam addr → ∀ value, bus.writeEvents addr value = []) := by
  refine ⟨⟨fun hignores => write_of_ignores hignores, fun hsame => ?_⟩,
    fun hignores hram => writeEvents_of_ignores hignores hram, writeEvents_of_lacksRam⟩
  -- If no byte had an effect, then no two bytes would have different ones.
  refine Classical.byContradiction fun hnot => ?_
  obtain ⟨v, w, hne⟩ := exists_write_ne h.wellFormed hnot
  exact hne ((hsame v).trans (hsame w).symm)

/-- A write to the banking mode of the chip is ignored and reported. -/
theorem ignored_writes_traced_bankingMode :
    let bus := Bus.assemble .sample VideoRam.empty .cgb
    bus.write 0x6000 1 = bus ∧
      ∃ event, bus.writeEvents 0x6000 1 = [event] ∧ event.level = .trace := by
  intro bus
  have htraced := ignored_writes_traced (.sample .cgb) 0x6000
  have hignores : bus.Ignores 0x6000 := .inl ⟨by decide, fun _ => by decide⟩
  exact ⟨htraced.1.mp hignores 1, htraced.2.1 hignores (fun hram => absurd hram.1 (by decide)) 1⟩

/-- A write to the RAM of a cartridge that has none is ignored and not reported. -/
theorem not_ignored_writes_traced :
    let bus := (Console.playing []).memory
    bus.Reachable ∧ bus.Ignores 0xA000 ∧ bus.write 0xA000 0x42 = bus ∧
      ¬∃ event, bus.writeEvents 0xA000 0x42 = [event] ∧ event.level = .trace := by
  intro bus
  have hram : bus.cartridge.controller.LacksRam 0xA000 :=
    ⟨by decide, by decide, fun hram => absurd hram.2.2 (by decide)⟩
  refine ⟨.assemble (Cartridge.load_program []) (by decide) _, .inr (.inl hram),
    write_of_ignores (.inr (.inl hram)) 0x42, ?_⟩
  rintro ⟨event, hevents, -⟩
  rw [writeEvents_of_lacksRam hram] at hevents
  cases hevents

end Bus

end GameBoy
