import GameBoy.Proofs.Bus.WellFormed

/-!
# Writes to cartridges

A write to a cartridge does one of three things.  Where there is RAM that can be written
(`Controller.HasRam`) it replaces one byte of it (`read_write_of_hasRam`).  Where the MBC1 chip has a
register it moves a window (`Mbc1.read_write_of_register`).  Everywhere else it does nothing at all
(`write_eq_self`).
-/

namespace GameBoy

namespace Mbc1

/-- Whether an address names a byte of RAM that exists and is enabled. -/
def HasRam (chip : Mbc1) (addr : UInt16) : Prop :=
  0xA000 ≤ addr ∧ addr < 0xC000 ∧ chip.ramEnabled = true ∧ chip.ramOffset addr < chip.ram.size

instance (chip : Mbc1) (addr : UInt16) : Decidable (chip.HasRam addr) := by
  unfold HasRam; infer_instance

end Mbc1

namespace Controller

/-- Whether an address names a byte of RAM that exists and is enabled. -/
def HasRam : Controller → UInt16 → Prop
  | direct ram, addr => 0xA000 ≤ addr ∧ addr < 0xC000 ∧ addr.toNat - 0xA000 < ram.size
  | mbc1 chip, addr => chip.HasRam addr

instance (c : Controller) (addr : UInt16) : Decidable (c.HasRam addr) := by
  cases c <;> unfold HasRam <;> infer_instance

/-- Cartridge RAM is seen at 0xA000 to 0xBFFF. -/
theorem HasRam.window {c : Controller} {addr : UInt16} (h : c.HasRam addr) :
    0xA000 ≤ addr ∧ addr < 0xC000 := by
  cases c <;> exact ⟨h.1, h.2.1⟩

end Controller

/-- There is no byte to replace past the end. -/
private theorem set_of_size_le {bytes : ByteArray} {offset : Nat} (h : ¬offset < bytes.size)
    (v : UInt8) : Storage.set bytes offset v = bytes := dif_neg h

/-- Distinct addresses lie at distinct distances from the start of the cartridge RAM. -/
private theorem sub_start_inj {a b : UInt16} (ha : 0xA000 ≤ a) (hb : 0xA000 ≤ b) :
    b.toNat - 0xA000 = a.toNat - 0xA000 ↔ b = a := by
  simp only [UInt16.le_iff_toNat_le, UInt16.reduceToNat] at ha hb
  rw [← UInt16.toNat_inj]
  omega

namespace Mbc1

variable (chip : Mbc1) (rom : ByteArray)

/-- The place of a byte does not depend on the contents. -/
private theorem ramOffset_withRam (ram : ByteArray) (addr : UInt16) :
    ({ chip with ram := ram } : Mbc1).ramOffset addr = chip.ramOffset addr := rfl

/-- Distinct addresses name distinct places while the same bank is selected. -/
private theorem ramOffset_inj {a b : UInt16} (ha : 0xA000 ≤ a) (hb : 0xA000 ≤ b) :
    chip.ramOffset b = chip.ramOffset a ↔ b = a := by
  constructor
  · intro h
    exact (sub_start_inj ha hb).mp (Nat.add_left_cancel h)
  · rintro rfl
    rfl

/-- A write to RAM changes one byte of it. -/
theorem read_write_of_hasRam {a : UInt16} (h : chip.HasRam a) (b : UInt16) (v : UInt8) :
    (chip.write a v).read rom b = if b = a then v else chip.read rom b := by
  obtain ⟨hge, hlt, henabled, hoffset⟩ := h
  have hwrite : chip.write a v = { chip with ram := Storage.set chip.ram (chip.ramOffset a) v } := by
    have hpast {bound : UInt16} (hbound : bound ≤ 0xA000) : ¬a < bound :=
      UInt16.not_lt.mpr (UInt16.le_trans hbound hge)
    rw [write, if_neg (hpast (by decide)), if_neg (hpast (by decide)), if_neg (hpast (by decide)),
      if_pos (by simp [hge, hlt, henabled])]
  -- An address below the RAM is not the one that is written.
  have hne {bound : UInt16} (hb : b < bound) (hbound : bound ≤ 0xA000) : b ≠ a := by
    rintro rfl
    exact absurd (UInt16.lt_of_lt_of_le hb hbound) (UInt16.not_lt.mpr hge)
  rw [hwrite, read, read]
  -- One window after the other: the fixed ROM bank, the switchable one, the RAM.
  by_cases hrom : b < 0x4000
  · rw [if_pos hrom, if_pos hrom, if_neg (hne hrom (by decide))]
  rw [if_neg hrom, if_neg hrom]
  by_cases hbanked : b < 0x8000
  · rw [if_pos hbanked, if_pos hbanked, if_neg (hne hbanked (by decide))]
  rw [if_neg hbanked, if_neg hbanked]
  by_cases hram : (0xA000 ≤ b && b < 0xC000 && chip.ramEnabled) = true
  · have hb : 0xA000 ≤ b := by
      simp only [Bool.and_eq_true, decide_eq_true_eq] at hram
      exact hram.1.1
    rw [if_pos hram, if_pos hram, chip.ramOffset_withRam _ b, Storage.getD_set]
    simp only [chip.ramOffset_inj hge hb, hoffset, and_true]
  · have hab : b ≠ a := by
      rintro rfl
      exact hram (by simp [hge, hlt, henabled])
    rw [if_neg hram, if_neg hram, if_neg hab]

/-- Whether a write to one address moves the window in which another one lies. -/
def Moves (a b : UInt16) : Prop :=
  (a < 0x2000 ∨ 0x4000 ≤ a ∧ a < 0x6000) ∧ 0xA000 ≤ b ∧ b < 0xC000 ∨
    (0x2000 ≤ a ∧ a < 0x4000) ∧ 0x4000 ≤ b ∧ b < 0x8000

/-- What is seen through a window depends only on the registers of the window. -/
private theorem read_congr {chip chip' : Mbc1} {b : UInt16}
    (hrom : 0x4000 ≤ b → b < 0x8000 → chip'.romBank = chip.romBank)
    (hram : 0xA000 ≤ b → b < 0xC000 →
      chip'.ram = chip.ram ∧ chip'.ramBank = chip.ramBank ∧ chip'.ramEnabled = chip.ramEnabled) :
    chip'.read rom b = chip.read rom b := by
  rw [read, read]
  by_cases h4 : b < 0x4000
  · rw [if_pos h4, if_pos h4]
  rw [if_neg h4, if_neg h4]
  by_cases h8 : b < 0x8000
  · rw [if_pos h8, if_pos h8, hrom (UInt16.not_lt.mp h4) h8]
  rw [if_neg h8, if_neg h8]
  by_cases hwindow : 0xA000 ≤ b ∧ b < 0xC000
  · obtain ⟨hbytes, hbank, henabled⟩ := hram hwindow.1 hwindow.2
    have hoffset : chip'.ramOffset b = chip.ramOffset b := by
      unfold ramOffset
      rw [hbank]
    rw [hoffset, hbytes, henabled]
  · -- Outside both windows the bus is open.
    have hopen (enabled : Bool) : ¬(0xA000 ≤ b && b < 0xC000 && enabled) = true := by
      simp only [Bool.and_eq_true, decide_eq_true_eq]
      exact fun h => hwindow h.1
    rw [if_neg (hopen _), if_neg (hopen _)]

/-- A write to a register of the chip changes nothing outside the window that it moves. -/
theorem read_write_of_register {a : UInt16} (h : a < 0x6000) {b : UInt16} (hb : ¬Moves a b)
    (v : UInt8) : (chip.write a v).read rom b = chip.read rom b := by
  rw [write]
  by_cases h2 : a < 0x2000
  · rw [if_pos h2]
    exact read_congr rom (fun _ _ => rfl) fun hge hlt => absurd (.inl ⟨.inl h2, hge, hlt⟩) hb
  rw [if_neg h2]
  by_cases h4 : a < 0x4000
  · rw [if_pos h4]
    refine read_congr rom (fun hge hlt => ?_) fun _ _ => ⟨rfl, rfl, rfl⟩
    exact absurd (.inr ⟨⟨UInt16.not_lt.mp h2, h4⟩, hge, hlt⟩) hb
  rw [if_neg h4, if_pos h]
  refine read_congr rom (fun _ _ => rfl) fun hge hlt => ?_
  exact absurd (.inl ⟨.inr ⟨UInt16.not_lt.mp h4, h⟩, hge, hlt⟩) hb

/-- A write that reaches neither a register nor RAM does nothing. -/
theorem write_eq_self {a : UInt16} (h : 0x6000 ≤ a) (hram : ¬chip.HasRam a) (v : UInt8) :
    chip.write a v = chip := by
  have hpast {bound : UInt16} (hbound : bound ≤ 0x6000) : ¬a < bound :=
    UInt16.not_lt.mpr (UInt16.le_trans hbound h)
  rw [write, if_neg (hpast (by decide)), if_neg (hpast (by decide)), if_neg (hpast (by decide))]
  by_cases hwindow : (0xA000 ≤ a && a < 0xC000 && chip.ramEnabled) = true
  -- RAM that is enabled but ends before the byte drops the write.
  · have hoffset : ¬chip.ramOffset a < chip.ram.size := by
      intro hlt
      exact hram (by simpa [HasRam, hlt, and_assoc] using hwindow)
    rw [if_pos hwindow]
    simp only [set_of_size_le hoffset]
  · rw [if_neg hwindow]

end Mbc1

namespace Controller

variable (c : Controller) (rom : ByteArray)

/-- Whether a write to one address moves the window in which another one lies. -/
def Moves (a b : UInt16) : Prop := c.isMbc1 = true ∧ Mbc1.Moves a b

/-- A write to RAM changes one byte of it. -/
theorem read_write_of_hasRam {a : UInt16} (h : c.HasRam a) (b : UInt16) (v : UInt8) :
    (c.write a v).read rom b = if b = a then v else c.read rom b := by
  cases c with
  | mbc1 chip => exact chip.read_write_of_hasRam rom h b v
  | direct ram =>
    obtain ⟨hge, hlt, hoffset⟩ := h
    rw [write, if_pos (by simp [hge, hlt]), read, read]
    by_cases hrom : b < 0x8000
    -- An address of the ROM is not the one that is written.
    · have hab : b ≠ a := by
        rintro rfl
        exact absurd (UInt16.lt_of_lt_of_le hrom (by decide)) (UInt16.not_lt.mpr hge)
      rw [if_pos hrom, if_pos hrom, if_neg hab]
    rw [if_neg hrom, if_neg hrom]
    by_cases hram : (0xA000 ≤ b && b < 0xC000) = true
    · have hb : 0xA000 ≤ b := by
        simp only [Bool.and_eq_true, decide_eq_true_eq] at hram
        exact hram.1
      rw [if_pos hram, if_pos hram, Storage.getD_set]
      simp only [sub_start_inj hge hb, hoffset, and_true]
    · have hab : b ≠ a := by
        rintro rfl
        exact hram (by simp [hge, hlt])
      rw [if_neg hram, if_neg hram, if_neg hab]

/-- A write that reaches neither a register nor RAM does nothing. -/
theorem write_eq_self {a : UInt16} (h : c.isMbc1 = true → 0x6000 ≤ a) (hram : ¬c.HasRam a)
    (v : UInt8) : c.write a v = c := by
  cases c with
  | mbc1 chip => rw [write, chip.write_eq_self (h rfl) hram v]
  | direct ram =>
    rw [write]
    by_cases hwindow : (0xA000 ≤ a && a < 0xC000) = true
    · have hoffset : ¬a.toNat - 0xA000 < ram.size := by
        intro hlt
        exact hram (by simpa [HasRam, hlt] using hwindow)
      rw [if_pos hwindow, set_of_size_le hoffset]
    · rw [if_neg hwindow]

/-- What a write to a cartridge does to a read outside the window that it moves. -/
theorem read_after_write_of_not_moves {a b : UInt16} (hb : ¬c.Moves a b) (v : UInt8) :
    (c.write a v).read rom b = if b = a ∧ c.HasRam a then v else c.read rom b := by
  by_cases hram : c.HasRam a
  · rw [c.read_write_of_hasRam rom hram]
    simp only [hram, and_true]
  rw [if_neg (fun h => hram h.2)]
  by_cases hregister : c.isMbc1 = true → 0x6000 ≤ a
  · rw [c.write_eq_self hregister hram]
  · -- What is left is a register, and only the chip has registers.
    obtain ⟨hchip, ha⟩ := Classical.not_imp.mp hregister
    cases c with
    | direct ram => cases hchip
    | mbc1 chip =>
      exact chip.read_write_of_register rom (UInt16.not_le.mp ha) (fun h => hb ⟨rfl, h⟩) v

end Controller

end GameBoy
