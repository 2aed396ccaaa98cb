import GameBoy.Proofs.Bus.LastWrite

/-!
# What a cartridge shows of its image

Writes to a cartridge select banks, enable the RAM and fill it.  A history of writes says on its own
which bank is selected (`History.romBank`, `History.ramBank`), whether the RAM is enabled
(`History.ramEnabled`), and which byte was stored last in a cell of the RAM (`History.lastSaved`).

`Controller.Tracks` relates a bank controller to the history of the writes to it, and every write
keeps the relation (`Tracks.write`).  So what is read after any writes is a matter of the image and of
the history alone: `Cartridge.ShowsDirectly` says it for a cartridge without a chip,
`Cartridge.ShowsBanks` for the MBC1 chip, and `Cartridge.shows_of_load` for every image that can be
loaded.
-/

namespace GameBoy

/-! ## Histories of a cartridge -/

/-- The offset of an address in the window of the cartridge RAM. -/
def ramWindow? (addr : UInt16) : Option Nat :=
  if 0xA000 ≤ addr ∧ addr < 0xC000 then some (addr.toNat - 0xA000) else none

namespace History

/-- What a register holds that is written at the addresses from `start` up to, but not including,
`stop`, and keeps `decode` of a byte. -/
def register {α : Type} (start stop : UInt16) (decode : UInt8 → α) (initial : α) : History → α
  | [] => initial
  | (addr, v) :: past =>
    if start ≤ addr ∧ addr < stop then decode v else register start stop decode initial past

/-- The ROM bank that the chip shows at 0x4000: the one selected last, where zero selects the second
bank, which is also the one at the start. -/
def romBank (past : History) : UInt8 := past.register 0x2000 0x4000 (fun w => max (w &&& 0x1F) 1) 1

/-- The RAM bank that the chip shows: the one selected last, the first one at the start. -/
def ramBank (past : History) : UInt8 := past.register 0x4000 0x6000 (fun w => w &&& 0x03) 0

/-- Whether the lower half of the byte that was written last to the gate of the RAM is 0xA. -/
def ramEnabled (past : History) : Bool :=
  past.register 0x0000 0x2000 (fun w => w &&& 0x0F == 0x0A) false

/-- The cell of the RAM that an address names if there is no chip. -/
def directCell? (_ : History) (addr : UInt16) : Option Nat := ramWindow? addr

/-- The cell of the RAM that an address names through the chip; none while the RAM is disabled. -/
def bankedCell? (past : History) (addr : UInt16) : Option Nat :=
  if past.ramEnabled then (ramWindow? addr).map (past.ramBank.toNat * ramBankSize + ·) else none

/-- The byte that was stored last in a cell of the RAM, zero if there was none.  Which cell a write
goes to is decided by the writes before it. -/
def lastSaved (cell? : History → UInt16 → Option Nat) (j : Nat) : History → UInt8
  | [] => 0
  | (addr, v) :: past => if cell? past addr = some j then v else lastSaved cell? j past

end History

/-! ## The RAM -/

/-- A byte that is there is read whatever the fallback. -/
theorem Storage.getD_eq_ite (bytes : ByteArray) (offset : Nat) (fallback : UInt8) :
    getD bytes offset fallback = if offset < bytes.size then getD bytes offset 0 else fallback := by
  by_cases h : offset < bytes.size
  · rw [if_pos h, getD, getD, dif_pos h, dif_pos h]
  · rw [if_neg h, getD, dif_neg h]

/-- RAM that holds, in every cell that exists, the byte that was stored there last. -/
def History.Fills (past : History) (cell? : History → UInt16 → Option Nat) (ram : ByteArray) : Prop :=
  ∀ j < ram.size, Storage.getD ram j 0 = past.lastSaved cell? j

/-- Without a history every cell is zero, as in fresh RAM. -/
theorem History.Fills.zeros (cell? : History → UInt16 → Option Nat) (size : Nat) :
    History.Fills [] cell? (Storage.zeros size) := fun _ _ => Storage.getD_zeros ..

/-- A write to the RAM goes to the cell that its address names, if there is one. -/
theorem History.Fills.write {past : History} {cell? : History → UInt16 → Option Nat}
    {ram : ByteArray} (h : past.Fills cell? ram) (addr : UInt16) (v : UInt8) :
    History.Fills ((addr, v) :: past) cell?
      (match cell? past addr with
        | some j => Storage.set ram j v
        | none => ram) := by
  intro j hj
  rw [lastSaved]
  cases hcell : cell? past addr with
  | none =>
    rw [hcell] at hj
    simpa using h j hj
  | some i =>
    rw [hcell] at hj
    rw [Storage.size_set] at hj
    rw [Storage.getD_set, h j hj]
    -- The byte that is written is the last one of its cell, and no other cell has a new one.
    by_cases hij : j = i
    · subst hij; simp [hj]
    · simp [hij, Ne.symm hij]

/-! ## The chip -/

namespace Mbc1

variable (chip : Mbc1) (addr : UInt16) (value : UInt8)

/-- The cell of the RAM that an address names; none while the RAM is disabled. -/
def cell? : Option Nat :=
  if chip.ramEnabled then (ramWindow? addr).map (chip.ramBank.toNat * ramBankSize + ·) else none

/-- Only a write to 0x2000 up to 0x3FFF changes the ROM bank. -/
theorem romBank_write : (chip.write addr value).romBank =
    if 0x2000 ≤ addr ∧ addr < 0x4000 then max (value &&& 0x1F) 1 else chip.romBank := by
  unfold write
  grind

/-- Only a write to 0x4000 up to 0x5FFF changes the RAM bank. -/
theorem ramBank_write : (chip.write addr value).ramBank =
    if 0x4000 ≤ addr ∧ addr < 0x6000 then value &&& 0x03 else chip.ramBank := by
  unfold write
  grind

/-- Only a write below 0x2000 enables or disables the RAM. -/
theorem ramEnabled_write : (chip.write addr value).ramEnabled =
    if 0x0000 ≤ addr ∧ addr < 0x2000 then value &&& 0x0F == 0x0A else chip.ramEnabled := by
  unfold write
  grind

/-- A write changes the byte of RAM that its address names, and none without a name. -/
theorem ram_write : (chip.write addr value).ram =
    match chip.cell? addr with
    | some j => Storage.set chip.ram j value
    | none => chip.ram := by
  unfold write cell? ramWindow? ramOffset
  grind

/-- The first bank of the ROM, the selected one, and the byte of RAM that the address names. -/
theorem read_eq (rom : ByteArray) : chip.read rom addr =
    if addr < 0x4000 then Storage.getD rom addr.toNat openBus
    else if addr < 0x8000 then
      Storage.getD rom (chip.romBank.toNat * romBankSize + (addr.toNat - 0x4000)) openBus
    else match chip.cell? addr with
      | some j => Storage.getD chip.ram j openBus
      | none => openBus := by
  unfold read cell? ramWindow? ramOffset
  grind

/-- The chip has the registers and the saved bytes that a history says. -/
structure Tracks (past : History) : Prop where
  romBank : chip.romBank = past.romBank
  ramBank : chip.ramBank = past.ramBank
  ramEnabled : chip.ramEnabled = past.ramEnabled
  ram : past.Fills History.bankedCell? chip.ram

variable {chip} {past : History}

/-- A chip that nothing has been written to has no history. -/
theorem Tracks.fresh (ramSize : Nat) : (Mbc1.fresh ramSize).Tracks [] :=
  ⟨rfl, rfl, rfl, .zeros _ _⟩

/-- The chip and its history agree on the cell that an address names. -/
theorem Tracks.cell?_eq (h : chip.Tracks past) : chip.cell? addr = past.bankedCell? addr := by
  rw [cell?, History.bankedCell?, h.ramEnabled, h.ramBank]

/-- A write becomes the last one of the history. -/
theorem Tracks.write (h : chip.Tracks past) :
    (chip.write addr value).Tracks ((addr, value) :: past) where
  romBank := by rw [romBank_write, h.romBank]; rfl
  ramBank := by rw [ramBank_write, h.ramBank]; rfl
  ramEnabled := by rw [ramEnabled_write, h.ramEnabled]; rfl
  ram := by
    -- The cell is that of the registers before the write, for both.
    rw [ram_write, h.cell?_eq]
    exact h.ram.write addr value

end Mbc1

/-! ## Controllers -/

namespace Controller

/-- The controller has the registers and the saved bytes that a history says. -/
def Tracks : Controller → History → Prop
  | direct ram, past => past.Fills History.directCell? ram
  | mbc1 chip, past => chip.Tracks past

/-- A controller that has just been selected has no history. -/
theorem Tracks.ofType {code : UInt8} {ramSize : Nat} {c : Controller}
    (h : Controller.ofType code ramSize = .ok c) : c.Tracks [] := by
  unfold Controller.ofType at h
  split at h
  · cases h; exact .zeros _ _
  split at h
  · cases h; exact .fresh ramSize
  · cases h

/-- A write becomes the last one of the history. -/
theorem Tracks.write {c : Controller} {past : History} (h : c.Tracks past) (addr : UInt16)
    (value : UInt8) : (c.write addr value).Tracks ((addr, value) :: past) := by
  cases c with
  | mbc1 chip => exact Mbc1.Tracks.write addr value h
  | direct ram =>
    have hfills := History.Fills.write h addr value
    -- The bytes past the end of the RAM have a name as well, and a write to one is dropped.
    have hwrite : (direct ram).write addr value =
        direct (match History.directCell? past addr with
          | some j => Storage.set ram j value
          | none => ram) := by
      unfold Controller.write History.directCell? ramWindow?
      grind
    rw [hwrite]
    exact hfills

end Controller

/-! ## Cartridges -/

namespace Cartridge

/-- Performs writes, the first one first. -/
def writeAll (c : Cartridge) (writes : List (UInt16 × UInt8)) : Cartridge :=
  writes.foldl (fun c (addr, v) => c.write addr v) c

/-- What a cartridge without a chip reads after the writes of a history: the image, and the RAM that
its header declares. -/
structure ShowsDirectly (c : Cartridge) (image : ByteArray) (ramSize : Nat) (past : History) :
    Prop where
  rom : ∀ addr : UInt16, addr < 0x8000 →
    ∃ h : addr.toNat < image.size, c.read addr = image.get addr.toNat h
  ram : ∀ addr : UInt16, 0xA000 ≤ addr → addr < 0xC000 →
    c.read addr = if addr.toNat - 0xA000 < ramSize then
      past.lastSaved History.directCell? (addr.toNat - 0xA000) else 0

/-- What a cartridge with the MBC1 chip reads after the writes of a history: the first bank of the
image, the selected one, and the selected bank of the RAM while it is enabled. -/
structure ShowsBanks (c : Cartridge) (image : ByteArray) (romSize ramSize : Nat) (past : History) :
    Prop where
  rom : ∀ addr : UInt16, addr < 0x4000 →
    ∃ h : addr.toNat < image.size, c.read addr = image.get addr.toNat h
  banked : ∀ addr : UInt16, 0x4000 ≤ addr → addr < 0x8000 →
    let place := past.romBank.toNat * 0x4000 + (addr.toNat - 0x4000)
    c.read addr = if h : place < image.size then image.get place h else 0xFF
  /-- A bank that the header declares lies within the image. -/
  declared : past.romBank.toNat < romSize / romBankSize →
    ∀ i < 0x4000, past.romBank.toNat * 0x4000 + i < image.size
  ram : ∀ addr : UInt16, 0xA000 ≤ addr → addr < 0xC000 →
    let cell := past.ramBank.toNat * 0x2000 + (addr.toNat - 0xA000)
    c.read addr = if past.ramEnabled = true ∧ cell < min ramSize 0x8000 then
      past.lastSaved History.bankedCell? cell else 0xFF
  /-- Whether the RAM is enabled or not, and whatever bank is selected: no saved byte is lost. -/
  saved : ∀ cell < min ramSize 0x8000,
    Storage.getD c.controller.ram cell 0 = past.lastSaved History.bankedCell? cell

variable {image : ByteArray} {c : Cartridge}

/-- Performing writes puts them in front of the history. -/
theorem tracks_writeAll {past : History} (h : c.controller.Tracks past)
    (writes : List (UInt16 × UInt8)) :
    (c.writeAll writes).controller.Tracks (writes.reverse ++ past) := by
  -- Over the writes, the first one first: it becomes the past of the others.
  induction writes generalizing c past with
  | nil => exact h
  | cons first rest ih =>
    obtain ⟨addr, v⟩ := first
    rw [List.reverse_cons, List.append_assoc]
    exact ih (c := c.write addr v) (h.write addr v)

/-- Writes change nothing but the registers and the RAM of the controller. -/
theorem sameHardware_writeAll (c : Cartridge) (writes : List (UInt16 × UInt8)) :
    (c.writeAll writes).header = c.header ∧ (c.writeAll writes).rom = c.rom ∧
      (c.writeAll writes).controller.isMbc1 = c.controller.isMbc1 ∧
      (c.writeAll writes).controller.ram.size = c.controller.ram.size := by
  induction writes generalizing c with
  | nil => exact ⟨rfl, rfl, rfl, rfl⟩
  | cons first rest ih =>
    obtain ⟨addr, v⟩ := first
    obtain ⟨hheader, hrom, hkind, hsize⟩ := ih (c.write addr v)
    exact ⟨hheader, hrom, hkind.trans (Controller.isMbc1_write ..),
      hsize.trans (Controller.size_ram_write ..)⟩

end Cartridge

/-- The smallest size that a header can declare is 32 KiB. -/
theorem Header.le_romSize {h : Header} {size : Nat} (hsize : h.romSize = .ok size) :
    0x8000 ≤ size := by
  unfold romSize at hsize
  split at hsize
  · cases hsize
    rw [Nat.shiftLeft_eq]
    exact Nat.le_mul_of_pos_right _ (Nat.two_pow_pos _)
  · cases hsize

namespace Cartridge

variable {image : ByteArray} {c : Cartridge} {past : History} {romSize ramSize : Nat}

/-- What a cartridge without a chip reads is what the image and its history say. -/
theorem showsDirectly_of_tracks (h : c.controller.Tracks past) (hkind : c.controller.isMbc1 = false)
    (hrom : c.rom = image) (hlarge : 0x8000 ≤ image.size)
    (hsize : c.controller.ram.size = ramSize) : c.ShowsDirectly image ramSize past := by
  obtain ⟨header, rom, controller⟩ := c
  cases controller with
  | mbc1 chip => cases hkind
  | direct ram =>
    obtain rfl : rom = image := hrom
    obtain rfl : ram.size = ramSize := hsize
    constructor
    · intro addr hlt
      have hin : addr.toNat < rom.size := by
        have : addr.toNat < 0x8000 := UInt16.lt_iff_toNat_lt.mp hlt
        omega
      refine ⟨hin, ?_⟩
      rw [read, Controller.read, if_pos hlt, Storage.getD, dif_pos hin]
    · intro addr hge hlt
      have hpast : ¬addr < 0x8000 := UInt16.not_lt.mpr (UInt16.le_trans (by decide) hge)
      have hwindow : (0xA000 ≤ addr && addr < 0xC000) = true := by simp [hge, hlt]
      rw [read, Controller.read, if_neg hpast, if_pos hwindow, Storage.getD_eq_ite]
      -- RAM that ends within the window reads as zero behind its end.
      by_cases hin : addr.toNat - 0xA000 < ram.size
      · have hlast := h _ hin
        rw [if_pos hin, hlast]
        exact (if_pos hin).symm
      · rw [if_neg hin]
        exact (if_neg hin).symm

/-- What a cartridge with the chip reads is what the image and its history say. -/
theorem showsBanks_of_tracks (h : c.controller.Tracks past) (hkind : c.controller.isMbc1 = true)
    (hrom : c.rom = image) (hlarge : 0x8000 ≤ image.size) (hdeclared : romSize ≤ image.size)
    (hsize : c.controller.ram.size = min ramSize Mbc1.maxRamSize) :
    c.ShowsBanks image romSize ramSize past := by
  obtain ⟨header, rom, controller⟩ := c
  cases controller with
  | direct ram => cases hkind
  | mbc1 chip =>
    obtain rfl : rom = image := hrom
    have hchip : chip.Tracks past := h
    have hbytes : chip.ram.size = min ramSize 0x8000 := hsize
    constructor
    case rom =>
      intro addr hlt
      have hin : addr.toNat < rom.size := by
        have : addr.toNat < 0x4000 := UInt16.lt_iff_toNat_lt.mp hlt
        omega
      refine ⟨hin, ?_⟩
      rw [read, Controller.read, Mbc1.read_eq, if_pos hlt, Storage.getD, dif_pos hin]
    case banked =>
      intro addr hge hlt
      have hnot : ¬addr < 0x4000 := UInt16.not_lt.mpr hge
      rw [read, Controller.read, Mbc1.read_eq, if_neg hnot, if_pos hlt, hchip.romBank]
      rfl
    case declared =>
      intro hbank i hi
      -- The bank ends within the declared size, and the image is at least as long.
      have : (past.romBank.toNat + 1) * romBankSize ≤ romSize :=
        (Nat.le_div_iff_mul_le (by decide)).mp hbank
      unfold romBankSize at this
      omega
    case ram =>
      intro addr hge hlt
      -- The window of the RAM is beyond both halves of that of the ROM.
      have hnot : ¬addr < 0x4000 := UInt16.not_lt.mpr (UInt16.le_trans (by decide) hge)
      have hpast : ¬addr < 0x8000 := UInt16.not_lt.mpr (UInt16.le_trans (by decide) hge)
      have hwindow : ramWindow? addr = some (addr.toNat - 0xA000) := if_pos ⟨hge, hlt⟩
      rw [read, Controller.read, Mbc1.read_eq, if_neg hnot, if_neg hpast, hchip.cell?_eq,
        History.bankedCell?, hwindow]
      by_cases henabled : past.ramEnabled = true
      · rw [if_pos henabled]
        simp only [Option.map_some, henabled, true_and]
        rw [Storage.getD_eq_ite, hbytes]
        -- A bank that the RAM does not have reads as the open bus.
        by_cases hin : past.ramBank.toNat * 0x2000 + (addr.toNat - 0xA000) < min ramSize 0x8000
        · have hlast := hchip.ram _ (hbytes ▸ hin)
          exact (if_pos hin).trans (hlast.trans (if_pos hin).symm)
        · exact (if_neg hin).trans (if_neg hin).symm
      · simp only [henabled, Bool.false_eq_true, if_false, false_and]
        rfl
    case saved =>
      intro cell hcell
      exact hchip.ram cell (hbytes ▸ hcell)

/-- After any writes to a cartridge that was loaded from an image, every address of its windows reads
what the image and the writes say, and nothing but the registers and the RAM has changed. -/
theorem shows_of_load (hload : load image = .ok c) (writes : List (UInt16 × UInt8)) :
    let final := c.writeAll writes
    (final.header = c.header ∧ final.rom = image ∧
      final.controller.isMbc1 = c.controller.isMbc1 ∧
      final.controller.ram.size = c.controller.ram.size) ∧
    ∃ romSize ramSize, c.header.romSize = .ok romSize ∧ c.header.ramSize = .ok ramSize ∧
      (c.controller.isMbc1 = false → final.ShowsDirectly image ramSize writes.reverse) ∧
      (c.controller.isMbc1 = true → final.ShowsBanks image romSize ramSize writes.reverse) := by
  intro final
  obtain ⟨-, hrom, romSize, ramSize, hromSize, hle, hramSize, htype⟩ := load_eq_ok_iff.mp hload
  obtain ⟨hheader, hsame, hkind, hsize⟩ := c.sameHardware_writeAll writes
  have htracks := tracks_writeAll (.ofType htype) writes
  rw [List.append_nil] at htracks
  rw [hrom] at hsame
  -- The fixed windows lie within any declared size, and the image is at least as long as that.
  have hlarge : 0x8000 ≤ image.size := Nat.le_trans (Header.le_romSize hromSize) hle
  have hramBytes := hsize.trans (Controller.size_ram_ofType htype)
  refine ⟨⟨hheader, hsame, hkind, hsize⟩, romSize, ramSize, hromSize, hramSize, ?_, ?_⟩
  · intro hdirect
    rw [hdirect] at hkind hramBytes
    exact showsDirectly_of_tracks htracks hkind hsame hlarge hramBytes
  · intro hchip
    rw [hchip] at hkind hramBytes
    exact showsBanks_of_tracks htracks hkind hsame hlarge hle hramBytes

/-- A saved byte survives the RAM being disabled, the bank being switched and a write that finds the
RAM disabled; the image is too small for the bank that is selected. -/
theorem shows_of_load_reenabled :
    let final := Cartridge.sample.writeAll
      [(0x0000, 0x0A), (0x4000, 7), (0xA123, 5), (0x1FFF, 0x0B), (0xA123, 9), (0x4000, 1),
        (0x2000, 0x20), (0x3000, 0x62), (0x0100, 0xFA), (0x5FFF, 3)]
    final.read 0xA123 = 5 ∧ final.read 0x4000 = 0xFF := by
  obtain ⟨-, romSize, ramSize, -, hramSize, -, hbanks⟩ := shows_of_load load_sample
    [(0x0000, 0x0A), (0x4000, 7), (0xA123, 5), (0x1FFF, 0x0B), (0xA123, 9), (0x4000, 1),
      (0x2000, 0x20), (0x3000, 0x62), (0x0100, 0xFA), (0x5FFF, 3)]
  have hdeclared : Cartridge.sample.header.ramSize = .ok 0x8000 := by
    simp only [sample, sampleImage, Header.ramSize, Header.read, Storage.getD_set,
      Storage.size_set, Storage.size_zeros]
    rfl
  have hsize : sampleImage.size = 0x8000 := by
    simp only [sampleImage, Storage.size_set, Storage.size_zeros]
  obtain rfl : 0x8000 = ramSize := Except.ok.inj (hdeclared.symm.trans hramSize)
  refine ⟨(hbanks rfl).ram 0xA123 (by decide) (by decide), ?_⟩
  rw [(hbanks rfl).banked 0x4000 (by decide) (by decide)]
  -- The bank 2 begins where the image of 32 KiB ends.
  exact dif_neg (by rw [hsize]; decide)

end Cartridge

end GameBoy
