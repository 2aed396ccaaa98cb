import GameBoy.Proofs.Bus.WellFormed

/-!
# Cells of the console's RAM

Video memory and working RAM are banked, so an address alone does not say which byte it names.  A
`Cell` is a byte of the RAM itself: its kind, its bank and its offset.  `Cell.ofAddress?` is the cell
behind an address while given banks are selected.

Main statements: `Bus.read_of_cellAt?` (a read returns the contents of the cell that it names),
`Bus.cell_write` (a write replaces the contents of the cell that it names and of no other, selected
or not) and `Cell.ofAddress?_inj` (no cell is seen at two addresses at once).  `Bus.SameExcept` says
that some operations have changed no RAM but that at a few addresses, nor anything else on the bus
apart from the interrupt registers.
-/

namespace GameBoy

/-- A byte of the RAM of the console, whether its bank is selected or not. -/
inductive Cell where
  | video (bank : UInt8) (offset : Nat)
  | work (bank : UInt8) (offset : Nat)
  | high (offset : Nat)
  deriving DecidableEq

namespace Cell

/-- The cell that an address names while a bank of working RAM and a bank of video memory are
selected; `none` for an address outside the RAM. -/
def ofAddress? (workBank videoBank : UInt8) (addr : UInt16) : Option Cell :=
  if 0x8000 ≤ addr ∧ addr < 0xA000 then some (.video videoBank (addr.toNat - 0x8000))
  else if 0xC000 ≤ addr ∧ addr < 0xD000 then some (.work 0 (addr.toNat - 0xC000))
  else if 0xD000 ≤ addr ∧ addr < 0xE000 then some (.work workBank (addr.toNat - 0xD000))
  else if 0xFF80 ≤ addr ∧ addr < 0xFFFF then some (.high (addr.toNat - 0xFF80))
  else none

/-- Whether there is such a cell: its bank exists and its offset lies within the bank. -/
def Exists : Cell → Prop
  | .video bank offset => bank ≤ 1 ∧ offset < videoBankSize
  | .work bank offset => bank ≤ 7 ∧ offset < workRamBankSize
  | .high offset => offset < highRamSize

/-- The cell behind an address, by the region of the address. -/
theorem ofAddress?_eq (workBank videoBank : UInt8) (model : Model) (addr : UInt16) :
    ofAddress? workBank videoBank addr =
      match Region.of model addr with
      | .video => some (.video videoBank (addr.toNat - 0x8000))
      | .workRam => some (.work 0 (addr.toNat - 0xC000))
      | .bankedWorkRam => some (.work workBank (addr.toNat - 0xD000))
      | .highRam => some (.high (addr.toNat - 0xFF80))
      | _ => none := by
  -- Both sides ask where the address lies, each in its own way.
  cases h : Region.of model addr <;>
    simp only [Region.of_eq_iff, Region.Contains] at h <;>
    simp only [ofAddress?] <;> grind

/-- The addresses of the RAM name cells, whichever banks are selected. -/
theorem isSome_ofAddress? {workBank videoBank : UInt8} {addr : UInt16}
    (h : 0x8000 ≤ addr ∧ addr < 0xA000 ∨ 0xC000 ≤ addr ∧ addr < 0xE000 ∨
      0xFF80 ≤ addr ∧ addr < 0xFFFF) : (ofAddress? workBank videoBank addr).isSome = true := by
  unfold ofAddress?
  split; · rfl
  split; · rfl
  split; · rfl
  split; · rfl
  simp only [UInt16.le_iff_toNat_le, UInt16.lt_iff_toNat_lt, UInt16.reduceToNat] at *
  omega

/-- Selected banks that exist make addresses name cells that exist. -/
theorem exists_of_ofAddress? {workBank videoBank : UInt8} {addr : UInt16} {c : Cell}
    (hwork : workBank ≤ 7) (hvideo : videoBank ≤ 1)
    (h : ofAddress? workBank videoBank addr = some c) : c.Exists := by
  simp only [ofAddress?, UInt16.le_iff_toNat_le, UInt16.lt_iff_toNat_lt, UInt16.reduceToNat] at h
  split at h
  · cases h
    exact ⟨hvideo, by simp only [videoBankSize]; omega⟩
  split at h
  · cases h
    exact ⟨UInt8.zero_le, by simp only [workRamBankSize]; omega⟩
  split at h
  · cases h
    exact ⟨hwork, by simp only [workRamBankSize]; omega⟩
  split at h
  · cases h
    show addr.toNat - 0xFF80 < 0x7F
    omega
  · cases h

/-- No cell is seen at two addresses: the bank seen at 0xD000 is never the one at 0xC000. -/
theorem ofAddress?_inj {workBank videoBank : UInt8} {a b : UInt16} {c : Cell}
    (hwork : 1 ≤ workBank) (ha : ofAddress? workBank videoBank a = some c)
    (hb : ofAddress? workBank videoBank b = some c) : a = b := by
  have hne : workBank ≠ 0 := by
    rintro rfl
    exact absurd hwork (by decide)
  -- Two regions show cells of one kind only if they are the halves of the working RAM, and there the
  -- banks differ.
  simp only [ofAddress?, UInt16.le_iff_toNat_le, UInt16.lt_iff_toNat_lt, UInt16.reduceToNat] at ha hb
  rw [← UInt16.toNat_inj]
  grind

end Cell

/-- Whether a region shows the RAM of the console. -/
def Region.isRam : Region → Bool
  | .video | .workRam | .bankedWorkRam | .highRam => true
  | _ => false

/-- The addresses of video RAM, working RAM and high RAM. -/
def IsRamAddress (addr : UInt16) : Prop :=
  0x8000 ≤ addr ∧ addr < 0xA000 ∨ 0xC000 ≤ addr ∧ addr < 0xE000 ∨ 0xFF80 ≤ addr ∧ addr < 0xFFFF

/-- The regions of the RAM are made of its addresses, on either model. -/
theorem Region.isRam_of_iff {model : Model} {addr : UInt16} :
    (Region.of model addr).isRam = true ↔ IsRamAddress addr := by
  cases h : Region.of model addr <;> simp only [Region.of_eq_iff, Region.Contains] at h <;>
    simp only [isRam, IsRamAddress] <;> grind

namespace Bus

variable {bus : Bus VideoRam}

/-- The contents of a cell, whether its bank is selected or not. -/
def cell (bus : Bus VideoRam) : Cell → UInt8
  | .video bank offset => bus.video.cells.get (bank.toNat * videoBankSize + offset)
  | .work bank offset => bus.workRam.get (bank.toNat * workRamBankSize + offset)
  | .high offset => bus.highRam.get offset

/-- The cell that an address names at the moment. -/
def cellAt? (bus : Bus VideoRam) (addr : UInt16) : Option Cell :=
  Cell.ofAddress? bus.workRamBank bus.video.bank addr

/-- The cell that an address names, by the region of the address. -/
theorem cellAt?_eq (bus : Bus VideoRam) (addr : UInt16) :
    bus.cellAt? addr =
      match Region.of bus.model addr with
      | .video => some (.video bus.video.bank (addr.toNat - 0x8000))
      | .workRam => some (.work 0 (addr.toNat - 0xC000))
      | .bankedWorkRam => some (.work bus.workRamBank (addr.toNat - 0xD000))
      | .highRam => some (.high (addr.toNat - 0xFF80))
      | _ => none :=
  Cell.ofAddress?_eq ..

/-- The addresses in the regions of the RAM are those that name a cell. -/
theorem isSome_cellAt? (bus : Bus VideoRam) (addr : UInt16) :
    (bus.cellAt? addr).isSome = (Region.of bus.model addr).isRam := by
  rw [cellAt?_eq]
  cases Region.of bus.model addr <;> rfl

/-- On a well-formed bus only cells that exist are named. -/
theorem WellFormed.exists_of_cellAt? (h : bus.WellFormed) {addr : UInt16} {c : Cell}
    (hc : bus.cellAt? addr = some c) : c.Exists :=
  Cell.exists_of_ofAddress? h.workRamBank_le h.bank_video_le hc

/-! ## Selected banks -/

/-- Only the bank register of the colour model changes the bank seen at 0xD000. -/
theorem workRamBank_write (bus : Bus VideoRam) (addr : UInt16) (v : UInt8) :
    (bus.write addr v).workRamBank =
      if bus.model = .cgb ∧ addr = 0xFF70 then selectedWorkRamBank v else bus.workRamBank := by
  cases hregion : Region.of bus.model addr <;> simp only [write, hregion, copySprites] <;>
    rw [Region.of_eq_iff] at hregion <;> simp only [Region.Contains] at hregion
  case workRamBank => rw [if_pos hregion.symm]
  -- No other region contains the address of the register.
  all_goals exact (if_neg (by grind)).symm

/-- Only the bank register of the colour model changes the bank seen at 0x8000. -/
theorem bank_video_write (bus : Bus VideoRam) (addr : UInt16) (v : UInt8) :
    (bus.write addr v).video.bank =
      if bus.model = .cgb ∧ addr = 0xFF4F then v &&& 1 else bus.video.bank := by
  cases hregion : Region.of bus.model addr <;> simp only [write, hregion, copySprites] <;>
    rw [Region.of_eq_iff] at hregion <;> simp only [Region.Contains] at hregion
  case videoBank =>
    rw [if_pos hregion.symm, VideoRam.bank_selectBank, selectedVideoBank, UInt8.and_assoc]
    rfl
  all_goals exact (if_neg (by grind)).symm

/-- A write to the RAM moves no window. -/
theorem cellAt?_write {addr : UInt16} {c : Cell} (h : bus.cellAt? addr = some c) (v : UInt8)
    (addr' : UInt16) : (bus.write addr v).cellAt? addr' = bus.cellAt? addr' := by
  -- The address of a bank register names no cell.
  have hwork : ¬(bus.model = .cgb ∧ addr = 0xFF70) := by
    rintro ⟨-, rfl⟩
    exact absurd h (by simp [cellAt?, Cell.ofAddress?])
  have hvideo : ¬(bus.model = .cgb ∧ addr = 0xFF4F) := by
    rintro ⟨-, rfl⟩
    exact absurd h (by simp [cellAt?, Cell.ofAddress?])
  rw [cellAt?, cellAt?, workRamBank_write, bank_video_write, if_neg hwork, if_neg hvideo]

/-! ## Offsets

The bus and the video device take the lower bits of an address; a cell counts from the start of its
region. -/

/-- In a region that starts at a multiple of its size the lower bits count from its start. -/
private theorem mod_eq_sub {start size n : Nat} (hstart : start % size = 0) (hge : start ≤ n)
    (hlt : n < start + size) : n % size = n - start := by
  obtain ⟨offset, rfl⟩ := Nat.exists_eq_add_of_le hge
  have hoffset : offset < size := by omega
  rw [Nat.add_mod, hstart, Nat.zero_add, Nat.mod_mod, Nat.mod_eq_of_lt hoffset,
    Nat.add_sub_cancel_left]

/-- The device counts from the start of the window. -/
private theorem videoOffset_eq {bank : UInt8} {addr : UInt16} (h : 0x8000 ≤ addr ∧ addr < 0xA000) :
    VideoRam.offset bank addr = bank.toNat * videoBankSize + (addr.toNat - 0x8000) := by
  have hoffset : addr.toNat % videoBankSize = addr.toNat - 0x8000 := mod_eq_sub (by decide) h.1 h.2
  rw [VideoRam.offset, hoffset]

/-- The first half of the working RAM is counted from its start. -/
private theorem workRamOffset_eq {bank : UInt8} {addr : UInt16} (h : 0xC000 ≤ addr ∧ addr < 0xD000) :
    workRamOffset bank addr = bank.toNat * workRamBankSize + (addr.toNat - 0xC000) := by
  have hoffset : addr.toNat % workRamBankSize = addr.toNat - 0xC000 := mod_eq_sub (by decide) h.1 h.2
  rw [workRamOffset, hoffset]

/-- The second half of the working RAM is counted from its start. -/
private theorem bankedWorkRamOffset_eq {bank : UInt8} {addr : UInt16}
    (h : 0xD000 ≤ addr ∧ addr < 0xE000) :
    workRamOffset bank addr = bank.toNat * workRamBankSize + (addr.toNat - 0xD000) := by
  have hoffset : addr.toNat % workRamBankSize = addr.toNat - 0xD000 := mod_eq_sub (by decide) h.1 h.2
  rw [workRamOffset, hoffset]

/-- Cells of distinct banks, or at distinct offsets within a bank, have distinct places. -/
private theorem place_inj {bank bank' : UInt8} {size i j : Nat} (hi : i < size) (hj : j < size) :
    bank.toNat * size + i = bank'.toNat * size + j ↔ bank = bank' ∧ i = j := by
  constructor
  · intro h
    -- Division by the size of a bank gives its number back.
    have hbank (b : UInt8) {k : Nat} (hk : k < size) : (b.toNat * size + k) / size = b.toNat := by
      rw [Nat.mul_comm, Nat.mul_add_div (Nat.zero_lt_of_lt hk), Nat.div_eq_of_lt hk, Nat.add_zero]
    have heq : bank.toNat = bank'.toNat := by rw [← hbank bank hi, h, hbank bank' hj]
    rw [heq] at h
    exact ⟨UInt8.toNat_inj.mp heq, Nat.add_left_cancel h⟩
  · rintro ⟨rfl, rfl⟩
    rfl

/-! ## Reads and writes -/

/-- A read returns the contents of the cell that the address names. -/
theorem read_of_cellAt? {addr : UInt16} {c : Cell} (h : bus.cellAt? addr = some c) :
    bus.read addr = bus.cell c := by
  rw [cellAt?_eq] at h
  rw [read]
  -- The regions that show no RAM name no cell.
  cases hregion : Region.of bus.model addr <;> rw [hregion] at h <;> cases h
  case video =>
    show bus.video.cells.get (VideoRam.offset _ _) = _
    rw [videoOffset_eq (Region.of_eq_iff.mp hregion)]
    rfl
  case workRam =>
    show bus.workRam.get (workRamOffset _ _) = _
    rw [workRamOffset_eq (Region.of_eq_iff.mp hregion)]
    rfl
  case bankedWorkRam =>
    show bus.workRam.get (workRamOffset _ _) = _
    rw [bankedWorkRamOffset_eq (Region.of_eq_iff.mp hregion)]
    rfl
  case highRam => rfl

/-- A write to the video memory replaces the cell at its place. -/
private theorem cell_setVideo {bank : UInt8} {i : Nat} (hc : (Cell.video bank i).Exists)
    (v : UInt8) {c : Cell} (hc' : c.Exists) :
    ({ bus with video := { bus.video with
        cells := bus.video.cells.set (bank.toNat * videoBankSize + i) v } } : Bus VideoRam).cell c =
      if some (Cell.video bank i) = some c then v else bus.cell c := by
  cases c with
  | video bank' j =>
    -- The place lies inside the memory, so the write is not lost.
    have hlt : bank.toNat * videoBankSize + i < 2 * videoBankSize := by
      have hbank : bank.toNat ≤ 1 := hc.1
      have hi := hc.2
      simp only [videoBankSize] at *; omega
    simp only [cell, Block.get_set, place_inj hc'.2 hc.2, hlt, and_true, Option.some.injEq,
      Cell.video.injEq, eq_comm]
  | work => rfl
  | high => rfl

/-- A write to the working RAM replaces the cell at its place. -/
private theorem cell_setWork {bank : UInt8} {i : Nat} (hc : (Cell.work bank i).Exists)
    (v : UInt8) {c : Cell} (hc' : c.Exists) :
    ({ bus with workRam := bus.workRam.set (bank.toNat * workRamBankSize + i) v } :
        Bus VideoRam).cell c =
      if some (Cell.work bank i) = some c then v else bus.cell c := by
  cases c with
  | work bank' j =>
    have hlt : bank.toNat * workRamBankSize + i < workRamBanks * workRamBankSize := by
      have hbank : bank.toNat ≤ 7 := hc.1
      have hi := hc.2
      simp only [workRamBanks, workRamBankSize] at *; omega
    simp only [cell, Block.get_set, place_inj hc'.2 hc.2, hlt, and_true, Option.some.injEq,
      Cell.work.injEq, eq_comm]
  | video => rfl
  | high => rfl

/-- A write to the high RAM replaces the cell at its place. -/
private theorem cell_setHigh {i : Nat} (hc : (Cell.high i).Exists) (v : UInt8) (c : Cell) :
    ({ bus with highRam := bus.highRam.set i v } : Bus VideoRam).cell c =
      if some (Cell.high i) = some c then v else bus.cell c := by
  cases c with
  | high j =>
    have hlt : i < highRamSize := hc
    simp only [cell, Block.get_set, hlt, and_true, Option.some.injEq, Cell.high.injEq, eq_comm]
  | video => rfl
  | work => rfl

/-- A write replaces the contents of the cell that its address names and of no other cell, hidden
ones included.  A write to an address outside the RAM changes no cell. -/
theorem cell_write (h : bus.WellFormed) (addr : UInt16) (v : UInt8) {c : Cell} (hc : c.Exists) :
    (bus.write addr v).cell c = if bus.cellAt? addr = some c then v else bus.cell c := by
  have hexists {c' : Cell} (hc' : bus.cellAt? addr = some c') : c'.Exists := h.exists_of_cellAt? hc'
  -- The cell that is written exists too, so the two lie at one place only if they are the same.
  rw [cellAt?_eq] at hexists ⊢
  cases hregion : Region.of bus.model addr <;> simp only [write, hregion] at hexists ⊢
  case video =>
    show ({ bus with video := { bus.video with
      cells := bus.video.cells.set (VideoRam.offset bus.video.bank addr) v } } :
        Bus VideoRam).cell c = _
    rw [videoOffset_eq (Region.of_eq_iff.mp hregion), cell_setVideo (hexists rfl) v hc]
  case workRam =>
    rw [workRamOffset_eq (Region.of_eq_iff.mp hregion), cell_setWork (hexists rfl) v hc]
  case bankedWorkRam =>
    rw [bankedWorkRamOffset_eq (Region.of_eq_iff.mp hregion), cell_setWork (hexists rfl) v hc]
  case highRam =>
    have hi : (Cell.high (addr.toNat - 0xFF80)).Exists := hexists rfl
    exact cell_setHigh hi v c
  -- What is left writes no RAM.
  all_goals
    cases c <;> simp only [cell, copySprites, VideoRam.cells_replaceSprites,
      VideoRam.cells_selectBank, reduceCtorEq, if_false]

/-- A write to the RAM leaves the interrupt controller alone. -/
theorem interrupts_write_of_isRam {addr : UInt16} (h : (Region.of bus.model addr).isRam = true)
    (v : UInt8) : (bus.write addr v).interrupts = bus.interrupts := by
  cases hregion : Region.of bus.model addr <;> simp only [write, hregion] <;>
    rw [hregion] at h <;> cases h

/-! ## What stays the same -/

/-- Apart from the interrupt registers, nothing differs but the RAM at some addresses, hidden banks
included. -/
structure SameExcept (addrs : List UInt16) (bus bus' : Bus VideoRam) : Prop where
  cartridge : bus'.cartridge = bus.cartridge
  video : bus'.video = bus.video
  model : bus'.model = bus.model
  workRamBank : bus'.workRamBank = bus.workRamBank
  videoBank : bus'.videoBank = bus.videoBank
  cell : ∀ c : Cell, c.Exists → (∀ addr ∈ addrs, bus.cellAt? addr ≠ some c) →
    bus'.cell c = bus.cell c

namespace SameExcept

variable {addrs : List UInt16} {bus' bus'' : Bus VideoRam}

/-- Nothing differs from itself. -/
theorem refl (addrs : List UInt16) (bus : Bus VideoRam) : bus.SameExcept addrs bus :=
  ⟨rfl, rfl, rfl, rfl, rfl, fun _ _ _ => rfl⟩

/-- The same banks are selected, so the addresses name the same cells. -/
theorem cellAt?_eq (h : bus.SameExcept addrs bus') (addr : UInt16) :
    bus'.cellAt? addr = bus.cellAt? addr := by
  rw [cellAt?, cellAt?, h.workRamBank, h.video]

/-- Two changes at some addresses are together a change at these addresses. -/
theorem trans (h : bus.SameExcept addrs bus') (h' : bus'.SameExcept addrs bus'') :
    bus.SameExcept addrs bus'' where
  cartridge := h'.cartridge.trans h.cartridge
  video := h'.video.trans h.video
  model := h'.model.trans h.model
  workRamBank := h'.workRamBank.trans h.workRamBank
  videoBank := h'.videoBank.trans h.videoBank
  cell c hc hne := by
    -- The addresses name the same cells after the first change as before it.
    have hne' : ∀ addr ∈ addrs, bus'.cellAt? addr ≠ some c := by
      simpa only [h.cellAt?_eq] using hne
    rw [h'.cell c hc hne', h.cell c hc hne]

/-- Taking up a request changes an interrupt register alone. -/
theorem acknowledge (addrs : List UInt16) (bus : Bus VideoRam) (source : Interrupt) :
    bus.SameExcept addrs (Memory.acknowledge bus source) :=
  ⟨rfl, rfl, rfl, rfl, rfl, fun c _ _ => by cases c <;> rfl⟩

/-- A write to the working RAM or the high RAM. -/
theorem write (h : bus.WellFormed) {addr : UInt16} (hmem : addr ∈ addrs)
    (haddr : 0xC000 ≤ addr ∧ addr < 0xE000 ∨ 0xFF80 ≤ addr ∧ addr < 0xFFFF) (v : UInt8) :
    bus.SameExcept addrs (bus.write addr v) := by
  have hcell (c : Cell) (hc : c.Exists) (hne : ∀ addr ∈ addrs, bus.cellAt? addr ≠ some c) :
      (bus.write addr v).cell c = bus.cell c := by
    rw [cell_write h addr v hc, if_neg (hne addr hmem)]
  -- The fields by the region of the address, which is one of three.
  cases hregion : Region.of bus.model addr
  case workRam | bankedWorkRam | highRam =>
    constructor
    case cell => exact hcell
    all_goals simp only [Bus.write, hregion]
  all_goals
    rw [Region.of_eq_iff] at hregion
    simp only [Region.Contains] at hregion
    grind

end SameExcept

end Bus

end GameBoy
