import GameBoy.Bus

/-!
# Regions of the address space

`Region.of` sorts addresses by a chain of comparisons.  `Region.Contains` lists the addresses of
each region instead, and `Region.of_eq_iff` says that the two agree, so that a proof can go from a
region to its addresses and back without opening the chain.

`Region.affects` lists which regions a write to a region can change, and
`Bus.read_write_of_not_affects` says that reads of all others stay as they were.
-/

namespace GameBoy

namespace Region

/-- The addresses of each region. -/
def Contains (model : Model) (addr : UInt16) : Region → Prop
  | .cartridge => addr < 0x8000 ∨ 0xA000 ≤ addr ∧ addr < 0xC000
  | .video => 0x8000 ≤ addr ∧ addr < 0xA000
  | .workRam => 0xC000 ≤ addr ∧ addr < 0xD000
  | .bankedWorkRam => 0xD000 ≤ addr ∧ addr < 0xE000
  | .highRam => 0xFF80 ≤ addr ∧ addr < 0xFFFF
  | .interruptPending => addr = 0xFF0F
  | .interruptEnable => addr = 0xFFFF
  | .scanline => addr = 0xFF44
  | .spriteCopy => addr = 0xFF46
  | .videoBank => addr = 0xFF4F ∧ model = .cgb
  | .workRamBank => addr = 0xFF70 ∧ model = .cgb
  | .unmapped => 0xE000 ≤ addr ∧ addr < 0xFF80 ∧ addr ≠ 0xFF0F ∧ addr ≠ 0xFF44 ∧ addr ≠ 0xFF46 ∧
      ¬(addr = 0xFF4F ∧ model = .cgb) ∧ ¬(addr = 0xFF70 ∧ model = .cgb)

variable {model : Model} {addr : UInt16}

/-- An address lies in the region that the comparisons find. -/
private theorem contains_of (model : Model) (addr : UInt16) :
    (Region.of model addr).Contains model addr := by
  rw [Region.of]
  -- One comparison of the chain after the other; each leaves its outcome as a hypothesis.
  by_cases h1 : addr < 0x8000
  · rw [if_pos h1]; exact .inl h1
  rw [if_neg h1]
  by_cases h2 : addr < 0xA000
  · rw [if_pos h2]; exact ⟨UInt16.not_lt.mp h1, h2⟩
  rw [if_neg h2]
  by_cases h3 : addr < 0xC000
  · rw [if_pos h3]; exact .inr ⟨UInt16.not_lt.mp h2, h3⟩
  rw [if_neg h3]
  by_cases h4 : addr < 0xD000
  · rw [if_pos h4]; exact ⟨UInt16.not_lt.mp h3, h4⟩
  rw [if_neg h4]
  by_cases h5 : addr < 0xE000
  · rw [if_pos h5]; exact ⟨UInt16.not_lt.mp h4, h5⟩
  rw [if_neg h5]
  by_cases h6 : addr < 0xFF00
  · rw [if_pos h6]; simp only [Contains]; grind
  rw [if_neg h6]
  -- From here on the address lies in the last page.
  by_cases h7 : addr = enableAddress
  · rw [if_pos h7]; exact h7
  rw [if_neg h7]
  by_cases h8 : 0xFF80 ≤ addr
  · rw [if_pos h8]; simp only [Contains, enableAddress] at *; grind
  rw [if_neg h8]
  by_cases h9 : addr = pendingAddress
  · rw [if_pos h9]; exact h9
  rw [if_neg h9]
  by_cases h10 : addr = 0xFF44
  · rw [if_pos h10]; exact h10
  rw [if_neg h10]
  by_cases h11 : addr = 0xFF46
  · rw [if_pos h11]; exact h11
  rw [if_neg h11]
  by_cases h12 : (addr = 0xFF4F && model == .cgb) = true
  · rw [if_pos h12]; simpa [Contains] using h12
  rw [if_neg h12]
  by_cases h13 : (addr = 0xFF70 && model == .cgb) = true
  · rw [if_pos h13]; simpa [Contains] using h13
  rw [if_neg h13]
  -- The outcomes of all comparisons together rule out every other region.
  simp only [Contains, pendingAddress, Bool.and_eq_true, decide_eq_true_eq, beq_iff_eq] at *
  grind

/-- No address belongs to two regions. -/
private theorem eq_of_contains {r r' : Region} (h : r.Contains model addr)
    (h' : r'.Contains model addr) : r = r' := by
  -- The conditions of any two regions contradict each other.
  cases r <;> cases r' <;> first | rfl | (simp only [Contains] at h h'; grind)

/-- The region of an address is the one that contains it. -/
theorem of_eq_iff {r : Region} : Region.of model addr = r ↔ r.Contains model addr := by
  constructor
  · rintro rfl
    exact contains_of model addr
  · intro h
    exact eq_of_contains (contains_of model addr) h

/-- Whether a write to the first region can change what the second one reads.  The two halves of the
working RAM share their banks, and a bank register changes what is seen through its window. -/
def affects : Region → Region → Bool
  | .cartridge, .cartridge | .video, .video | .highRam, .highRam => true
  | .workRam, .workRam | .workRam, .bankedWorkRam => true
  | .bankedWorkRam, .workRam | .bankedWorkRam, .bankedWorkRam => true
  | .interruptPending, .interruptPending | .interruptEnable, .interruptEnable => true
  | .videoBank, .videoBank | .videoBank, .video => true
  | .workRamBank, .workRamBank | .workRamBank, .bankedWorkRam => true
  | _, _ => false

end Region

namespace VideoRam

/-- The sprite memory is not read at any address. -/
@[simp] theorem read_replaceSprites (v : VideoRam) (sprites : Block spriteMemorySize)
    (addr : UInt16) :
    VideoDevice.read (VideoDevice.replaceSprites v sprites) addr = VideoDevice.read v addr := rfl

/-- Replacing the sprites does not move the line that is drawn. -/
@[simp] theorem scanline_replaceSprites (v : VideoRam) (sprites : Block spriteMemorySize) :
    VideoDevice.scanline (VideoDevice.replaceSprites v sprites) = VideoDevice.scanline v := rfl

/-- A write does not move the line that is drawn. -/
@[simp] theorem scanline_write (v : VideoRam) (addr : UInt16) (value : UInt8) :
    VideoDevice.scanline (VideoDevice.write v addr value) = VideoDevice.scanline v := rfl

/-- Selecting a bank does not move the line that is drawn. -/
@[simp] theorem scanline_selectBank (v : VideoRam) (bank : UInt8) :
    VideoDevice.scanline (VideoDevice.selectBank v bank) = VideoDevice.scanline v := rfl

/-- Replacing the sprites changes no byte of video memory. -/
@[simp] theorem cells_replaceSprites (v : VideoRam) (sprites : Block spriteMemorySize) :
    (VideoDevice.replaceSprites v sprites).cells = v.cells := rfl

/-- Selecting a bank changes no byte of video memory. -/
@[simp] theorem cells_selectBank (v : VideoRam) (bank : UInt8) :
    (VideoDevice.selectBank v bank).cells = v.cells := rfl

/-- Replacing the sprites keeps the bank that is selected. -/
@[simp] theorem bank_replaceSprites (v : VideoRam) (sprites : Block spriteMemorySize) :
    (VideoDevice.replaceSprites v sprites).bank = v.bank := rfl

/-- A write keeps the bank that is selected. -/
@[simp] theorem bank_write (v : VideoRam) (addr : UInt16) (value : UInt8) :
    (VideoDevice.write v addr value).bank = v.bank := rfl

/-- Only the lowest bit of the number counts. -/
@[simp] theorem bank_selectBank (v : VideoRam) (bank : UInt8) :
    (VideoDevice.selectBank v bank).bank = bank &&& 1 := rfl

end VideoRam

namespace Bus

/-- The bytes of a page are numbered from 256 times its number. -/
theorem pageAddress_add (page : UInt8) (i : Nat) :
    pageAddress page + UInt16.ofNat i = UInt16.ofNat (256 * page.toNat + i) := by
  apply UInt16.toNat_inj.mp
  rw [UInt16.toNat_add, pageAddress, Word.toNat_ofBytes, UInt16.toNat_ofNat', UInt16.toNat_ofNat']
  simp

variable {V : Type} [VideoDevice V]

/-- No write changes the model. -/
@[simp] theorem model_write (bus : Bus V) (a : UInt16) (v : UInt8) :
    (bus.write a v).model = bus.model := by
  unfold write
  split <;> rfl

/-- A write to a region changes nothing that is read in a region that it does not affect. -/
theorem read_write_of_not_affects (bus : Bus VideoRam) {a b : UInt16} (v : UInt8)
    (h : (Region.of bus.model a).affects (Region.of bus.model b) = false) :
    (bus.write a v).read b = bus.read b := by
  rw [read, read, model_write]
  -- All pairs of a writer and a reader: either one affects the other, or the read sees a field that
  -- the write leaves alone.
  cases ha : Region.of bus.model a <;>
    simp only [write, ha, copySprites, VideoRam.read_replaceSprites,
      VideoRam.scanline_replaceSprites, VideoRam.scanline_write, VideoRam.scanline_selectBank] <;>
    cases hb : Region.of bus.model b <;>
    first | exact absurd h (by rw [ha, hb]; decide) | rfl

end Bus

end GameBoy
