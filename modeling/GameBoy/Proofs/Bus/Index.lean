import GameBoy.Proofs.Bus.WellFormed
import GameBoy.Proofs.Cartridge.Ram
import GameBoy.Proofs.Transaction.Access

/-!
# Indices

The RAM is made of banks, and a bank of bytes, so an access to the RAM computes the number of a bank,
an offset within it, and a place in all banks together.  `Bus.indices` lists what an access at an
address computes, each with the length of what it points into.  The offsets are differences of
addresses, so they are integers here: an index is in range if it is neither negative nor past the
end.

Only the numbers of the selected banks come from registers.  If those banks exist (`BanksExist`), as
they do on a well-formed bus, then every index is in range, and so is every index of every access of
any transaction (`BanksExist.allInRange`), since each access leaves such a bus to the next one.  No
weaker condition would do (`banksExist_iff`).
-/

namespace GameBoy

/-- A position in something of a given length. -/
structure Index where
  position : Int
  length : Nat

/-- The position is one of those that there are. -/
def Index.InRange (i : Index) : Prop := 0 ≤ i.position ∧ i.position < i.length

/-- The indices that an access to a cartridge computes.  A byte of the ROM, or of RAM that is wired
directly, is only looked up if it is there, so all that is computed is an offset in the window.  The
chip computes a place in its RAM. -/
def Controller.indices (c : Controller) (addr : UInt16) : List Index :=
  if 0xA000 ≤ addr ∧ addr < 0xC000 then
    ⟨addr.toNat - 0xA000, ramBankSize⟩ ::
      match c with
      | direct _ => []
      | mbc1 chip =>
        if chip.HasRam addr then [⟨chip.ramOffset addr, chip.ram.size⟩] else []
  else if 0x4000 ≤ addr ∧ addr < 0x8000 then
    match c with
    | direct _ => []
    | mbc1 _ => [⟨addr.toNat - 0x4000, romBankSize⟩]
  else []

namespace Bus

/-- The indices that an access at an address computes. -/
def indices (bus : Bus VideoRam) (addr : UInt16) : List Index :=
  match Region.of bus.model addr with
  | .cartridge => bus.cartridge.controller.indices addr
  | .video =>
    [⟨bus.video.bank.toNat, 2⟩, ⟨addr.toNat % videoBankSize, videoBankSize⟩,
      ⟨VideoRam.offset bus.video.bank addr, 2 * videoBankSize⟩]
  | .workRam =>
    [⟨0, workRamBanks⟩, ⟨addr.toNat - 0xC000, workRamBankSize⟩,
      ⟨workRamOffset 0 addr, workRamBanks * workRamBankSize⟩]
  | .bankedWorkRam =>
    [⟨bus.workRamBank.toNat, workRamBanks⟩, ⟨addr.toNat - 0xD000, workRamBankSize⟩,
      ⟨workRamOffset bus.workRamBank addr, workRamBanks * workRamBankSize⟩]
  | .highRam => [⟨addr.toNat - 0xFF80, highRamSize⟩, ⟨highRamOffset addr, highRamSize⟩]
  | _ => []

/-- The indices that a write computes: a sprite copy reads a whole page. -/
def writeIndices (bus : Bus VideoRam) (addr : UInt16) (v : UInt8) : List Index :=
  match Region.of bus.model addr with
  | .spriteCopy => (spriteSources v).flatMap bus.indices
  | _ => bus.indices addr

end Bus

namespace Access

/-- Every index that an access computes is in range. -/
def InRange (bus : Bus VideoRam) : Access → Prop
  | read addr => ∀ i ∈ bus.indices addr, i.InRange
  | write addr v => ∀ i ∈ bus.writeIndices addr v, i.InRange
  | poll | acknowledge _ => True

/-- Every index that some accesses compute is in range.  Each access meets the bus that those before
it have left. -/
def AllInRange (bus : Bus VideoRam) : List Access → Prop
  | [] => True
  | access :: rest => access.InRange bus ∧ AllInRange (access.perform bus) rest

end Access

/-- An address in the RAM window lies at an offset within a bank. -/
private theorem ramOffset_inRange {addr : UInt16} (h : 0xA000 ≤ addr ∧ addr < 0xC000) :
    Index.InRange ⟨addr.toNat - 0xA000, ramBankSize⟩ := by
  simp only [UInt16.le_iff_toNat_le, UInt16.lt_iff_toNat_lt, UInt16.reduceToNat] at h
  simp only [Index.InRange, ramBankSize]
  omega

/-- A position that is a natural number cannot be negative. -/
private theorem inRange_natCast {n length : Nat} (h : n < length) : Index.InRange ⟨n, length⟩ :=
  ⟨Int.natCast_nonneg n, Int.ofNat_lt.mpr h⟩

/-- The high RAM is as long as its window. -/
private theorem highRamOffset_lt {addr : UInt16} (h : 0xFF80 ≤ addr.toNat ∧ addr.toNat < 0xFFFF) :
    Bus.highRamOffset addr < highRamSize := by
  unfold Bus.highRamOffset highRamSize
  omega

/-- The offsets within a cartridge lie in its windows, and the chip looks only into RAM that is
there. -/
theorem Controller.indices_inRange (c : Controller) (addr : UInt16) :
    ∀ i ∈ c.indices addr, i.InRange := by
  unfold indices
  by_cases hram : 0xA000 ≤ addr ∧ addr < 0xC000
  · rw [if_pos hram]
    refine List.forall_mem_cons.mpr ⟨ramOffset_inRange hram, ?_⟩
    cases c with
    | direct ram => exact List.forall_mem_nil _
    | mbc1 chip =>
      dsimp only
      by_cases hhas : chip.HasRam addr
      · rw [if_pos hhas]
        -- The chip looks a byte up only after it has compared the place with the size.
        exact List.forall_mem_cons.mpr ⟨inRange_natCast hhas.2.2.2, List.forall_mem_nil _⟩
      · rw [if_neg hhas]
        exact List.forall_mem_nil _
  rw [if_neg hram]
  by_cases hrom : 0x4000 ≤ addr ∧ addr < 0x8000
  · rw [if_pos hrom]
    cases c with
    | direct ram => exact List.forall_mem_nil _
    | mbc1 chip =>
      simp only [UInt16.le_iff_toNat_le, UInt16.lt_iff_toNat_lt, UInt16.reduceToNat] at hrom
      refine List.forall_mem_cons.mpr ⟨?_, List.forall_mem_nil _⟩
      simp only [Index.InRange, romBankSize]
      omega
  · rw [if_neg hrom]
    exact List.forall_mem_nil _

namespace Bus

variable {bus : Bus VideoRam}

/-- The selected banks are among those that there are. -/
structure BanksExist (bus : Bus VideoRam) : Prop where
  workRam_le : bus.workRamBank ≤ 7
  video_le : bus.video.bank ≤ 1

/-- On a well-formed bus the selected banks exist. -/
theorem WellFormed.banksExist (h : bus.WellFormed) : bus.BanksExist :=
  ⟨h.workRamBank_le, h.bank_video_le⟩

namespace BanksExist

/-- A write can only select banks that exist. -/
theorem write (h : bus.BanksExist) (addr : UInt16) (value : UInt8) :
    (bus.write addr value).BanksExist := by
  cases hregion : Region.of bus.model addr <;> simp only [Bus.write, hregion, copySprites]
  -- Only the two bank registers select, and each keeps no more bits than there are banks.
  case videoBank =>
    refine ⟨h.workRam_le, ?_⟩
    rw [VideoRam.bank_selectBank]
    exact UInt8.and_le_right
  case workRamBank => exact ⟨(selectedWorkRamBank_mem value).2, h.video_le⟩
  all_goals exact ⟨h.workRam_le, h.video_le⟩

/-- Every index that an access computes is in range if the selected banks exist. -/
theorem indices_inRange (h : bus.BanksExist) (addr : UInt16) :
    ∀ i ∈ bus.indices addr, i.InRange := by
  unfold indices
  cases hregion : Region.of bus.model addr <;>
    simp only [Region.of_eq_iff, Region.Contains, UInt16.le_iff_toNat_le, UInt16.lt_iff_toNat_lt,
      UInt16.reduceToNat] at hregion
  case cartridge => exact bus.cartridge.controller.indices_inRange addr
  -- In each window of the RAM: the bank exists, the offset lies within it, and so the place lies
  -- within all banks together.
  case video =>
    have hbank : bus.video.bank.toNat < 2 := Nat.lt_succ_of_le h.video_le
    have hoffset : Index.InRange ⟨addr.toNat % videoBankSize, videoBankSize⟩ := by
      simp only [Index.InRange, videoBankSize]
      omega
    have hplace := VideoRam.offset_lt h.video_le addr
    simp only [List.forall_mem_cons]
    exact ⟨inRange_natCast hbank, hoffset, inRange_natCast hplace, List.forall_mem_nil _⟩
  case workRam =>
    have hoffset : Index.InRange ⟨addr.toNat - 0xC000, workRamBankSize⟩ := by
      simp only [Index.InRange, workRamBankSize]
      omega
    have hplace : workRamOffset 0 addr < _ := workRamOffset_lt UInt8.zero_le addr
    simp only [List.forall_mem_cons]
    exact ⟨⟨by decide, by decide⟩, hoffset, inRange_natCast hplace, List.forall_mem_nil _⟩
  case bankedWorkRam =>
    have hbank : bus.workRamBank.toNat < workRamBanks := Nat.lt_succ_of_le h.workRam_le
    have hoffset : Index.InRange ⟨addr.toNat - 0xD000, workRamBankSize⟩ := by
      simp only [Index.InRange, workRamBankSize]
      omega
    have hplace := workRamOffset_lt h.workRam_le addr
    simp only [List.forall_mem_cons]
    exact ⟨inRange_natCast hbank, hoffset, inRange_natCast hplace, List.forall_mem_nil _⟩
  case highRam =>
    have hoffset : Index.InRange ⟨addr.toNat - 0xFF80, highRamSize⟩ := by
      simp only [Index.InRange, highRamSize]
      omega
    simp only [List.forall_mem_cons]
    exact ⟨hoffset, inRange_natCast (highRamOffset_lt hregion), List.forall_mem_nil _⟩
  -- The registers are no arrays.
  all_goals exact List.forall_mem_nil _

/-- Every index that a write computes is in range if the selected banks exist. -/
theorem writeIndices_inRange (h : bus.BanksExist) (addr : UInt16) (v : UInt8) :
    ∀ i ∈ bus.writeIndices addr v, i.InRange := by
  unfold writeIndices
  split
  · -- A sprite copy reads, and every read is in range.
    intro i hi
    obtain ⟨source, -, hi⟩ := List.mem_flatMap.mp hi
    exact h.indices_inRange source i hi
  · exact h.indices_inRange addr

/-- The selected banks exist after any access if they did before. -/
theorem perform (h : bus.BanksExist) (access : Access) : (access.perform bus).BanksExist := by
  cases access with
  | read addr => exact h
  | write addr v => exact h.write addr v
  | poll => exact h
  | acknowledge source => exact ⟨h.workRam_le, h.video_le⟩

/-- Every index that some accesses compute is in range if the banks that are selected before the first
one exist. -/
theorem allInRange (h : bus.BanksExist) (accesses : List Access) :
    Access.AllInRange bus accesses := by
  -- The first access meets this bus, and the others the one that it leaves.
  induction accesses generalizing bus with
  | nil => trivial
  | cons access rest ih =>
    refine ⟨?_, ih (h.perform access)⟩
    cases access with
    | read addr => exact h.indices_inRange addr
    | write addr v => exact h.writeIndices_inRange addr v
    | poll => trivial
    | acknowledge source => trivial

end BanksExist

/-- The window at 0xD000 shows the selected bank. -/
theorem workRamBank_le_of_indices (h : ∀ i ∈ bus.indices 0xD000, i.InRange) :
    bus.workRamBank ≤ 7 := by
  have hregion : Region.of bus.model 0xD000 = .bankedWorkRam :=
    Region.of_eq_iff.mpr ⟨by decide, by decide⟩
  rw [indices, hregion] at h
  exact Nat.le_of_lt_succ (Int.ofNat_lt.mp (List.forall_mem_cons.mp h).1.2)

/-- The window at 0x8000 shows the selected bank. -/
theorem bank_video_le_of_indices (h : ∀ i ∈ bus.indices 0x8000, i.InRange) :
    bus.video.bank ≤ 1 := by
  have hregion : Region.of bus.model 0x8000 = .video :=
    Region.of_eq_iff.mpr ⟨by decide, by decide⟩
  rw [indices, hregion] at h
  exact Nat.le_of_lt_succ (Int.ofNat_lt.mp (List.forall_mem_cons.mp h).1.2)

/-- The indices of all addresses are in range just if the selected banks exist. -/
theorem banksExist_iff :
    bus.BanksExist ↔ ∀ addr : UInt16, ∀ i ∈ bus.indices addr, i.InRange :=
  ⟨fun h addr => h.indices_inRange addr,
    fun h => ⟨workRamBank_le_of_indices (h 0xD000), bank_video_le_of_indices (h 0x8000)⟩⟩

end Bus

end GameBoy
