import GameBoy.Proofs.Bus.Cell

/-!
# The RAM keeps what was written last

A history is a list of writes, the last one first.  It says which banks are selected
(`History.workRamBank`, `History.videoBank`), so which cell an address names (`History.cellAt?`), and
which byte was written last to a cell (`History.lastValue`), all without a bus.

`Bus.Tracks` relates a bus to the history of the writes to it.  Every write keeps the relation
(`Tracks.write`), whatever it is a write to, so a read of the RAM returns the byte that was written
last to the cell that the address names (`Bus.read_writeAll`).
-/

namespace GameBoy

/-- Writes to a bus, the last one first. -/
abbrev History := List (UInt16 × UInt8)

namespace History

/-- The byte that was written last to an address. -/
def lastWritten? (addr : UInt16) : History → Option UInt8
  | [] => none
  | (a, v) :: past => if a = addr then some v else lastWritten? addr past

/-- The bank of working RAM seen at 0xD000: the colour model has a register for it, which selects the
second bank for the first. -/
def workRamBank : Model → History → UInt8
  | .dmg, _ => 1
  | .cgb, past =>
    match lastWritten? 0xFF70 past with
    | some w => max (w &&& 7) 1
    | none => 1

/-- The bank of video memory seen at 0x8000: the colour model has a register for it. -/
def videoBank : Model → History → UInt8
  | .dmg, _ => 0
  | .cgb, past =>
    match lastWritten? 0xFF4F past with
    | some w => w &&& 1
    | none => 0

/-- The cell that an address names after the writes, by the banks that they have selected. -/
def cellAt? (model : Model) (past : History) (addr : UInt16) : Option Cell :=
  Cell.ofAddress? (workRamBank model past) (videoBank model past) addr

/-- The byte that was written last to a cell, zero if there was none.  Which cell a write goes to is
decided by the writes before it. -/
def lastValue (model : Model) (c : Cell) : History → UInt8
  | [] => 0
  | (a, v) :: past => if cellAt? model past a = some c then v else lastValue model c past

variable (model : Model) (past : History) (addr : UInt16) (v : UInt8)

/-- A further write changes the bank seen at 0xD000 only if it goes to the bank register. -/
theorem workRamBank_cons :
    workRamBank model ((addr, v) :: past) =
      if model = .cgb ∧ addr = 0xFF70 then max (v &&& 7) 1 else workRamBank model past := by
  cases model with
  | dmg => rfl
  | cgb =>
    by_cases haddr : addr = 0xFF70
    · simp only [workRamBank, lastWritten?, haddr, and_self, if_true]
    · simp only [workRamBank, lastWritten?, haddr, and_false, if_false]

/-- A further write changes the bank seen at 0x8000 only if it goes to the bank register. -/
theorem videoBank_cons :
    videoBank model ((addr, v) :: past) =
      if model = .cgb ∧ addr = 0xFF4F then v &&& 1 else videoBank model past := by
  cases model with
  | dmg => rfl
  | cgb =>
    by_cases haddr : addr = 0xFF4F
    · simp only [videoBank, lastWritten?, haddr, and_self, if_true]
    · simp only [videoBank, lastWritten?, haddr, and_false, if_false]

end History

namespace Bus

/-- Performs writes, the first one first. -/
def writeAll (bus : Bus VideoRam) (writes : List (UInt16 × UInt8)) : Bus VideoRam :=
  writes.foldl (fun bus (addr, v) => bus.write addr v) bus

/-- A bus has the banks and the contents of cells, hidden ones included, that a history says. -/
structure Tracks (bus : Bus VideoRam) (past : History) : Prop where
  workRamBank : bus.workRamBank = past.workRamBank bus.model
  videoBank : bus.video.bank = past.videoBank bus.model
  cell : ∀ c : Cell, c.Exists → bus.cell c = past.lastValue bus.model c

namespace Tracks

variable {bus : Bus VideoRam} {past : History}

/-- An assembled bus has no history: every cell is zero. -/
protected theorem assemble (cartridge : Cartridge) (model : Model) :
    (Bus.assemble cartridge VideoRam.empty model).Tracks [] where
  workRamBank := by cases model <;> rfl
  videoBank := by cases model <;> rfl
  cell c _ := by
    cases c with
    | video bank offset => exact Block.get_zero ..
    | work bank offset => exact Block.get_zero ..
    | high offset => exact Block.get_zero ..

/-- The bus and its history agree on the cell that an address names. -/
theorem cellAt?_eq (h : bus.Tracks past) (addr : UInt16) :
    bus.cellAt? addr = past.cellAt? bus.model addr := by
  rw [cellAt?, History.cellAt?, h.workRamBank, h.videoBank]

/-- A write becomes the last one of the history. -/
protected theorem write (h : bus.Tracks past) (hwf : bus.WellFormed) (addr : UInt16) (v : UInt8) :
    (bus.write addr v).Tracks ((addr, v) :: past) where
  workRamBank := by
    rw [workRamBank_write, model_write, History.workRamBank_cons, h.workRamBank]
    rfl
  videoBank := by rw [bank_video_write, model_write, History.videoBank_cons, h.videoBank]
  cell c hc := by
    -- The address names the same cell for the bus and for the history, before the write.
    rw [cell_write hwf addr v hc, model_write, h.cellAt?_eq, h.cell c hc]
    rfl

/-- Performing writes puts them in front of the history. -/
protected theorem writeAll (h : bus.Tracks past) (hwf : bus.WellFormed)
    (writes : List (UInt16 × UInt8)) :
    (bus.writeAll writes).Tracks (writes.reverse ++ past) ∧ (bus.writeAll writes).WellFormed := by
  -- Over the writes, the first one first: each finds a well-formed bus and becomes history for the
  -- rest.
  induction writes generalizing bus past with
  | nil => exact ⟨h, hwf⟩
  | cons first rest ih =>
    obtain ⟨addr, v⟩ := first
    have hrest := ih (h.write hwf addr v) (hwf.write addr v)
    rw [List.reverse_cons, List.append_assoc]
    exact hrest

end Tracks

/-- No write changes the model. -/
theorem model_writeAll (bus : Bus VideoRam) (writes : List (UInt16 × UInt8)) :
    (bus.writeAll writes).model = bus.model := by
  induction writes generalizing bus with
  | nil => rfl
  | cons first rest ih => exact (ih _).trans (model_write ..)

/-- After any writes to a freshly assembled bus, every address of the RAM names a cell that no other
address names, and a read returns the byte that was written last to that cell, under whatever
address, or zero if nothing was written to it. -/
theorem read_writeAll {image : ByteArray} {cartridge : Cartridge}
    (hload : Cartridge.load image = .ok cartridge) (model : Model)
    (writes : List (UInt16 × UInt8)) {addr : UInt16}
    (haddr : 0x8000 ≤ addr ∧ addr < 0xA000 ∨ 0xC000 ≤ addr ∧ addr < 0xE000 ∨
      0xFF80 ≤ addr ∧ addr < 0xFFFF) :
    ∃ c, History.cellAt? model writes.reverse addr = some c ∧
      (∀ addr', History.cellAt? model writes.reverse addr' = some c → addr' = addr) ∧
      ((Bus.assemble cartridge VideoRam.empty model).writeAll writes).read addr =
        History.lastValue model c writes.reverse := by
  have hstart : (Bus.assemble cartridge VideoRam.empty model).WellFormed :=
    .assemble (Cartridge.wellFormed_of_load hload) (by decide) model
  obtain ⟨htracks, hwf⟩ := (Tracks.assemble cartridge model).writeAll hstart writes
  have hmodel := model_writeAll (Bus.assemble cartridge VideoRam.empty model) writes
  -- From here on the bus can be any that tracks the writes.
  generalize (Bus.assemble cartridge VideoRam.empty model).writeAll writes = bus at *
  obtain rfl : bus.model = model := hmodel
  rw [List.append_nil] at htracks
  -- The history names cells as the bus does, so its cells can be looked up on the bus.
  simp only [← htracks.cellAt?_eq]
  have hram : (bus.cellAt? addr).isSome = true := Cell.isSome_ofAddress? haddr
  obtain ⟨c, hc⟩ := Option.isSome_iff_exists.mp hram
  refine ⟨c, hc, fun addr' hc' => ?_, ?_⟩
  · exact Cell.ofAddress?_inj hwf.workRamBank_pos hc' hc
  · rw [read_of_cellAt? hc, htracks.cell c (hwf.exists_of_cellAt? hc)]

/-- A byte in a hidden bank survives writes to the bank seen in its place. -/
theorem read_writeAll_hiddenBank :
    ((Bus.assemble .sample VideoRam.empty .cgb).writeAll
      [(0xFF70, 0), (0xD123, 5), (0xFF70, 2), (0xD123, 6), (0xFF46, 0xD0), (0xFF70, 1)]).read 0xD123
        = 5 := by
  obtain ⟨c, hc, -, hread⟩ := @read_writeAll _ _ Cartridge.load_sample .cgb
    [(0xFF70, 0), (0xD123, 5), (0xFF70, 2), (0xD123, 6), (0xFF46, 0xD0), (0xFF70, 1)] 0xD123
    (by decide)
  rw [hread]
  -- The bank is the one that the last write to the register has selected.
  obtain rfl : Cell.work 1 0x123 = c := Option.some.inj hc
  rfl

end Bus

end GameBoy
