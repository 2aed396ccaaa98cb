import GameBoy.Proofs.Console.Program
import GameBoy.Proofs.Snapshot.Codec
import GameBoy.Snapshot.Console

/-!
# Snapshots of the console are read back

The codec of every part of a console reads back what it writes, whatever the part holds.  The only
condition is that the lengths of the ROM and of the cartridge RAM can be counted in 64 bits
(`Console.Storable`).
-/

namespace GameBoy

/-- The lengths that a snapshot writes down are numbers of 64 bits, as those of all bytes that fit into
an address space are. -/
structure Console.Storable (m : Console) : Prop where
  rom : m.memory.cartridge.rom.size < 2 ^ 64
  ram : m.memory.cartridge.controller.ram.size < 2 ^ 64

/-- A controller has at most the RAM that the header asks for. -/
theorem Controller.size_ram_of_ofType {code : UInt8} {ramSize : Nat} {c : Controller}
    (h : ofType code ramSize = .ok c) : c.ram.size ≤ ramSize := by
  rw [size_ram_ofType h]
  -- Only one of the controllers puts a limit of its own on the size.
  split
  · exact Nat.min_le_left ..
  · exact Nat.le_refl ramSize

/-- A console that plays an image can be stored. -/
theorem Console.storable_of_load {image : ByteArray} {m : Console} (h : load image = .ok m)
    (hsize : image.size < 2 ^ 64) : m.Storable := by
  obtain ⟨cartridge, hload, rfl⟩ := assemble_of_load h
  obtain ⟨-, hrom, -, ramSize, -, -, hram, hcontroller⟩ := Cartridge.load_eq_ok_iff.mp hload
  refine ⟨?_, ?_⟩
  · show cartridge.rom.size < 2 ^ 64
    rwa [hrom]
  -- The header knows no RAM that would be too large.
  · have hle := Nat.le_trans (Controller.size_ram_of_ofType hcontroller) (Header.ramSize_le hram)
    exact Nat.lt_of_le_of_lt hle (by decide)

/-- A console that plays a program can be stored. -/
theorem Console.storable_playing (code : List UInt8) : (playing code).Storable :=
  storable_of_load (load_playing code) (by rw [Cartridge.size_programImage]; decide)

namespace Snapshot.Codec

/-! ## The processor -/

/-- Each flag is a truth value. -/
theorem restores_flags (f : Flags) : flags.Restores f :=
  .convert (.pair (restores_bool _) (.pair (restores_bool _) (.pair (restores_bool _)
    (restores_bool _)))) rfl

/-- A pending switch is stored with its target and the instructions that remain. -/
theorem restores_pendingSwitch (s : PendingSwitch) : pendingSwitch.Restores s := by
  cases s with
  | idle => exact .convert (.either_inl restores_unit) rfl
  | pending target remaining =>
    exact .convert (.either_inr (.pair (restores_bool target) (restores_byte remaining))) rfl

/-- An activity is one of those that there are. -/
theorem restores_activity (a : Activity) : activity.Restores a :=
  restores_oneOf (by cases a <;> decide) (by decide)

/-- The processor is its registers, one after the other. -/
theorem restores_cpu (c : Cpu) : cpu.Restores c :=
  .convert (.pair (restores_byte _) (.pair (restores_flags _) (.pair (restores_byte _)
    (.pair (restores_byte _) (.pair (restores_byte _) (.pair (restores_byte _)
    (.pair (restores_byte _) (.pair (restores_byte _) (.pair (restores_word _)
    (.pair (restores_word _) (.pair (restores_bool _) (.pair (restores_pendingSwitch _)
    (.pair (restores_activity _) (restores_counter _)))))))))))))) rfl

/-! ## The cartridge -/

/-- The header is its fields, one after the other. -/
theorem restores_header (h : Header) : header.Restores h :=
  .convert (.pair (restores_rawBlock _) (.pair (restores_rawBlock _) (.pair (restores_byte _)
    (.pair (restores_byte _) (.pair (restores_byte _) (.pair (restores_byte _)
    (.pair (restores_byte _) (restores_byte _)))))))) rfl

/-- The chip is its RAM and its registers. -/
theorem restores_mbc1 {c : Mbc1} (h : c.ram.size < 2 ^ 64) : mbc1.Restores c :=
  .convert (.pair (restores_bytes h) (.pair (restores_byte _) (.pair (restores_byte _)
    (restores_bool _)))) rfl

/-- A controller is stored behind the tag of its kind. -/
theorem restores_controller {c : Controller} (h : c.ram.size < 2 ^ 64) : controller.Restores c := by
  cases c with
  | direct ram => exact .convert (.either_inl (restores_bytes h)) rfl
  | mbc1 chip => exact .convert (.either_inr (restores_mbc1 h)) rfl

/-- The cartridge is its header, its ROM and its controller. -/
theorem restores_cartridge {c : Cartridge} (hrom : c.rom.size < 2 ^ 64)
    (hram : c.controller.ram.size < 2 ^ 64) : cartridge.Restores c :=
  .convert (.pair (restores_header _) (.pair (restores_bytes hrom) (restores_controller hram))) rfl

/-! ## The bus -/

/-- A set of sources is a byte. -/
theorem restores_interruptSet (s : InterruptSet) : interruptSet.Restores s :=
  .convert (restores_byte _) rfl

/-- The interrupt registers are two sets of sources. -/
theorem restores_interrupts (r : Interrupts) : interrupts.Restores r :=
  .convert (.pair (restores_interruptSet _) (restores_interruptSet _)) rfl

/-- A model is one of those that there are. -/
theorem restores_model (m : Model) : model.Restores m :=
  restores_oneOf (by cases m <;> decide) (by decide)

/-- The video memory is its banks, the sprites and two registers. -/
theorem restores_videoRam (v : VideoRam) : videoRam.Restores v :=
  .convert (.pair (restores_banks (by decide) (by decide) _)
    (.pair (restores_block (by decide) _) (.pair (restores_byte _) (restores_byte _)))) rfl

/-- The bus is all that is connected to it. -/
theorem restores_bus {b : Bus VideoRam} (hrom : b.cartridge.rom.size < 2 ^ 64)
    (hram : b.cartridge.controller.ram.size < 2 ^ 64) : bus.Restores b :=
  .convert (.pair (restores_cartridge hrom hram) (.pair (restores_videoRam _)
    (.pair (restores_model _) (.pair (restores_banks (by decide) (by decide) _)
    (.pair (restores_byte _) (.pair (restores_byte _) (.pair (restores_block (by decide) _)
    (restores_interrupts _)))))))) rfl

/-- Every console that can be stored is read back. -/
theorem restores_console {m : Console} (h : m.Storable) : console.Restores m :=
  .convert (.pair (restores_cpu _) (restores_bus h.rom h.ram)) rfl

end Snapshot.Codec

namespace Snapshot

/-- A snapshot that is cut short is refused for want of bytes, wherever the cut is; and no snapshot
begins with the snapshot of another console. -/
theorem truncated_refused {m : Console} (h : m.Storable) :
    (∀ count < (Codec.console.encode m).size,
      Codec.decodeFrom Codec.console ((Codec.console.encode m).extract 0 count) =
        .error .unexpectedEnd) ∧
    ∀ m' : Console, m'.Storable → ∀ rest : ByteArray,
      Codec.console.encode m' = Codec.console.encode m ++ rest →
        m' = m ∧ rest = ByteArray.empty :=
  ⟨fun _ hcount => (Codec.restores_console h).decodeFrom_extract hcount,
    -- If one snapshot began with another, the shorter one would be read from both.
    fun _ h' _ heq => (Codec.restores_console h).eq_of_encode_eq_append
      (Codec.restores_console h') heq⟩

/-- A snapshot is longer than the image that it holds. -/
theorem size_rom_le (m : Console) :
    m.memory.cartridge.rom.size ≤ (Codec.console.encode m).size := by
  -- The image comes after the processor, the header and its own length.
  show _ ≤ (_ ++ ((_ ++ ((_ ++ m.memory.cartridge.rom) ++ _)) ++ _) : ByteArray).size
  simp only [ByteArray.size_append]
  omega

/-- A snapshot that ends in the middle of the image. -/
theorem truncated_refused_image :
    Codec.decodeFrom Codec.console
      ((Codec.console.encode (Console.playing [])).extract 0 0x4000) = .error .unexpectedEnd := by
  refine (truncated_refused (Console.storable_playing [])).1 0x4000
    (Nat.lt_of_lt_of_le ?_ (size_rom_le _))
  show 0x4000 < (Cartridge.programImage []).size
  rw [Cartridge.size_programImage]
  decide

end Snapshot

end GameBoy
