import GameBoy.Proofs.Console.Invariant
import GameBoy.Proofs.Snapshot.Console

/-!
# Consoles that are read from bytes

A snapshot may have been written by anyone, so a console that is read from bytes need not be one that
a running console could be.  All that reading checks is lengths: the consoles that it can give are
those that can be stored (`Snapshot.exists_decodeFrom_iff`), with anything in their registers.

What such a console does is in range just if the two banks that it selects exist
(`Snapshot.restored_in_range_iff`), and it is well-formed for good if it is well-formed when it is
read.  `Decoder.Yields` bounds what a decoder gives, whatever bytes it meets.
-/

namespace GameBoy.Snapshot

/-! ## What decoders give -/

namespace Decoder

variable {α β : Type} {P : α → Prop} {Q : β → Prop} {d : Decoder α} {f : α → Decoder β}

/-- Everything that a decoder can read, wherever it reads, has a property. -/
def Yields (P : α → Prop) (d : Decoder α) : Prop :=
  ∀ cursor a rest, d.run cursor = .ok (a, rest) → P a

namespace Yields

/-- Nothing is known of what a decoder gives. -/
theorem any (d : Decoder α) : d.Yields fun _ => True := fun _ _ _ _ => trivial

/-- What follows from the property is also a property of the results. -/
theorem imp {P' : α → Prop} (h : d.Yields P) (hP : ∀ a, P a → P' a) : d.Yields P' :=
  fun cursor a rest hrun => hP a (h cursor a rest hrun)

/-- A decoder that is done gives its value. -/
theorem pure {a : α} (h : P a) : (Pure.pure a : Decoder α).Yields P := by
  intro cursor b rest hrun
  cases hrun
  exact h

/-- A decoder that fails gives nothing. -/
theorem throw (e : DecodeError) : (MonadExcept.throw e : Decoder α).Yields P := by
  intro cursor a rest hrun
  cases hrun

/-- The results of a sequence are those of its second part for results of the first. -/
theorem bind (hd : d.Yields P) (hf : ∀ a, P a → (f a).Yields Q) : (d >>= f).Yields Q := by
  intro cursor b rest hrun
  rw [StateT.run_bind] at hrun
  -- A sequence gives something only if its first part does.
  cases hfirst : d.run cursor with
  | error e =>
    rw [hfirst] at hrun
    cases hrun
  | ok result =>
    obtain ⟨a, middle⟩ := result
    rw [hfirst] at hrun
    exact hf a (hd cursor a middle hfirst) middle b rest hrun

/-- The results are those that are made of the results. -/
theorem map {g : α → β} (h : d.Yields fun a => Q (g a)) : (g <$> d).Yields Q := by
  rw [← bind_pure_comp]
  exact h.bind fun _ ha => .pure ha

/-- There are as many bytes as were asked for. -/
theorem take (count : Nat) : (Decoder.take count).Yields fun bytes => bytes.size = count := by
  intro cursor bytes rest hrun
  change Decoder.take count cursor = _ at hrun
  rw [Decoder.take] at hrun
  split at hrun
  -- The bytes are cut out only where there are enough of them.
  case isTrue hle =>
    cases hrun
    rw [ByteArray.size_extract, Nat.min_eq_left hle, Nat.add_sub_cancel_left]
  case isFalse => cases hrun

/-- A number is not read unless it fits. -/
theorem number (width groups shift value : Nat) :
    (Decoder.number width groups shift value).Yields (· < 2 ^ width) := by
  -- The sum is looked at only after the last group, so the induction says nothing of it before.
  induction groups generalizing shift value with
  | zero => exact .throw _
  | succ groups ih =>
    refine (any _).bind fun b _ => ?_
    dsimp only
    split
    · split
      case isTrue hfits => exact .pure hfits
      case isFalse => exact .throw _
    · exact ih _ _

end Yields

end Decoder

namespace Codec

open Decoder

variable {α β : Type} {P : α → Prop} {Q : β → Prop}

/-- What is read from the front of some bytes is a result of the decoder. -/
theorem yields_decodeFrom {codec : Codec α} {bytes : ByteArray} {a : α} (h : codec.decode.Yields P)
    (hdecode : decodeFrom codec bytes = .ok a) : P a := by
  rw [decodeFrom] at hdecode
  cases hrun : codec.decode.run ⟨bytes, 0⟩ with
  | error e =>
    rw [hrun] at hdecode
    cases hdecode
  | ok result =>
    rw [hrun] at hdecode
    cases hdecode
    exact h _ _ _ hrun

/-- Both parts of a pair are results of their decoders. -/
theorem yields_pair {first : Codec α} {second : Codec β} (h : first.decode.Yields P)
    (h' : second.decode.Yields Q) : (first.pair second).decode.Yields fun v => P v.1 ∧ Q v.2 :=
  h.bind fun _ ha => h'.bind fun _ hb => .pure ⟨ha, hb⟩

/-- An alternative is a result of the decoder that its tag names. -/
theorem yields_either {first : Codec α} {second : Codec β} {R : α ⊕ β → Prop}
    (h : first.decode.Yields fun a => R (.inl a)) (h' : second.decode.Yields fun b => R (.inr b)) :
    (either first second).decode.Yields R := by
  refine (Yields.any _).bind fun n _ => ?_
  split
  · exact h.map
  · exact h'.map
  -- There is no third alternative.
  · exact .throw _

/-- Bytes that have been read can be counted in 64 bits. -/
theorem yields_bytes : bytes.decode.Yields fun b => b.size < 2 ^ 64 := by
  refine (Yields.number 64 _ 0 0).bind fun count hcount => ?_
  exact (Yields.take count).imp fun b hb => by rwa [hb]

/-! ## The console -/

/-- The RAM of a controller that has been read can be counted in 64 bits. -/
theorem yields_controller : controller.decode.Yields fun c => c.ram.size < 2 ^ 64 := by
  have hmbc1 : mbc1.decode.Yields fun chip => chip.ram.size < 2 ^ 64 :=
    .map ((yields_pair yields_bytes (.any _)).imp fun _ h => h.1)
  exact .map (yields_either yields_bytes hmbc1)

/-- Only the lengths of the ROM and the cartridge RAM are bounded. -/
theorem yields_console : console.decode.Yields Console.Storable := by
  have hcartridge : cartridge.decode.Yields fun c =>
      c.rom.size < 2 ^ 64 ∧ c.controller.ram.size < 2 ^ 64 :=
    .map ((yields_pair (.any _) (yields_pair yields_bytes yields_controller)).imp fun _ h => h.2)
  have hbus : bus.decode.Yields fun b =>
      b.cartridge.rom.size < 2 ^ 64 ∧ b.cartridge.controller.ram.size < 2 ^ 64 :=
    .map ((yields_pair hcartridge (.any _)).imp fun _ h => h.1)
  exact .map ((yields_pair (.any _) hbus).imp fun _ h => ⟨h.2.1, h.2.2⟩)

/-- A console that can be stored is read from its snapshot. -/
theorem decodeFrom_encode {m : Console} (h : m.Storable) :
    decodeFrom console (console.encode m) = .ok m := by
  have happend := (restores_console h).decodeFrom_append ByteArray.empty
  rwa [ByteArray.append_empty] at happend

end Codec

open Console

/-- The consoles that can be read are those that can be stored.  No register is looked at. -/
theorem exists_decodeFrom_iff {m : Console} :
    (∃ bytes, Codec.decodeFrom Codec.console bytes = .ok m) ↔ m.Storable :=
  ⟨fun ⟨_, h⟩ => Codec.yields_decodeFrom Codec.yields_console h,
    fun h => ⟨_, Codec.decodeFrom_encode h⟩⟩

/-- Of a console that has been read no register is known, since every console that can be stored can
be read.  Whatever is done to it computes no index out of range just if the two banks that it selects
exist, and if it is well-formed it stays so. -/
theorem restored_in_range_iff {bytes : ByteArray} {m : Console}
    (h : Codec.decodeFrom Codec.console bytes = .ok m) :
    m.Storable ∧
      (∀ m' : Console, m'.Storable → ∃ bytes', Codec.decodeFrom Codec.console bytes' = .ok m') ∧
      ((∀ (σ : Type) (listener : Listener σ) (s : σ) (actions : List Action) (action : Action),
          action.InRange listener (run listener (m, s) actions)) ↔
        m.memory.workRamBank ≤ 7 ∧ m.memory.video.bank ≤ 1) ∧
      (m.memory.WellFormed →
        ∀ (σ : Type) (listener : Listener σ) (s : σ) (actions : List Action),
          (run listener (m, s) actions).1.memory.WellFormed) := by
  refine ⟨exists_decodeFrom_iff.mp ⟨bytes, h⟩, fun m' => exists_decodeFrom_iff.mpr, ⟨?_, ?_⟩, ?_⟩
  · -- The reads of all addresses are enough to see which banks are selected.
    intro hall
    have hbanks : m.memory.BanksExist :=
      Bus.banksExist_iff.mpr fun addr => hall Unit Listener.deaf () [] (.read addr)
    exact ⟨hbanks.workRam_le, hbanks.video_le⟩
  -- Every action keeps the two banks in existence, so a run does.
  · rintro ⟨hwork, hvideo⟩ σ listener s actions action
    have hrun := preserved_run Bus.BanksExist.preserved listener (c := (m, s)) ⟨hwork, hvideo⟩ actions
    exact inRange_of_banksExist listener hrun action
  · intro hwell σ listener s actions
    exact preserved_run Bus.WellFormed.preserved listener (c := (m, s)) hwell actions

/-- A console that is saved when it has been loaded, and read back, goes on in range. -/
theorem restored_in_range_iff_playing :
    Codec.decodeFrom Codec.console (Codec.console.encode (playing [])) = .ok (playing []) ∧
      (Action.read 0xD000).InRange Listener.deaf
        (run Listener.deaf (playing [], ()) [.write 0xFF70 0xC8, .step]) := by
  have hread := Codec.decodeFrom_encode (storable_playing [])
  have hbanks := (Started.load (load_playing [])).invariant.wellFormed.banksExist
  exact ⟨hread, (restored_in_range_iff hread).2.2.1.mpr ⟨hbanks.workRam_le, hbanks.video_le⟩
    Unit Listener.deaf () _ _⟩

/-- A console that selects a bank of working RAM far beyond the last one. -/
def strayed : Console :=
  { playing [] with memory := { (playing []).memory with workRamBank := 0xC8 } }

/-- It is read from bytes all the same, and its next access to the selected bank is out of range. -/
theorem not_restored_in_range :
    Codec.decodeFrom Codec.console (Codec.console.encode strayed) = .ok strayed ∧
      ¬strayed.memory.WellFormed ∧
      ¬(Action.read 0xD000).InRange Listener.deaf (strayed, ()) := by
  have hstray : ¬strayed.memory.workRamBank ≤ 7 := by decide
  -- The number of the bank is a byte like any other and is not in the way.
  have hstorable : strayed.Storable := ⟨(storable_playing []).rom, (storable_playing []).ram⟩
  exact ⟨Codec.decodeFrom_encode hstorable, fun h => hstray h.workRamBank_le,
    fun h => hstray (Bus.workRamBank_le_of_indices h)⟩

end GameBoy.Snapshot
