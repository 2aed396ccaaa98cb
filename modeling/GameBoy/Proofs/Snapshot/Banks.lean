import GameBoy.Proofs.Snapshot.Codec

/-!
# Banked memory from byte strings

Banked memory is stored as a sequence of byte strings (`Codec.encodeSequence`).  Any byte strings can
be stored like that, but they are read back as memory only if there are as many as there are banks and
each has the size of a bank; then they are the banks, one after the other.  Everything else is refused
(`Codec.banks_restored_exactly`).

A decoder *refuses* some bytes if it fails on them wherever they stand (`Decoder.Refuses`).  As with
`Decoder.Reads`, sequencing keeps this.
-/

namespace GameBoy.Snapshot

namespace Decoder

variable {α β : Type} {d : Decoder α} {f : α → Decoder β} {bytes bytes' : ByteArray} {a : α}

/-- The decoder finds no value in these bytes, whatever stands behind and ahead of them. -/
def Refuses (d : Decoder α) (bytes : ByteArray) : Prop :=
  ∀ behind ahead, d.run (.between behind (bytes ++ ahead)) = .error .invalidValue

namespace Refuses

/-- The decoder that always refuses does so without any bytes. -/
theorem refuse (bytes : ByteArray) : (Decoder.refuse : Decoder α).Refuses bytes := fun _ _ => rfl

/-- What follows the bytes is not looked at any more. -/
theorem append (h : d.Refuses bytes) (more : ByteArray) : d.Refuses (bytes ++ more) := by
  intro behind ahead
  rw [ByteArray.append_assoc]
  exact h behind (more ++ ahead)

/-- What the first part refuses the sequence refuses. -/
theorem bind (h : d.Refuses bytes) (f : α → Decoder β) : (d >>= f).Refuses bytes := by
  intro behind ahead
  rw [StateT.run_bind, h]
  rfl

end Refuses

/-- A decoder that reads the first part and is refused the second. -/
theorem Reads.bind_refuses (h : d.Reads bytes a) (h' : (f a).Refuses bytes') :
    (d >>= f).Refuses (bytes ++ bytes') := by
  intro behind ahead
  rw [StateT.run_bind, ByteArray.append_assoc, h.whole]
  exact h' (behind ++ bytes) ahead

/-- A decoder that reads a value and does not accept it. -/
theorem Reads.refuses_of_eq (h : d.Reads bytes a) (hf : f a = Decoder.refuse) :
    (d >>= f).Refuses bytes := by
  rw [← ByteArray.append_empty (b := bytes)]
  refine h.bind_refuses ?_
  rw [hf]
  exact .refuse _

end Decoder

namespace Codec

open Decoder

/-! ## Parts of a sequence -/

/-- Parts and then more parts. -/
theorem concat_append (parts parts' : List ByteArray) :
    concat (parts ++ parts') = concat parts ++ concat parts' := by
  induction parts with
  | nil => exact (ByteArray.empty_append).symm
  | cons part rest ih => rw [List.cons_append, concat_cons, concat_cons, ih, ByteArray.append_assoc]

/-- Parts of at most some size make up as many bytes as parts of that size only if each of them has
it. -/
theorem size_concat {size : Nat} {parts : List ByteArray} (h : ∀ part ∈ parts, part.size ≤ size) :
    (concat parts).size ≤ parts.length * size ∧
      ((concat parts).size = parts.length * size ↔ ∀ part ∈ parts, part.size = size) := by
  induction parts with
  | nil => simp [concat]
  | cons part rest ih =>
    rw [List.forall_mem_cons] at h
    obtain ⟨hle, hiff⟩ := ih h.2
    rw [concat_cons, ByteArray.size_append, List.length_cons, Nat.succ_mul, List.forall_mem_cons,
      ← hiff]
    have hpart := h.1
    -- The sum reaches its bound just if the first part and the rest both reach theirs.
    constructor <;> omega

/-- A first part of the size of a bank is the first bank, and the others move up by one. -/
private theorem bankList_append {size : Nat} {bank : ByteArray} (h : bank.size = size) (count : Nat)
    (b : ByteArray) : bankList (count + 1) size (bank ++ b) = bank :: bankList count size b := by
  subst h
  rw [bankList, List.range_succ_eq_map, List.map_cons, List.map_map]
  congr 1
  · rw [Nat.zero_mul, Nat.zero_add, Nat.one_mul]
    exact ByteArray.extract_append_eq_left rfl
  -- Cutting behind the first part is cutting in the rest.
  · refine List.map_congr_left fun i _ => ?_
    have hshift (n : Nat) : bank.size + n * bank.size = (n + 1) * bank.size := by
      rw [Nat.succ_mul, Nat.add_comm]
    have hextract := ByteArray.extract_append_size_add (a := bank) (b := b) (i := i * bank.size)
      (j := (i + 1) * bank.size)
    rwa [hshift, hshift] at hextract

/-- Parts of the size of a bank are the banks of what they make up. -/
theorem bankList_concat {size : Nat} {parts : List ByteArray} (h : ∀ part ∈ parts, part.size = size) :
    bankList parts.length size (concat parts) = parts := by
  induction parts with
  | nil => rfl
  | cons part rest ih =>
    rw [List.forall_mem_cons] at h
    rw [concat_cons, List.length_cons, bankList_append h.1, ih h.2]

/-! ## Parts that are refused -/

/-- A bank that is too long is refused. -/
theorem refuses_decodeBank {size : Nat} {bank : ByteArray} (h : size < bank.size)
    (hlength : bank.size < 2 ^ 64) : (decodeBank size).Refuses (bytes.encode bank) := by
  refine (restores_length hlength).bind_refuses ?_
  rw [if_neg (Nat.not_le.mpr h)]
  -- The first byte too many is there, and with it the bank is refused.
  have hsplit : bank = bank.extract 0 (size + 1) ++ bank.extract (size + 1) bank.size := by
    rw [← ByteArray.extract_eq_extract_append_extract (size + 1) (Nat.zero_le _) h,
      ByteArray.extract_zero_size]
  have hfirst : (bank.extract 0 (size + 1)).size = size + 1 := by
    rw [ByteArray.size_extract, Nat.min_eq_left h, Nat.sub_zero]
  have htake : (Decoder.take (size + 1)).Reads (bank.extract 0 (size + 1))
      (bank.extract 0 (size + 1)) := by
    have hreads := Decoder.Reads.take (bank.extract 0 (size + 1))
    rwa [hfirst] at hreads
  rw [hsplit]
  exact (htake.map fun _ => ()).bind_refuses (.refuse _)

/-- Banks one of which is too long are refused. -/
theorem refuses_decodeBanks {size : Nat} {list : List ByteArray}
    (h : ∃ bank ∈ list, size < bank.size) (hlength : ∀ bank ∈ list, bank.size < 2 ^ 64) :
    (decodeBanks size list.length).Refuses (concat (list.map bytes.encode)) := by
  induction list with
  | nil => simp at h
  | cons bank rest ih =>
    rw [List.forall_mem_cons] at hlength
    rw [List.map_cons, concat_cons]
    -- The first bank may be the one that is too long; if it is not, it is read.
    by_cases hbank : size < bank.size
    · exact ((refuses_decodeBank hbank hlength.1).append _).bind _
    · have hrest : ∃ bank ∈ rest, size < bank.size := by
        simpa [hbank] using h
      exact (reads_decodeBank (Nat.le_of_not_lt hbank) hlength.1).bind_refuses
        ((ih hrest hlength.2).bind _)

/-! ## Sequences -/

/-- Byte strings as a sequence: their number, and then each of them. -/
def encodeSequence (parts : List ByteArray) : ByteArray :=
  length.encode parts.length ++ concat (parts.map bytes.encode)

/-- Byte strings that are the banks of some memory, all of them and none besides. -/
def AreBanks (count size : Nat) (parts : List ByteArray) : Prop :=
  parts.length = count ∧ ∀ part ∈ parts, part.size = size

variable {count size : Nat} {parts : List ByteArray}

/-- The banks of a block are banks. -/
theorem areBanks_bankList (b : Block (count * size)) :
    AreBanks count size (bankList count size b.bytes) := by
  refine ⟨length_bankList count size b.bytes, fun bank hbank => ?_⟩
  obtain ⟨i, hi, rfl⟩ := List.mem_map.mp hbank
  have hend : (i + 1) * size ≤ count * size := Nat.mul_le_mul_right size (List.mem_range.mp hi)
  rw [ByteArray.size_extract, b.size_bytes, Nat.min_eq_left hend, Nat.succ_mul,
    Nat.add_sub_cancel_left]

/-- The banks of some memory are read back as that memory. -/
theorem reads_banks (hparts : AreBanks count size parts) (hcount : parts.length < 2 ^ 64)
    (hlength : ∀ part ∈ parts, part.size < 2 ^ 64) :
    ∃ b : Block (count * size), bankList count size b.bytes = parts ∧
      (banks count size).decode.Reads (encodeSequence parts) b := by
  obtain ⟨rfl, hsize⟩ := hparts
  have hle : ∀ part ∈ parts, part.size ≤ size := fun part hpart => Nat.le_of_eq (hsize part hpart)
  have hwhole : (concat parts).size = parts.length * size := (size_concat hle).2.mpr hsize
  -- The memory is what the parts make up, so its banks are the parts again.
  refine ⟨⟨concat parts, hwhole⟩, bankList_concat hsize, (restores_length hcount).bind ?_⟩
  rw [Nat.min_eq_left (Nat.le_succ _)]
  refine (reads_decodeBanks hle hlength).bind_of_eq_pure ?_
  exact (dif_pos hwhole).trans (if_pos rfl)

/-- Anything but the banks of some memory is refused. -/
theorem refuses_banks (hparts : ¬AreBanks count size parts) (hcount : parts.length < 2 ^ 64)
    (hlength : ∀ part ∈ parts, part.size < 2 ^ 64) :
    (banks count size).decode.Refuses (encodeSequence parts) := by
  refine (restores_length hcount).bind_refuses ?_
  -- At most one bank too many is looked at.
  obtain ⟨seen, rest, rfl, hseen⟩ : ∃ seen rest, parts = seen ++ rest ∧
      seen.length = min parts.length (count + 1) :=
    ⟨_, _, (List.take_append_drop (count + 1) parts).symm, by rw [List.length_take, Nat.min_comm]⟩
  have hlength' : ∀ part ∈ seen, part.size < 2 ^ 64 := fun part hpart =>
    hlength part (List.mem_append_left rest hpart)
  rw [← hseen, List.map_append, concat_append]
  refine .append ?_ _
  -- Either the decoder stumbles over a long bank, or it reads them all and does not accept them.
  by_cases hlong : ∃ part ∈ seen, size < part.size
  · exact (refuses_decodeBanks hlong hlength').bind _
  · have hle : ∀ part ∈ seen, part.size ≤ size := fun part hpart =>
      Nat.le_of_not_lt fun hlt => hlong ⟨part, hpart, hlt⟩
    -- What has been read is neither too much nor too little only if it is all there is.
    have hcheck : ¬(seen.length = count ∧ (concat seen).size = count * size) := by
      rintro ⟨rfl, hwhole⟩
      rw [List.length_append] at hseen
      obtain rfl : rest = [] := List.length_eq_zero_iff.mp (by omega)
      refine hparts ⟨by rw [List.append_nil], ?_⟩
      rw [List.append_nil]
      exact (size_concat hle).2.mp hwhole
    refine (reads_decodeBanks hle hlength').refuses_of_eq ?_
    by_cases hwhole : (concat seen).size = count * size
    · exact (dif_pos hwhole).trans (if_neg fun hlen => hcheck ⟨hlen, hwhole⟩)
    · exact dif_neg hwhole

/-- Byte strings are read back as banked memory just if there is one for each bank and each has the
size of a bank; then they are its banks, in order.  A bank too many or too few, too long or too
short, is refused.  Memory that has been stored is read back from exactly the bytes that were
written. -/
theorem banks_restored_exactly (count size : Nat) :
    (∀ parts : List ByteArray, parts.length < 2 ^ 64 → (∀ part ∈ parts, part.size < 2 ^ 64) →
      (AreBanks count size parts → ∃ b : Block (count * size), bankList count size b.bytes = parts ∧
        (banks count size).decode.Reads (encodeSequence parts) b) ∧
      (¬AreBanks count size parts → (banks count size).decode.Refuses (encodeSequence parts))) ∧
    (count < 2 ^ 64 → size < 2 ^ 64 → ∀ b : Block (count * size),
      AreBanks count size (bankList count size b.bytes) ∧
        (banks count size).encode b = encodeSequence (bankList count size b.bytes) ∧
        (banks count size).decode.Reads ((banks count size).encode b) b) := by
  refine ⟨fun parts hcount hlength => ⟨fun hparts => reads_banks hparts hcount hlength,
    fun hparts => refuses_banks hparts hcount hlength⟩, fun hcount hsize b => ?_⟩
  refine ⟨areBanks_bankList b, ?_, ?_⟩
  · rw [encode_banks, encodeSequence, length_bankList]
  · exact restores_banks hcount hsize b

/-- Two banks of one byte each, and a second bank that is too long. -/
theorem banks_restored_exactly_pair :
    (∃ b : Block (2 * 1), bankList 2 1 b.bytes = [⟨#[5]⟩, ⟨#[7]⟩] ∧
      (banks 2 1).decode.Reads (encodeSequence [⟨#[5]⟩, ⟨#[7]⟩]) b) ∧
    (banks 2 1).decode.Refuses (encodeSequence [⟨#[5]⟩, ⟨#[7, 9]⟩]) ∧
    (banks 2 1).decode.Reads ((banks 2 1).encode (.zero _)) (.zero _) := by
  obtain ⟨hparts, hstored⟩ := banks_restored_exactly 2 1
  refine ⟨(hparts _ (by decide) (by decide)).1 ?_, (hparts _ (by decide) (by decide)).2 ?_,
    (hstored (by decide) (by decide) (.zero _)).2.2⟩
  · exact ⟨rfl, by decide⟩
  · exact fun h => absurd h.2 (by decide)

end Codec

end GameBoy.Snapshot
