import Mathlib.Algebra.Group.Nat.Defs
import GameBoy.Snapshot.Codec

/-!
# What codecs read back

A decoder *reads* a value from some bytes if it does so wherever they stand, leaves what follows them,
and asks for more whenever they are cut short (`Decoder.Reads`).  Sequencing keeps this, so a codec
that reads back what it writes (`Codec.Restores`) can be put together from codecs that do.

There is one lemma for each primitive codec and each combinator.
-/

namespace GameBoy.Snapshot

/-- A cursor between two byte strings. -/
def Cursor.between (behind ahead : ByteArray) : Cursor := ⟨behind ++ ahead, behind.size⟩

/-- With nothing behind it the cursor is at the start. -/
theorem Cursor.between_empty (ahead : ByteArray) : between ByteArray.empty ahead = ⟨ahead, 0⟩ := by
  rw [between, ByteArray.empty_append]
  rfl

/-! ## Decoders -/

/-- The decoder reads the value from exactly these bytes. -/
structure Decoder.Reads {α : Type} (d : Decoder α) (bytes : ByteArray) (a : α) : Prop where
  /-- What stands behind and ahead of the bytes is of no account. -/
  whole (behind ahead : ByteArray) :
    d.run (.between behind (bytes ++ ahead)) = .ok (a, .between (behind ++ bytes) ahead)
  /-- Fewer bytes are too few. -/
  cut (behind : ByteArray) (count : Nat) (h : count < bytes.size) :
    d.run (.between behind (bytes.extract 0 count)) = .error .unexpectedEnd

namespace Decoder.Reads

variable {α β : Type} {d : Decoder α} {f : α → Decoder β} {bytes bytes' : ByteArray} {a : α} {b : β}

/-- A decoder that is done reads no bytes. -/
theorem pure (a : α) : Reads (pure a) ByteArray.empty a where
  whole behind ahead := by rw [ByteArray.empty_append, ByteArray.append_empty]; rfl
  cut _ _ h := absurd h (Nat.not_lt_zero _)

/-- A sequence reads the bytes of both parts. -/
theorem bind (h : d.Reads bytes a) (h' : (f a).Reads bytes' b) :
    (d >>= f).Reads (bytes ++ bytes') b where
  whole behind ahead := by
    rw [StateT.run_bind, ByteArray.append_assoc, h.whole, ← ByteArray.append_assoc]
    exact h'.whole (behind ++ bytes) ahead
  cut behind count hcount := by
    rw [StateT.run_bind, ByteArray.extract_append, Nat.zero_sub]
    by_cases hfirst : count < bytes.size
    · -- The cut goes through the first part, and nothing is left of the second.
      rw [Nat.sub_eq_zero_of_le (Nat.le_of_lt hfirst), ByteArray.extract_same,
        ByteArray.append_empty, h.cut behind count hfirst]
      rfl
    -- The cut goes through the second part, and the first one is whole.
    · have hle : bytes.size ≤ count := Nat.le_of_not_lt hfirst
      have hextract : bytes.extract 0 count = bytes := by
        rw [← Nat.max_eq_left hle, ByteArray.extract_zero_max_size]
      have hsecond : count - bytes.size < bytes'.size := by
        rw [ByteArray.size_append] at hcount
        omega
      rw [hextract, h.whole]
      exact h'.cut (behind ++ bytes) _ hsecond

/-- A decoder that is done after its first part. -/
theorem bind_of_eq_pure (h : d.Reads bytes a) (hf : f a = Pure.pure b) :
    (d >>= f).Reads bytes b := by
  rw [← ByteArray.append_empty (b := bytes)]
  refine h.bind ?_
  rw [hf]
  exact .pure b

/-- The bytes are the same whatever is made of the value. -/
theorem map (h : d.Reads bytes a) (g : α → β) : (g <$> d).Reads bytes (g a) := by
  rw [← bind_pure_comp]
  exact h.bind_of_eq_pure rfl

/-- One byte is read. -/
theorem byte (b : UInt8) : Decoder.byte.Reads [b].toByteArray b where
  whole behind ahead := by
    -- The cursor is at the byte.
    have hlt : behind.size < (behind ++ ([b].toByteArray ++ ahead)).size := by
      simp only [ByteArray.size_append, List.size_toByteArray, List.length_singleton]
      omega
    have hget : (behind ++ ([b].toByteArray ++ ahead)).get behind.size hlt = b := by
      show (behind ++ ([b].toByteArray ++ ahead))[behind.size] = b
      simp [ByteArray.getElem_append_right, ByteArray.getElem_append_left]
    show Decoder.byte (.between behind _) = _
    rw [Decoder.byte, Cursor.between, dif_pos hlt, hget, Cursor.between, ByteArray.append_assoc,
      ByteArray.size_append]
    rfl
  cut behind count h := by
    -- Less than one byte is none.
    have hzero : count = 0 := Nat.lt_one_iff.mp h
    have hend : ¬behind.size < (behind ++ [b].toByteArray.extract 0 count).size := by
      simp [hzero]
    show Decoder.byte (.between behind _) = _
    rw [Decoder.byte, Cursor.between, dif_neg hend]

/-- As many bytes as are asked for are read. -/
theorem take (bytes : ByteArray) : (Decoder.take bytes.size).Reads bytes bytes where
  whole behind ahead := by
    have hle : behind.size + bytes.size ≤ (behind ++ (bytes ++ ahead)).size := by
      simp only [ByteArray.size_append]
      omega
    have hextract : (behind ++ (bytes ++ ahead)).extract behind.size (behind.size + bytes.size) =
        bytes := by
      -- The cut starts where the bytes behind the cursor end.
      have hshift := ByteArray.extract_append_size_add (a := behind) (b := bytes ++ ahead) (i := 0)
        (j := bytes.size)
      rw [Nat.add_zero] at hshift
      rw [hshift, ByteArray.extract_append_eq_left rfl]
    show Decoder.take _ (.between behind _) = _
    rw [Decoder.take, Cursor.between, if_pos hle, hextract, Cursor.between, ByteArray.append_assoc,
      ByteArray.size_append]
  cut behind count h := by
    have hend : ¬behind.size + bytes.size ≤ (behind ++ bytes.extract 0 count).size := by
      simp only [ByteArray.size_append, ByteArray.size_extract]
      omega
    show Decoder.take _ (.between behind _) = _
    rw [Decoder.take, Cursor.between, if_neg hend]

/-- The last group of a number. -/
private theorem number_of_lt {width groups shift value n : Nat} (hn : n < 128)
    (hvalue : value + n * 2 ^ shift < 2 ^ width) :
    (Decoder.number width (groups + 1) shift value).Reads (Codec.groups n).toByteArray
      (value + n * 2 ^ shift) := by
  have hbyte : (UInt8.ofNat n).toNat = n :=
    UInt8.toNat_ofNat_of_lt' (Nat.lt_trans hn (by decide))
  rw [Codec.groups, if_pos hn]
  refine (byte _).bind_of_eq_pure ?_
  rw [hbyte, if_pos hn, Nat.mod_eq_of_lt hn, if_pos hvalue]

/-- The first group of a number and what the other groups make up. -/
private theorem number_split (value shift n : Nat) :
    value + n % 128 * 2 ^ shift + n / 128 * 2 ^ (shift + 7) = value + n * 2 ^ shift := by
  calc value + n % 128 * 2 ^ shift + n / 128 * 2 ^ (shift + 7)
    _ = value + (n % 128 + 128 * (n / 128)) * 2 ^ shift := by
      rw [Nat.pow_add, Nat.add_mul, Nat.add_assoc]
      grind
    _ = value + n * 2 ^ shift := by rw [Nat.mod_add_div]

/-- A number is read from its groups if it fits with what has been read before. -/
theorem number {width groups shift value n : Nat} (hgroups : n < 2 ^ (7 * (groups + 1)))
    (hvalue : value + n * 2 ^ shift < 2 ^ width) :
    (Decoder.number width (groups + 1) shift value).Reads (Codec.groups n).toByteArray
      (value + n * 2 ^ shift) := by
  -- The induction is on the groups that may still be read, for any sum so far.
  induction groups generalizing shift value n with
  | zero => exact number_of_lt hgroups hvalue
  | succ groups ih =>
    by_cases hn : n < 128
    · exact number_of_lt hn hvalue
    -- There is another group, and the sum so far takes in the seven bits of this one.
    · have hbyte : (UInt8.ofNat (n % 128 + 128)).toNat = n % 128 + 128 :=
        UInt8.toNat_ofNat_of_lt' (by simp only [UInt8.size]; omega)
      have hgroups' : n / 128 < 2 ^ (7 * (groups + 1)) := by
        rw [Nat.mul_add 7 (groups + 1) 1, Nat.pow_add] at hgroups
        exact Nat.div_lt_of_lt_mul (by rwa [Nat.mul_comm])
      have hrest : value + n % 128 * 2 ^ shift + n / 128 * 2 ^ (shift + 7) < 2 ^ width := by
        rwa [number_split]
      have hreads := ih hgroups' hrest
      rw [number_split] at hreads
      rw [Codec.groups, if_neg hn, ← List.singleton_append, List.toByteArray_append]
      refine (byte _).bind ?_
      rw [hbyte, if_neg (by omega), Nat.add_mod_right, Nat.mod_mod]
      exact hreads

end Decoder.Reads

/-! ## Codecs -/

namespace Codec

variable {α β : Type} {codec : Codec α} {a : α}

/-- The codec reads back what it writes for a value. -/
def Restores (codec : Codec α) (a : α) : Prop := codec.decode.Reads (codec.encode a) a

/-- A value is read from the front of a byte string. -/
theorem Restores.decodeFrom_append (h : codec.Restores a) (ahead : ByteArray) :
    decodeFrom codec (codec.encode a ++ ahead) = .ok a := by
  have hwhole := h.whole ByteArray.empty ahead
  rw [Cursor.between_empty] at hwhole
  rw [decodeFrom, hwhole]
  rfl

/-- What is cut short is refused for want of bytes. -/
theorem Restores.decodeFrom_extract (h : codec.Restores a) {count : Nat}
    (hcount : count < (codec.encode a).size) :
    decodeFrom codec ((codec.encode a).extract 0 count) = .error .unexpectedEnd := by
  have hcut := h.cut ByteArray.empty count hcount
  rw [Cursor.between_empty] at hcut
  rw [decodeFrom, hcut]
  rfl

/-- What is written for a value does not begin with what is written for another. -/
theorem Restores.eq_of_encode_eq_append {a' : α} (h : codec.Restores a) (h' : codec.Restores a')
    {rest : ByteArray} (heq : codec.encode a' = codec.encode a ++ rest) :
    a' = a ∧ rest = ByteArray.empty := by
  -- Both values are read from the same bytes.
  have hdecode := h'.decodeFrom_append ByteArray.empty
  rw [ByteArray.append_empty, heq, h.decodeFrom_append] at hdecode
  obtain rfl : a = a' := Except.ok.inj hdecode
  refine ⟨rfl, ByteArray.size_eq_zero_iff.mp ?_⟩
  have hsize := congrArg ByteArray.size heq
  rw [ByteArray.size_append] at hsize
  omega

/-! ### Primitive codecs -/

/-- Nothing is written and nothing is read. -/
theorem restores_unit : unit.Restores () := .pure ()

/-- A byte stands for itself. -/
theorem restores_byte (b : UInt8) : byte.Restores b := .byte b

/-- Truth values are bytes that are 0 or 1. -/
theorem restores_bool (b : Bool) : bool.Restores b :=
  (Decoder.Reads.byte b.toUInt8).bind_of_eq_pure (by cases b <;> rfl)

/-- A number that fits in the width is read back. -/
theorem restores_number {width n : Nat} (hwidth : 0 < width) (h : n < 2 ^ width) :
    (number width).Restores n := by
  -- There are enough groups for a number of the width, and at least one.
  obtain ⟨groups, hgroups⟩ : ∃ groups, (width + 6) / 7 = groups + 1 :=
    ⟨(width + 6) / 7 - 1, by omega⟩
  have hle : 2 ^ width ≤ 2 ^ (7 * (groups + 1)) := Nat.pow_le_pow_right (by decide) (by omega)
  have hvalue : 0 + n * 2 ^ 0 = n := by omega
  have hreads : (Decoder.number width (groups + 1) 0 0).Reads (Codec.groups n).toByteArray
      (0 + n * 2 ^ 0) := .number (Nat.lt_of_lt_of_le h hle) (by rwa [hvalue])
  rw [hvalue, ← hgroups] at hreads
  exact hreads

/-- The bytes of a block are written without their number. -/
theorem restores_rawBlock {size : Nat} (block : Block size) : (rawBlock size).Restores block := by
  obtain ⟨bytes, rfl⟩ := block
  exact (Decoder.Reads.take bytes).bind_of_eq_pure (dif_pos rfl)

/-! ### Combinators -/

/-- A value that can be built from its view is read back if the view is. -/
theorem Restores.convert {view : β → α} {build : α → β} {b : β} (h : codec.Restores (view b))
    (hbuild : build (view b) = b) : (codec.convert view build).Restores b := by
  have hmap := h.map build
  rwa [hbuild] at hmap

/-- A pair is its first part and then its second. -/
theorem Restores.pair {first : Codec α} {second : Codec β} {v : α × β} (h : first.Restores v.1)
    (h' : second.Restores v.2) : (first.pair second).Restores v :=
  h.bind (h'.map fun b => (v.1, b))

/-- A tag that fits in 32 bits is read back. -/
theorem restores_tag {n : Nat} (h : n < 2 ^ 32) : tag.Restores n :=
  restores_number (by decide) h

/-- The first of two alternatives is read back by its own codec. -/
theorem Restores.either_inl {first : Codec α} {second : Codec β} {a : α} (h : first.Restores a) :
    (either first second).Restores (.inl a) :=
  (restores_tag (by decide)).bind (h.map Sum.inl)

/-- The second of two alternatives is read back by its own codec. -/
theorem Restores.either_inr {first : Codec α} {second : Codec β} {b : β} (h : second.Restores b) :
    (either first second).Restores (.inr b) :=
  (restores_tag (by decide)).bind (h.map Sum.inr)

/-- One of some values is read back from its index. -/
theorem restores_oneOf [BEq α] [LawfulBEq α] {values : List α} (h : a ∈ values)
    (hlength : values.length ≤ 2 ^ 32) : (oneOf values).Restores a := by
  have hindex : values.idxOf a < values.length := List.idxOf_lt_length_iff.mpr h
  have hget : values[values.idxOf a]? = some a := by
    rw [List.getElem?_eq_getElem hindex, List.getElem_idxOf]
  have htag : tag.Restores (values.idxOf a) := restores_tag (Nat.lt_of_lt_of_le hindex hlength)
  -- The first index of a value leads back to the value.
  exact htag.bind_of_eq_pure (by rw [hget])

/-! ### Numbers and byte strings -/

/-- Any word is read back. -/
theorem restores_word (w : UInt16) : word.Restores w :=
  Restores.convert (restores_number (by decide) w.toNat_lt) UInt16.ofNat_toNat

/-- Any counter is read back. -/
theorem restores_counter (n : UInt64) : counter.Restores n :=
  Restores.convert (restores_number (by decide) n.toNat_lt) UInt64.ofNat_toNat

/-- A length that fits in 64 bits is read back. -/
theorem restores_length {n : Nat} (h : n < 2 ^ 64) : length.Restores n :=
  restores_number (by decide) h

/-- Bytes that can be counted in 64 bits are read back. -/
theorem restores_bytes {b : ByteArray} (h : b.size < 2 ^ 64) : bytes.Restores b :=
  (restores_length h).bind (.take b)

/-- A block is read back as bytes of its size. -/
theorem restores_block {size : Nat} (hsize : size < 2 ^ 64) (b : Block size) :
    (block size).Restores b := by
  obtain ⟨b, rfl⟩ := b
  exact (restores_bytes hsize).bind_of_eq_pure (dif_pos rfl)

/-! ### Banked memory -/

/-- Byte strings one after the other. -/
def concat (parts : List ByteArray) : ByteArray := parts.foldl (· ++ ·) ByteArray.empty

/-- Parts are added behind what is already there. -/
private theorem foldl_append (parts : List ByteArray) (out : ByteArray) :
    parts.foldl (· ++ ·) out = out ++ concat parts := by
  induction parts generalizing out with
  | nil => exact ByteArray.append_empty.symm
  | cons part rest ih =>
    rw [concat, List.foldl_cons, List.foldl_cons, ih, ih, ByteArray.append_assoc,
      ByteArray.empty_append]

/-- The first part comes first. -/
theorem concat_cons (part : ByteArray) (rest : List ByteArray) :
    concat (part :: rest) = part ++ concat rest := by
  rw [concat, List.foldl_cons, foldl_append, ByteArray.empty_append]

/-- A bank that is not too long is read. -/
theorem reads_decodeBank {size : Nat} {bank : ByteArray} (h : bank.size ≤ size)
    (hlength : bank.size < 2 ^ 64) : (decodeBank size).Reads (bytes.encode bank) bank := by
  refine (restores_length hlength).bind ?_
  rw [if_pos h]
  exact .take bank

/-- Banks that are not too long are read one after the other. -/
theorem reads_decodeBanks {size : Nat} {list : List ByteArray} (h : ∀ bank ∈ list, bank.size ≤ size)
    (hlength : ∀ bank ∈ list, bank.size < 2 ^ 64) :
    (decodeBanks size list.length).Reads (concat (list.map bytes.encode)) list := by
  induction list with
  | nil => exact .pure []
  | cons bank rest ih =>
    rw [List.forall_mem_cons] at h hlength
    rw [List.map_cons, concat_cons]
    exact (reads_decodeBank h.1 hlength.1).bind ((ih h.2 hlength.2).map (bank :: ·))

/-- The banks of a block. -/
def bankList (count size : Nat) (b : ByteArray) : List ByteArray :=
  (List.range count).map fun i => b.extract (i * size) ((i + 1) * size)

/-- There are as many banks as were counted. -/
theorem length_bankList (count size : Nat) (b : ByteArray) :
    (bankList count size b).length = count := by
  rw [bankList, List.length_map, List.length_range]

/-- A bank is never longer than its size, though the last one may be shorter. -/
theorem size_le_of_mem_bankList {count size : Nat} {b bank : ByteArray}
    (h : bank ∈ bankList count size b) : bank.size ≤ size := by
  obtain ⟨i, -, rfl⟩ := List.mem_map.mp h
  rw [ByteArray.size_extract, Nat.add_mul, Nat.one_mul]
  omega

/-- The banks make up the bytes that they cover. -/
theorem concat_bankList (count size : Nat) (b : ByteArray) :
    concat (bankList count size b) = b.extract 0 (count * size) := by
  induction count with
  | zero =>
    rw [Nat.zero_mul, ByteArray.extract_same]
    rfl
  | succ count ih =>
    -- The last bank covers the bytes behind those of the others.
    have hsucc : bankList (count + 1) size b =
        bankList count size b ++ [b.extract (count * size) ((count + 1) * size)] := by
      rw [bankList, List.range_succ, List.map_append]
      rfl
    rw [hsucc, concat, List.foldl_append, ← concat, ih, List.foldl_cons, List.foldl_nil]
    exact (ByteArray.extract_eq_extract_append_extract _ (Nat.zero_le _)
      (Nat.mul_le_mul_right size (Nat.le_succ count))).symm

/-- The banks are written as their number and then each of them. -/
theorem encode_banks {count size : Nat} (b : Block (count * size)) :
    (banks count size).encode b =
      length.encode count ++ concat ((bankList count size b.bytes).map bytes.encode) := by
  -- The codec adds each bank to what it has written so far.
  rw [← foldl_append, bankList, List.map_map, List.foldl_map]
  rfl

/-- Banked memory is read back. -/
theorem restores_banks {count size : Nat} (hcount : count < 2 ^ 64) (hsize : size < 2 ^ 64)
    (b : Block (count * size)) : (banks count size).Restores b := by
  have hencode := encode_banks b
  obtain ⟨b, hb⟩ := b
  have hlength := length_bankList count size b
  have hconcat : concat (bankList count size b) = b := by
    rw [concat_bankList, ← hb, ByteArray.extract_zero_size]
  have hlist : (decodeBanks size (min count (count + 1))).Reads
      (concat ((bankList count size b).map bytes.encode)) (bankList count size b) := by
    -- There is no bank too many to be looked at.
    rw [Nat.min_eq_left (Nat.le_succ count)]
    have hreads : (decodeBanks size (bankList count size b).length).Reads _ _ :=
      reads_decodeBanks (fun _ => size_le_of_mem_bankList)
        fun _ hbank => Nat.lt_of_le_of_lt (size_le_of_mem_bankList hbank) hsize
    rwa [hlength] at hreads
  rw [Restores, hencode]
  refine (restores_length hcount).bind (hlist.bind_of_eq_pure ?_)
  -- The banks that have been read make up the block.
  have hsize' : (concat (bankList count size b)).size = count * size := by rw [hconcat, hb]
  refine (dif_pos hsize').trans ((if_pos hlength).trans (congrArg pure ?_))
  exact Block.ext_bytes hconcat

end Codec

end GameBoy.Snapshot
