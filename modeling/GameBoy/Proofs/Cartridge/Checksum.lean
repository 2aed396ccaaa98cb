import Mathlib.Algebra.GroupWithZero.Nat
import GameBoy.Proofs.Cartridge.Loading

/-!
# The header checksum

Subtracting each byte and one more counts the bytes and their sum backwards (`toNat_checksum`).  So a
checksum is put together from those of the parts (`checksum_append`), in any order (`checksum_perm`),
and two runs of bytes that differ in one place have distinct checksums (`checksum_map_ne`).

The bytes 0x134 to 0x14C of an image have their checksum at 0x14D, right behind them.  One wrong byte
among all these is noticed, in the checksum or in what it covers, and no other byte plays a part
(`Header.checksum_detects`).
-/

namespace GameBoy

/-- What is subtracted does not depend on where the subtraction starts. -/
private theorem foldl_checksum (start : UInt8) (bytes : List UInt8) :
    bytes.foldl (fun sum b => sum - b - 1) start = start + checksum bytes := by
  -- The fold starts anywhere, so the sum so far stays open.
  induction bytes generalizing start with
  | nil => simp [checksum]
  | cons b rest ih =>
    rw [checksum, List.foldl_cons, List.foldl_cons, ih, ih (0 - b - 1)]
    grind

/-- The checksum of two runs of bytes is put together from theirs. -/
theorem checksum_append (xs ys : List UInt8) :
    checksum (xs ++ ys) = checksum xs + checksum ys := by
  rw [checksum, List.foldl_append, foldl_checksum]
  rfl

/-- The first byte takes itself and one more off the checksum of the others. -/
theorem checksum_cons (b : UInt8) (rest : List UInt8) :
    checksum (b :: rest) = checksum rest - b - 1 := by
  rw [checksum, List.foldl_cons, foldl_checksum]
  grind

/-- The order of the bytes does not matter, since each takes its part off the sum. -/
theorem checksum_perm {xs ys : List UInt8} (h : xs.Perm ys) : checksum xs = checksum ys := by
  induction h with
  | nil => rfl
  | cons b _ ih => rw [checksum_cons, checksum_cons, ih]
  | swap a b rest =>
    simp only [checksum_cons]
    grind
  | trans _ _ ih ih' => exact ih.trans ih'

/-- As a number the checksum is the negative of the sum and the number of the bytes. -/
theorem toNat_checksum (bytes : List UInt8) :
    ((checksum bytes).toNat : Int) =
      (-((bytes.map UInt8.toNat).sum : Int) - (bytes.length : Int)) % 256 := by
  -- Over the bytes: each takes itself and one more off, which wraps around as the remainder does.
  induction bytes with
  | nil => rfl
  | cons b rest ih =>
    have hb := b.toNat_lt
    have hrest := (checksum rest).toNat_lt
    have hone : (1 : UInt8).toNat = 1 := rfl
    rw [checksum_cons, UInt8.toNat_sub, UInt8.toNat_sub, hone, List.map_cons, List.sum_cons,
      List.length_cons]
    omega

/-- Bytes that differ at one place have distinct checksums. -/
theorem checksum_map_ne {ι : Type} {f g : ι → UInt8} {places : List ι} (hdistinct : places.Nodup)
    {i : ι} (hi : i ∈ places) (hne : f i ≠ g i) (hsame : ∀ j ∈ places, j ≠ i → f j = g j) :
    checksum (places.map f) ≠ checksum (places.map g) := by
  obtain ⟨before, after, rfl⟩ := List.append_of_mem hi
  have hapart := List.nodup_append.mp hdistinct
  have hbefore : before.map f = before.map g := by
    refine List.map_congr_left fun j hj => hsame j (List.mem_append_left _ hj) ?_
    exact hapart.2.2 j hj i (List.mem_cons_self ..)
  have hafter : after.map f = after.map g := by
    refine List.map_congr_left fun j hj =>
      hsame j (List.mem_append_right _ (List.mem_cons_of_mem _ hj)) ?_
    rintro rfl
    exact (List.nodup_cons.mp hapart.2.1).1 hj
  rw [List.map_append, List.map_append, List.map_cons, List.map_cons, hbefore, hafter,
    checksum_append, checksum_append, checksum_cons, checksum_cons]
  -- The parts before and after cancel, and what is left are the two bytes.
  intro heq
  exact hne (by grind)

namespace Header

/-- Two images whose headers differ in the byte at one offset and in no other. -/
def DiffersAt (offset : Nat) (image other : ByteArray) : Prop :=
  ∀ i, 0x134 ≤ i → i ≤ 0x14D → (Storage.getD other i 0 ≠ Storage.getD image i 0 ↔ i = offset)

variable {image other : ByteArray}

/-- The checksum of a header that is read from an image covers the 25 bytes before it. -/
theorem checksumMatches_read : (read image).checksumMatches = true ↔
    Storage.getD image 0x14D 0 = checksum ((List.range' 0x134 25).map (Storage.getD image · 0)) :=
  beq_iff_eq

/-- One wrong byte makes the checksum of a header wrong, or is the checksum itself. -/
theorem not_checksumMatches_of_differsAt (hmatches : (read image).checksumMatches = true)
    {offset : Nat} (hlow : 0x134 ≤ offset) (hhigh : offset ≤ 0x14D)
    (hdiffers : DiffersAt offset image other) : (read other).checksumMatches = false := by
  have hne : Storage.getD other offset 0 ≠ Storage.getD image offset 0 :=
    (hdiffers offset hlow hhigh).mpr rfl
  have hsame {i : Nat} (hi : 0x134 ≤ i) (hi' : i ≤ 0x14D) (hother : i ≠ offset) :
      Storage.getD other i 0 = Storage.getD image i 0 :=
    Classical.not_not.mp fun h => hother ((hdiffers i hi hi').mp h)
  rw [checksumMatches_read] at hmatches
  rw [Bool.eq_false_iff, ne_eq, checksumMatches_read]
  by_cases hlast : offset = 0x14D
  · -- The bytes that the checksum covers end right before it.
    subst hlast
    have hcovered : (List.range' 0x134 25).map (Storage.getD other · 0) =
        (List.range' 0x134 25).map (Storage.getD image · 0) := by
      refine List.map_congr_left fun i hi => ?_
      rw [List.mem_range'_1] at hi
      exact hsame hi.1 (by omega) (by omega)
    rw [hcovered, ← hmatches]
    exact hne
  · have hcovered : checksum ((List.range' 0x134 25).map (Storage.getD other · 0)) ≠
        checksum ((List.range' 0x134 25).map (Storage.getD image · 0)) := by
      refine checksum_map_ne List.nodup_range' (List.mem_range'_1.mpr ⟨hlow, by omega⟩) hne ?_
      intro i hi hother
      rw [List.mem_range'_1] at hi
      exact hsame hi.1 (by omega) hother
    rw [hsame (by decide) (by decide) (Ne.symm hlast), hmatches]
    exact hcovered.symm

/-- The bytes outside the header make no difference, as long as it is there. -/
theorem ofImage_congr {h : Header} (hheader : ofImage image = .ok h) (hsize : headerEnd ≤ other.size)
    (hsame : ∀ i, 0x134 ≤ i → i ≤ 0x14D → Storage.getD other i 0 = Storage.getD image i 0) :
    ofImage other = .ok h := by
  -- All fields of the header are read between these offsets.
  have hread : read image = read other := read_congr fun i hi => by
    obtain ⟨hlow, hhigh⟩ := mem_offsets.mp hi
    exact (hsame i hlow (by omega)).symm
  obtain ⟨-, hrom, hram, rfl⟩ := ofImage_eq_ok_iff.mp hheader
  rw [hread] at hrom hram ⊢
  exact ofImage_eq_ok_iff.mpr ⟨hsize, hrom, hram, rfl⟩

/-- A checksum is the negative of the sum and the number of the bytes, so it adds up and the order does
not matter.  A header whose checksum is right has a wrong one after any change of a single byte of
it, and keeps the right one whatever is changed elsewhere. -/
theorem checksum_detects :
    (∀ bytes : List UInt8, ((checksum bytes).toNat : Int) =
      (-((bytes.map UInt8.toNat).sum : Int) - (bytes.length : Int)) % 256) ∧
    (∀ xs ys, checksum (xs ++ ys) = checksum xs + checksum ys) ∧
    (∀ xs ys : List UInt8, xs.Perm ys → checksum xs = checksum ys) ∧
    ∀ image h, ofImage image = .ok h → h.checksumMatches = true →
      (∀ other h' offset, ofImage other = .ok h' → 0x134 ≤ offset → offset ≤ 0x14D →
        DiffersAt offset image other → h'.checksumMatches = false) ∧
      (∀ other, other.size = image.size →
        (∀ i, 0x134 ≤ i → i ≤ 0x14D → Storage.getD other i 0 = Storage.getD image i 0) →
        ∃ h', ofImage other = .ok h' ∧ h'.checksumMatches = true) := by
  refine ⟨toNat_checksum, checksum_append, fun _ _ => checksum_perm, ?_⟩
  intro image h hheader hmatches
  obtain ⟨hsize, -, -, hread⟩ := ofImage_eq_ok_iff.mp hheader
  refine ⟨fun other h' offset hother hlow hhigh hdiffers => ?_, fun other hlength hsame => ?_⟩
  · obtain ⟨-, -, -, rfl⟩ := ofImage_eq_ok_iff.mp hother
    exact not_checksumMatches_of_differsAt (hread ▸ hmatches) hlow hhigh hdiffers
  · exact ⟨h, ofImage_congr hheader (hlength ▸ hsize) hsame, hmatches⟩

/-- An image of 32 KiB that is zero but for its checksum. -/
def blankImage : ByteArray := Storage.set (Storage.zeros 0x8000) 0x14D 0xE7

/-- The bytes of the blank image after one of them is replaced. -/
private theorem getD_set_blankImage {i : Nat} (hi : i < 0x8000) (value : UInt8) (offset : Nat) :
    Storage.getD (Storage.set blankImage i value) offset 0 =
      if offset = i then value else if offset = 0x14D then 0xE7 else 0 := by
  simp only [blankImage, Storage.getD_set, Storage.size_set, Storage.size_zeros, hi, and_true,
    Storage.getD_zeros, Nat.reduceLT]

/-- A blank image is accepted whatever byte is written outside its size codes. -/
private theorem ofImage_set_blankImage {i : Nat} (hi : i < 0x8000) (hcodes : i ≠ 0x148 ∧ i ≠ 0x149)
    (value : UInt8) : ofImage (Storage.set blankImage i value) =
      .ok (read (Storage.set blankImage i value)) := by
  have hrom : (read (Storage.set blankImage i value)).romSizeCode = 0 := by
    simp only [read, getD_set_blankImage hi, Ne.symm hcodes.1, if_false, Nat.reduceEqDiff]
  have hram : (read (Storage.set blankImage i value)).ramSizeCode = 0 := by
    simp only [read, getD_set_blankImage hi, Ne.symm hcodes.2, if_false, Nat.reduceEqDiff]
  refine ofImage_eq_ok_iff.mpr ⟨?_, by rw [hrom]; decide, by rw [hram]; decide, rfl⟩
  rw [blankImage, Storage.size_set, Storage.size_set, Storage.size_zeros]
  decide

/-- A letter in the title of the blank image makes its checksum wrong, and code behind the header does
not. -/
theorem checksum_detects_blankImage :
    (∃ h, ofImage (Storage.set blankImage 0x134 0x41) = .ok h ∧ h.checksumMatches = false) ∧
      ∃ h, ofImage (Storage.set blankImage 0x150 0x76) = .ok h ∧ h.checksumMatches = true := by
  -- Writing its checksum once more leaves the blank image as it is.
  have hblank : ofImage (Storage.set blankImage 0x14D 0xE7) = .ok _ :=
    ofImage_set_blankImage (by decide) (by decide) 0xE7
  have hmatches : (read (Storage.set blankImage 0x14D 0xE7)).checksumMatches = true := by
    rw [checksumMatches_read]
    simp only [getD_set_blankImage (i := 0x14D) (by decide)]
    decide
  obtain ⟨hwrong, hright⟩ := checksum_detects.2.2.2 _ _ hblank hmatches
  refine ⟨?_, hright _ ?_ fun i hlow hhigh => ?_⟩
  · have htitle := ofImage_set_blankImage (i := 0x134) (by decide) (by decide) 0x41
    refine ⟨_, htitle, hwrong _ _ 0x134 htitle (by decide) (by decide) fun i hlow hhigh => ?_⟩
    rw [getD_set_blankImage (by decide), getD_set_blankImage (by decide)]
    by_cases hi : i = 0x134
    · subst hi; simp
    · simp [hi]
  · rw [Storage.size_set, Storage.size_set]
  · rw [getD_set_blankImage (by decide), getD_set_blankImage (by decide), if_neg (by omega)]
    by_cases hi : i = 0x14D <;> simp [hi]

end Header

end GameBoy
