import GameBoy.Cartridge.Basic

/-!
# Loading images

Loading an image makes one check after another, and asks for the declared sizes over and over again,
each time with a report if a code is unknown.  `Cartridge.Verdict` lists the ways in which it ends,
with everything that it has reported: a check that has been passed reports nothing when it is made
again, so there is one report for an error, and none but the last two for a cartridge.

`Cartridge.requirements` are the conditions on an image in the order of the checks.  The main statement
is `Cartridge.accepts_exactly`: an image is loaded if it meets them all, and otherwise refused with the
error of the first one that it does not meet.
-/

namespace GameBoy

namespace Loading

variable {α β : Type}

/-- Loading goes on with what it has. -/
theorem pure_bind (a : α) (f : α → Loading β) : (pure a >>= f) = f a := rfl

/-- Nothing is loaded after a refusal, and nothing is reported twice. -/
theorem refuse_bind (e : LoadError) (f : α → Loading β) : (refuse e >>= f) = refuse e := rfl

/-- What is reported comes before what the rest reports. -/
theorem report_bind (events : List Event) (f : Unit → Loading β) :
    (report events >>= f) = ⟨(f ()).result, events ++ (f ()).events⟩ := rfl

/-- A report can be the last thing to do. -/
theorem report_pure (events : List Event) (a : α) :
    (report events >>= fun _ => pure a) = ⟨.ok a, events⟩ :=
  congrArg (Loading.mk (.ok a)) (List.append_nil events)

/-- A check that is passed is not reported. -/
theorem check_ok (a : α) : check (.ok a) = pure a := rfl

/-- A check that is not passed is a refusal. -/
theorem check_error (e : LoadError) : (check (.error e) : Loading α) = refuse e := rfl

end Loading

namespace Header

variable {image : ByteArray} {h : Header}

/-! ## Declared sizes -/

/-- A size that is known is not reported again. -/
theorem declared_ok (size : Nat) : declared (.ok size) = pure size := rfl

/-- There are nine known codes for the ROM, and each one doubles the size. -/
theorem romSize_of_le (hcode : h.romSizeCode ≤ 8) :
    h.romSize = .ok (0x8000 <<< h.romSizeCode.toNat) :=
  if_pos hcode

/-- Other codes for the ROM are refused by number. -/
theorem romSize_of_not_le (hcode : ¬h.romSizeCode ≤ 8) :
    h.romSize = .error (.unknownRomSize h.romSizeCode) :=
  if_neg hcode

/-- There are six known codes for the RAM. -/
theorem ramSize_of_le (hcode : h.ramSizeCode ≤ 5) : ∃ size, h.ramSize = .ok size := by
  unfold ramSize
  split
  iterate 6 exact ⟨_, rfl⟩
  -- No other number is at most five.
  grind

/-- Other codes for the RAM are refused by number. -/
theorem ramSize_of_not_le (hcode : ¬h.ramSizeCode ≤ 5) :
    h.ramSize = .error (.unknownRamSize h.ramSizeCode) := by
  unfold ramSize
  split
  case h_7 => rfl
  -- In each of the other branches the code is one of the known ones.
  all_goals
    next hvalue =>
      rw [hvalue] at hcode
      exact absurd (by decide) hcode

/-- A header declares at most 8 MiB of ROM. -/
theorem romSize_le {size : Nat} (hsize : h.romSize = .ok size) : size ≤ 0x800000 := by
  by_cases hcode : h.romSizeCode ≤ 8
  · rw [romSize_of_le hcode] at hsize
    cases hsize
    -- The known codes end at eight, so the size is shifted by eight places at most.
    have hpow : 2 ^ h.romSizeCode.toNat ≤ 2 ^ 8 :=
      Nat.pow_le_pow_right (by decide) (UInt8.le_iff_toNat_le.mp hcode)
    rw [Nat.shiftLeft_eq]
    omega
  · rw [romSize_of_not_le hcode] at hsize
    cases hsize

/-- A header declares at most 128 KiB of RAM. -/
theorem ramSize_le {size : Nat} (hsize : h.ramSize = .ok size) : size ≤ 0x20000 := by
  unfold ramSize at hsize
  split at hsize <;> cases hsize <;> decide

/-! ## The bytes of a header -/

/-- The offsets of the bytes that a header is read from: those that the checksum covers, and the
checksum that the header declares. -/
def offsets : List Nat := List.range' 0x134 25 ++ [0x14D]

/-- Together they are one run of 26 bytes. -/
theorem mem_offsets {offset : Nat} :
    offset ∈ offsets ↔ 0x134 ≤ offset ∧ offset < 0x14E := by
  simp only [offsets, List.mem_append, List.mem_range'_1, List.mem_singleton]
  omega

/-- A header depends on the bytes at these offsets alone. -/
theorem read_congr {other : ByteArray}
    (hbytes : ∀ offset ∈ offsets, Storage.getD image offset 0 = Storage.getD other offset 0) :
    read image = read other := by
  have hbyte (offset : Nat) (hlow : 0x134 ≤ offset) (hhigh : offset < 0x14E) :
      Storage.getD image offset 0 = Storage.getD other offset 0 :=
    hbytes offset (mem_offsets.mpr ⟨hlow, hhigh⟩)
  have hchecksum : (List.range' 0x134 25).map (Storage.getD image · 0) =
      (List.range' 0x134 25).map (Storage.getD other · 0) := by
    refine List.map_congr_left fun offset hmem => ?_
    rw [List.mem_range'_1] at hmem
    exact hbyte offset hmem.1 (by omega)
  -- Two of the fields are blocks of bytes, and the others are read one by one.
  have htitle : Block.ofFn 11 (fun i => Storage.getD image (0x134 + i) 0) =
      .ofFn 11 fun i => Storage.getD other (0x134 + i) 0 :=
    Block.ofFn_congr fun i hi => hbyte (0x134 + i) (by omega) (by omega)
  have hmanufacturer : Block.ofFn 4 (fun i => Storage.getD image (0x13F + i) 0) =
      .ofFn 4 fun i => Storage.getD other (0x13F + i) 0 :=
    Block.ofFn_congr fun i hi => hbyte (0x13F + i) (by omega) (by omega)
  unfold read
  simp only [htitle, hmanufacturer, hchecksum]
  rw [hbyte 0x143 (by decide) (by decide), hbyte 0x147 (by decide) (by decide),
    hbyte 0x148 (by decide) (by decide), hbyte 0x149 (by decide) (by decide),
    hbyte 0x14D (by decide) (by decide)]

/-- Reading the header of an image looks only at bytes that the image has, and the sizes that it works
out fit into 32 bits. -/
structure Readable (image : ByteArray) : Prop where
  inside : ∀ offset ∈ offsets, offset < image.size
  complete : ∀ other : ByteArray,
    (∀ offset ∈ offsets, Storage.getD image offset 0 = Storage.getD other offset 0) →
    read image = read other
  romSize_lt : ∀ size, (read image).romSize = .ok size → size < 0x100000000
  ramSize_lt : ∀ size, (read image).ramSize = .ok size → size < 0x100000000

/-- A header that is there can be read in full. -/
theorem readable_of_le (hsize : headerEnd ≤ image.size) : Readable image where
  inside offset hoffset := by
    have hend := (mem_offsets.mp hoffset).2
    unfold headerEnd at hsize
    omega
  complete _ := read_congr
  romSize_lt _ hrom := Nat.lt_of_le_of_lt (romSize_le hrom) (by decide)
  ramSize_lt _ hram := Nat.lt_of_le_of_lt (ramSize_le hram) (by decide)

/-! ## Extraction -/

/-- An image that ends before its header does is refused at once. -/
theorem extract_of_lt (hsize : image.size < headerEnd) :
    extract image = .refuse (.headerMissing image.size) := if_pos hsize

/-- A header with an unknown code for the ROM is refused for it. -/
theorem extract_of_romSize_eq_error (hsize : headerEnd ≤ image.size) {e : LoadError}
    (hrom : (read image).romSize = .error e) : extract image = .refuse e := by
  rw [extract, if_neg (Nat.not_lt.mpr hsize)]
  simp only [hrom, Loading.check_error, Loading.refuse_bind]

/-- The code for the RAM is only looked at if the one for the ROM is known. -/
theorem extract_of_ramSize_eq_error (hsize : headerEnd ≤ image.size) {romSize : Nat} {e : LoadError}
    (hrom : (read image).romSize = .ok romSize) (hram : (read image).ramSize = .error e) :
    extract image = .refuse e := by
  rw [extract, if_neg (Nat.not_lt.mpr hsize)]
  simp only [hrom, hram, Loading.check_ok, Loading.check_error, Loading.pure_bind,
    Loading.refuse_bind]

/-- A header with known codes is extracted without a report. -/
theorem extract_eq_pure (hsize : headerEnd ≤ image.size) {romSize ramSize : Nat}
    (hrom : (read image).romSize = .ok romSize) (hram : (read image).ramSize = .ok ramSize) :
    extract image = pure (read image) := by
  rw [extract, if_neg (Nat.not_lt.mpr hsize)]
  simp only [hrom, hram, Loading.check_ok, Loading.pure_bind]

/-- A header with known codes is what is read from the image. -/
theorem ofImage_eq_ok (hsize : headerEnd ≤ image.size) {romSize ramSize : Nat}
    (hrom : (read image).romSize = .ok romSize) (hram : (read image).ramSize = .ok ramSize) :
    ofImage image = .ok (read image) := by
  rw [ofImage, extract_eq_pure hsize hrom hram]
  rfl

/-- An image that is long enough and has known size codes has the header that is read from it. -/
theorem ofImage_eq_ok_iff :
    ofImage image = .ok h ↔ headerEnd ≤ image.size ∧ (read image).romSizeCode ≤ 8 ∧
      (read image).ramSizeCode ≤ 5 ∧ h = read image := by
  constructor
  · intro hheader
    -- The checks in their order: each one that fails ends in its own error.
    by_cases hsize : headerEnd ≤ image.size
    case neg =>
      rw [ofImage, extract_of_lt (Nat.not_le.mp hsize)] at hheader
      cases hheader
    by_cases hrom : (read image).romSizeCode ≤ 8
    case neg =>
      rw [ofImage, extract_of_romSize_eq_error hsize (romSize_of_not_le hrom)] at hheader
      cases hheader
    by_cases hram : (read image).ramSizeCode ≤ 5
    case neg =>
      rw [ofImage, extract_of_ramSize_eq_error hsize (romSize_of_le hrom)
        (ramSize_of_not_le hram)] at hheader
      cases hheader
    obtain ⟨ramSize, hramSize⟩ := ramSize_of_le hram
    rw [ofImage_eq_ok hsize (romSize_of_le hrom) hramSize] at hheader
    exact ⟨hsize, hrom, hram, (Except.ok.inj hheader).symm⟩
  · rintro ⟨hsize, hrom, hram, rfl⟩
    obtain ⟨ramSize, hramSize⟩ := ramSize_of_le hram
    exact ofImage_eq_ok hsize (romSize_of_le hrom) hramSize

/-- A header that can be read is read without a report. -/
theorem extract_of_ofImage (hheader : ofImage image = .ok h) : extract image = pure h := by
  obtain ⟨hsize, hrom, hram, rfl⟩ := ofImage_eq_ok_iff.mp hheader
  obtain ⟨ramSize, hramSize⟩ := ramSize_of_le hram
  exact extract_eq_pure hsize (romSize_of_le hrom) hramSize

end Header

namespace Cartridge

variable {image : ByteArray}

/-! ## Verdicts -/

/-- The byte of an image at an offset; only offsets below the end of the header are used. -/
def byteAt (image : ByteArray) (offset : Nat) : UInt8 := Storage.getD image offset 0

/-- The size of the ROM that an image declares. -/
def declaredSize (image : ByteArray) : Nat := 0x8000 <<< (byteAt image 0x148).toNat

/-- The ways in which loading an image can end.  Each refusal comes with the checks that have been
passed before. -/
inductive Verdict (image : ByteArray) : Loading Cartridge → Prop where
  | headerMissing (short : ¬0x150 ≤ image.size) :
      Verdict image (.refuse (.headerMissing image.size))
  | unknownRomSize (long : 0x150 ≤ image.size) (unknown : ¬byteAt image 0x148 ≤ 8) :
      Verdict image (.refuse (.unknownRomSize (byteAt image 0x148)))
  | unknownRamSize (long : 0x150 ≤ image.size) (rom : byteAt image 0x148 ≤ 8)
      (unknown : ¬byteAt image 0x149 ≤ 5) :
      Verdict image (.refuse (.unknownRamSize (byteAt image 0x149)))
  | truncated (long : 0x150 ≤ image.size) (rom : byteAt image 0x148 ≤ 8)
      (ram : byteAt image 0x149 ≤ 5) (short : ¬declaredSize image ≤ image.size) :
      Verdict image (.refuse (.imageTruncated image.size (declaredSize image)))
  | unknownController (long : 0x150 ≤ image.size) (rom : byteAt image 0x148 ≤ 8)
      (ram : byteAt image 0x149 ≤ 5) (complete : declaredSize image ≤ image.size)
      (unknown : ¬byteAt image 0x147 ≤ 3) :
      Verdict image (.refuse (.unknownController (byteAt image 0x147)))
  | loaded {ramSize : Nat} {controller : Controller} (long : 0x150 ≤ image.size)
      (rom : byteAt image 0x148 ≤ 8) (ram : byteAt image 0x149 ≤ 5)
      (complete : declaredSize image ≤ image.size) (known : byteAt image 0x147 ≤ 3)
      (declared : (Header.read image).ramSize = .ok ramSize)
      (selected : Controller.ofType (byteAt image 0x147) ramSize = .ok controller) :
      Verdict image ⟨.ok ⟨Header.read image, image, controller⟩,
        .cartridgeLoaded (Header.read image).titleText controller.name
            (declaredSize image / romBankSize) (ramSize / ramBankSize) ::
          (Header.read image).checksumEvents⟩

/-- There is a controller for each of the four known types. -/
private theorem ofType_of_le {code : UInt8} (hcode : code ≤ 3) (ramSize : Nat) :
    ∃ controller, Controller.ofType code ramSize = .ok controller := by
  by_cases hzero : code = 0
  -- Type zero has no chip, and the other three have the same one.
  · exact ⟨_, if_pos hzero⟩
  · exact ⟨_, (if_neg hzero).trans (if_pos hcode)⟩

/-- A controller is only selected for a known type. -/
private theorem le_of_ofType {code : UInt8} {ramSize : Nat} {controller : Controller}
    (h : Controller.ofType code ramSize = .ok controller) : code ≤ 3 := by
  unfold Controller.ofType at h
  split at h
  · next hzero => rw [hzero]; decide
  split at h
  · next hle => exact hle
  · cases h

section Loaded

variable {header : Header} {romSize ramSize : Nat} {controller : Controller}

/-- Once the header is there, asking for its sizes again reports nothing. -/
theorem loading_eq (hheader : Header.extract image = pure header)
    (hrom : header.romSize = .ok romSize) (hsize : romSize ≤ image.size)
    (hram : header.ramSize = .ok ramSize)
    (hcontroller : Controller.ofType header.cartridgeType ramSize = .ok controller) :
    loading image = ⟨.ok ⟨header, image, controller⟩,
      .cartridgeLoaded header.titleText controller.name (romSize / romBankSize)
        (ramSize / ramBankSize) :: header.checksumEvents⟩ := by
  -- The steps in their order: header, ROM size, length, controller, RAM size, and the report.
  rw [loading, hheader, Loading.pure_bind, hrom, Header.declared_ok, Loading.pure_bind,
    if_neg (Nat.not_lt.mpr hsize), selectController, if_pos (le_of_ofType hcontroller), hram,
    Header.declared_ok, Loading.pure_bind, hcontroller, Loading.check_ok, Loading.pure_bind,
    Loading.pure_bind, Loading.pure_bind, Loading.report_bind, Loading.report_pure]
  rfl

/-- An image is loaded if its header can be read, it is as long as the header says, and its
controller is known. -/
theorem load_eq_ok (hheader : Header.ofImage image = .ok header) (hrom : header.romSize = .ok romSize)
    (hsize : romSize ≤ image.size) (hram : header.ramSize = .ok ramSize)
    (hcontroller : Controller.ofType header.cartridgeType ramSize = .ok controller) :
    load image = .ok { header, rom := image, controller } := by
  rw [load, loading_eq (Header.extract_of_ofImage hheader) hrom hsize hram hcontroller]

end Loaded

/-- Loading an image ends in one of these ways. -/
theorem verdict_loading (image : ByteArray) : Verdict image (loading image) := by
  -- The split follows the checks: each case runs the loading up to the first one that fails.
  by_cases hsize : headerEnd ≤ image.size
  case neg =>
    rw [loading, Header.extract_of_lt (Nat.not_le.mp hsize), Loading.refuse_bind]
    exact .headerMissing hsize
  by_cases hrom : (Header.read image).romSizeCode ≤ 8
  case neg =>
    rw [loading, Header.extract_of_romSize_eq_error hsize (Header.romSize_of_not_le hrom),
      Loading.refuse_bind]
    exact .unknownRomSize hsize hrom
  -- From here on the sizes are known, and what asks for them again gets the same answer.
  have hromSize : (Header.read image).romSize = .ok (declaredSize image) :=
    Header.romSize_of_le hrom
  by_cases hram : (Header.read image).ramSizeCode ≤ 5
  case neg =>
    rw [loading, Header.extract_of_ramSize_eq_error hsize hromSize (Header.ramSize_of_not_le hram),
      Loading.refuse_bind]
    exact .unknownRamSize hsize hrom hram
  obtain ⟨ramSize, hramSize⟩ := Header.ramSize_of_le hram
  have hheader := Header.extract_eq_pure hsize hromSize hramSize
  by_cases hcomplete : declaredSize image ≤ image.size
  case neg =>
    rw [loading, hheader, Loading.pure_bind, hromSize, Header.declared_ok, Loading.pure_bind,
      if_pos (Nat.not_le.mp hcomplete), refuseTruncated, hromSize]
    exact .truncated hsize hrom hram hcomplete
  by_cases hcontroller : (Header.read image).cartridgeType ≤ 3
  case neg =>
    rw [loading, hheader, Loading.pure_bind, hromSize, Header.declared_ok, Loading.pure_bind,
      if_neg (Nat.not_lt.mpr hcomplete), selectController, if_neg hcontroller, Loading.refuse_bind]
    exact .unknownController hsize hrom hram hcomplete hcontroller
  obtain ⟨controller, hselected⟩ := ofType_of_le hcontroller ramSize
  rw [loading_eq hheader hromSize hcomplete hramSize hselected]
  exact .loaded hsize hrom hram hcomplete hcontroller hramSize hselected

/-- There is no other way to load an image. -/
theorem load_eq_ok_iff {c : Cartridge} :
    load image = .ok c ↔
      Header.ofImage image = .ok c.header ∧ c.rom = image ∧
      ∃ romSize ramSize, c.header.romSize = .ok romSize ∧ romSize ≤ image.size ∧
        c.header.ramSize = .ok ramSize ∧
        Controller.ofType c.header.cartridgeType ramSize = .ok c.controller := by
  constructor
  · intro h
    have hverdict := verdict_loading image
    rw [load] at h
    -- Only the last verdict has a cartridge for its result.
    generalize loading image = outcome at h hverdict
    cases hverdict with
    | loaded long rom ram complete known declared selected =>
      cases h
      have hromSize : (Header.read image).romSize = .ok (declaredSize image) :=
        Header.romSize_of_le rom
      exact ⟨Header.ofImage_eq_ok long hromSize declared, rfl, _, _, hromSize, complete, declared,
        selected⟩
    | _ => cases h
  · rintro ⟨hheader, rfl, romSize, ramSize, hrom, hsize, hram, hcontroller⟩
    exact load_eq_ok hheader hrom hsize hram hcontroller

/-! ## Requirements -/

/-- The conditions on an image, in the order in which they are checked.  Each comes with the error of
an image that does not meet it. -/
def requirements (image : ByteArray) : List (Bool × LoadError) :=
  [(0x150 ≤ image.size, .headerMissing image.size),
    (byteAt image 0x148 ≤ 8, .unknownRomSize (byteAt image 0x148)),
    (byteAt image 0x149 ≤ 5, .unknownRamSize (byteAt image 0x149)),
    (declaredSize image ≤ image.size, .imageTruncated image.size (declaredSize image)),
    (byteAt image 0x147 ≤ 3, .unknownController (byteAt image 0x147))]

/-- The error of the first requirement that an image does not meet. -/
def objection? (image : ByteArray) : Option LoadError :=
  (requirements image).findSome? fun (met, e) => if met then none else some e

/-- There is no objection to an image exactly if it meets all requirements. -/
theorem objection?_eq_none_iff : objection? image = none ↔
    0x150 ≤ image.size ∧ byteAt image 0x148 ≤ 8 ∧ byteAt image 0x149 ≤ 5 ∧
      declaredSize image ≤ image.size ∧ byteAt image 0x147 ≤ 3 := by
  simp [objection?, requirements, List.findSome?_eq_none_iff]

/-- Loading fails with the objection to the image, and only if there is one. -/
theorem objection?_eq (image : ByteArray) :
    objection? image = match load image with
      | .ok _ => none
      | .error e => some e := by
  have h := verdict_loading image
  rw [load, objection?, requirements]
  generalize loading image = outcome at h ⊢
  -- Each verdict carries the requirements that were met, which is what the search needs.
  cases h with
  | headerMissing short => simp [short]; rfl
  | unknownRomSize long unknown => simp [long, unknown]; rfl
  | unknownRamSize long rom unknown => simp [long, rom, unknown]; rfl
  | truncated long rom ram short => simp [long, rom, ram, short]; rfl
  | unknownController long rom ram complete unknown =>
    simp [long, rom, ram, complete, unknown]
    rfl
  | loaded long rom ram complete known => simp [long, rom, ram, complete, known]

/-- A refusal is reported as an error. -/
theorem level_event (e : LoadError) : e.event.level = .error := by
  cases e <;> rfl

/-- An image without a header is one that is too short, like one without its last bank. -/
theorem message_headerMissing (length : Nat) :
    (LoadError.headerMissing length).message = (LoadError.imageTruncated length 0x150).message := rfl

/-- A refused image is reported once. -/
theorem loadEvents_of_error {e : LoadError} (h : load image = .error e) :
    loadEvents image = [e.event] := by
  have hverdict := verdict_loading image
  rw [load] at h
  rw [loadEvents]
  generalize loading image = outcome at h hverdict ⊢
  -- Each refusal comes with its own event, and the last verdict is none.
  cases hverdict <;> cases h <;> rfl

/-- A cartridge is reported, and then its checksum if it is wrong. -/
theorem loadEvents_of_ok {c : Cartridge} (h : load image = .ok c) :
    c.header = .read image ∧ c.rom = image ∧ ∃ ramSize, c.header.ramSize = .ok ramSize ∧
      loadEvents image = .cartridgeLoaded c.header.titleText c.controller.name
        (declaredSize image / romBankSize) (ramSize / ramBankSize) :: c.header.checksumEvents := by
  have hverdict := verdict_loading image
  rw [load] at h
  rw [loadEvents]
  generalize loading image = outcome at h hverdict ⊢
  cases hverdict with
  | loaded long rom ram complete known declared =>
    cases h
    exact ⟨rfl, rfl, _, declared, rfl⟩
  | _ => cases h

/-- The checksum is reported exactly if it is wrong, and then as a warning. -/
theorem level_checksumEvents (image : ByteArray) :
    (Header.read image).checksumEvents.map Event.level =
      if byteAt image 0x14D = checksum ((List.range' 0x134 25).map (byteAt image)) then []
      else [.warn] := by
  -- The fields of the header are bytes of the image.
  have hmatches : (Header.read image).checksumMatches =
      decide (byteAt image 0x14D = checksum ((List.range' 0x134 25).map (byteAt image))) := rfl
  rw [Header.checksumEvents, hmatches]
  by_cases h : byteAt image 0x14D = checksum ((List.range' 0x134 25).map (byteAt image)) <;>
    simp [h, Event.level]

/-- An image is loaded exactly if it meets all requirements, and otherwise refused with the error of
the first one that it does not meet.  A refusal is reported by exactly one event, an error; a cartridge
by one piece of information, and a warning exactly if its checksum is wrong.  The header is read only
from bytes that the image has. -/
theorem accepts_exactly (image : ByteArray) :
    ((∃ c, load image = .ok c) ↔
      0x150 ≤ image.size ∧ byteAt image 0x148 ≤ 8 ∧ byteAt image 0x149 ≤ 5 ∧
        declaredSize image ≤ image.size ∧ byteAt image 0x147 ≤ 3) ∧
    (∀ e, load image = .error e ↔ objection? image = some e) ∧
    (LoadError.headerMissing image.size).message =
      (LoadError.imageTruncated image.size 0x150).message ∧
    (∀ e, load image = .error e → loadEvents image = [e.event] ∧ e.event.level = .error) ∧
    (∀ c, load image = .ok c →
      (∃ ramSize, c.header.ramSize = .ok ramSize ∧
        loadEvents image = .cartridgeLoaded c.header.titleText c.controller.name
          (declaredSize image / romBankSize) (ramSize / ramBankSize) :: c.header.checksumEvents) ∧
      (loadEvents image).map Event.level = .info ::
        if byteAt image 0x14D = checksum ((List.range' 0x134 25).map (byteAt image)) then []
        else [.warn]) ∧
    (load image = .error (.headerMissing image.size) ∨ Header.Readable image) := by
  refine ⟨?_, fun e => ?_, message_headerMissing _,
    fun e h => ⟨loadEvents_of_error h, level_event e⟩, fun c h => ?_, ?_⟩
  -- Whether there is an objection is whether there is a cartridge.
  · rw [← objection?_eq_none_iff, objection?_eq]
    cases load image <;> simp
  · rw [objection?_eq]
    cases load image <;> simp
  · obtain ⟨hheader, -, ramSize, hram, hevents⟩ := loadEvents_of_ok h
    refine ⟨⟨ramSize, hram, hevents⟩, ?_⟩
    rw [hevents, List.map_cons, hheader, level_checksumEvents]
    rfl
  -- Without a header the image is refused before anything is read.
  · by_cases hsize : headerEnd ≤ image.size
    · exact .inr (Header.readable_of_le hsize)
    · rw [load, loading, Header.extract_of_lt (Nat.not_le.mp hsize)]
      exact .inl rfl

end Cartridge

end GameBoy
