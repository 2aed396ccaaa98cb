/-!
# Byte storage

RAM and ROM are byte arrays that are read and written at a computed offset.  An offset past the end
reads a fallback and is not written, so every access is defined.  `Block n` is storage whose size is
part of its type.

Main statements: `getD_set` (a write changes the cell that it names and no other), `size_set`
(a write keeps the size) and their counterparts for blocks.
-/

namespace GameBoy

instance Storage.decEqBytes : DecidableEq ByteArray := ByteArray.decEq

namespace Storage

/-- The byte at an offset, or `fallback` past the end. -/
@[inline] def getD (bytes : ByteArray) (offset : Nat) (fallback : UInt8) : UInt8 :=
  if h : offset < bytes.size then bytes.get offset h else fallback

/-- Replaces the byte at an offset; an offset past the end leaves the storage as it is. -/
@[inline] def set (bytes : ByteArray) (offset : Nat) (value : UInt8) : ByteArray :=
  if h : offset < bytes.size then bytes.set offset value h else bytes

/-- Storage of a given size that is zero everywhere. -/
def zeros (size : Nat) : ByteArray := ⟨Array.replicate size 0⟩

/-- The size is the one that was asked for. -/
@[simp] theorem size_zeros (size : Nat) : (zeros size).size = size := by
  simp [zeros, ByteArray.size]

/-- Zeroed storage reads as zero, past its end as well. -/
theorem getD_zeros (size offset : Nat) : getD (zeros size) offset 0 = 0 := by
  by_cases h : offset < (zeros size).size
  · rw [getD, dif_pos h]
    exact Array.getElem_replicate ..
  · rw [getD, dif_neg h]

/-- Replacing a byte keeps the size. -/
theorem size_byteArraySet (bytes : ByteArray) (offset : Nat) (value : UInt8)
    (h : offset < bytes.size) : (bytes.set offset value h).size = bytes.size := by
  cases bytes
  exact Array.size_set h

/-- A write keeps the size, wherever it goes. -/
@[simp] theorem size_set (bytes : ByteArray) (offset : Nat) (value : UInt8) :
    (set bytes offset value).size = bytes.size := by
  by_cases h : offset < bytes.size
  · rw [set, dif_pos h, size_byteArraySet]
  · rw [set, dif_neg h]

/-- A write is seen at its own offset, provided that it lies inside, and nowhere else. -/
theorem getD_set (bytes : ByteArray) (i j : Nat) (value fallback : UInt8) :
    getD (set bytes i value) j fallback =
      if j = i ∧ i < bytes.size then value else getD bytes j fallback := by
  by_cases hi : i < bytes.size
  · have hsize : (bytes.set i value hi).size = bytes.size := size_byteArraySet ..
    rw [set, dif_pos hi]
    by_cases hj : j < bytes.size
    -- Both offsets lie inside, so this is the law of arrays.
    · rw [getD, dif_pos (by omega), getD, dif_pos hj]
      have hget : (bytes.set i value hi).get j (by omega) =
          if i = j then value else bytes.get j hj := by
        cases bytes
        exact Array.getElem_set ..
      rw [hget]
      by_cases hij : i = j
      · rw [if_pos hij, if_pos ⟨hij.symm, hi⟩]
      · rw [if_neg hij, if_neg fun h => hij h.1.symm]
    · rw [getD, dif_neg (by omega), getD, dif_neg hj, if_neg (by omega)]
  · rw [set, dif_neg hi, if_neg (by omega)]

end Storage

/-- Storage of exactly `size` bytes. -/
structure Block (size : Nat) where
  bytes : ByteArray
  size_bytes : bytes.size = size

namespace Block

variable {size : Nat}

/-- Blocks of one size with the same bytes are the same. -/
theorem ext_bytes {a b : Block size} (h : a.bytes = b.bytes) : a = b := by
  cases a
  cases b
  cases h
  rfl

instance : DecidableEq (Block size) := fun a b =>
  decidable_of_iff (a.bytes = b.bytes) ⟨ext_bytes, fun h => h ▸ rfl⟩

/-- A block that is zero everywhere. -/
def zero (size : Nat) : Block size := ⟨Storage.zeros size, Storage.size_zeros size⟩

/-- The block whose byte at each offset is given by a function. -/
def ofFn (size : Nat) (f : Nat → UInt8) : Block size :=
  ⟨⟨Array.ofFn (fun i : Fin size => f i.val)⟩, by simp [ByteArray.size]⟩

/-- The byte at an offset, zero past the end. -/
@[inline] def get (b : Block size) (offset : Nat) : UInt8 := Storage.getD b.bytes offset 0

/-- Replaces the byte at an offset; an offset past the end leaves the block as it is. -/
@[inline] def set (b : Block size) (offset : Nat) (value : UInt8) : Block size :=
  ⟨Storage.set b.bytes offset value, by rw [Storage.size_set, b.size_bytes]⟩

/-- A zeroed block reads as zero. -/
@[simp] theorem get_zero (offset : Nat) : (zero size).get offset = 0 :=
  Storage.getD_zeros size offset

/-- A write is seen at its own offset, provided that it lies inside, and nowhere else. -/
theorem get_set (b : Block size) (i j : Nat) (value : UInt8) :
    (b.set i value).get j = if j = i ∧ i < size then value else b.get j := by
  rw [get, set, Storage.getD_set, b.size_bytes]
  rfl

/-- A block given by a function reads as the function says. -/
theorem get_ofFn (f : Nat → UInt8) {i : Nat} (h : i < size) : (ofFn size f).get i = f i := by
  have hsize : i < (ofFn size f).bytes.size := by rw [(ofFn size f).size_bytes]; exact h
  rw [get, Storage.getD, dif_pos hsize]
  exact Array.getElem_ofFn ..

/-- Only what the function says of the offsets inside matters. -/
theorem ofFn_congr {f g : Nat → UInt8} (h : ∀ i < size, f i = g i) : ofFn size f = ofFn size g := by
  have hsame : (fun i : Fin size => f i.val) = fun i => g i.val := funext fun i => h i.val i.isLt
  rw [ofFn, ofFn]
  simp only [hsame]

end Block

end GameBoy
