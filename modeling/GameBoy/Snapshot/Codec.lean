import GameBoy.Storage

/-!
# Binary codecs

A `Codec` writes values as bytes and reads them back from a position in a byte string.  Codecs are
built from a few primitive ones: single bytes, numbers in groups of seven bits, byte strings with
their length in front.

* Numbers are written lowest group first; every group but the last has its top bit set.  A number of
  a fixed width may be padded with empty groups, but it may have no more groups than its width needs
  and no bits beyond it.
* Alternatives are numbered and their number is written in front.
* A field whose length is known beforehand still has it written in front, and another length is
  refused.
-/

namespace GameBoy.Snapshot

/-- Why bytes cannot be read as a value. -/
inductive DecodeError where
  | unexpectedEnd
  /-- A number has too many groups or bits. -/
  | invalidNumber
  /-- A truth value is neither zero nor one. -/
  | invalidBool
  /-- No value of the type is written like this. -/
  | invalidValue
  deriving DecidableEq, Repr

/-- A place in some bytes; what stands before it has been read. -/
structure Cursor where
  bytes : ByteArray
  position : Nat

/-- A computation that reads bytes from a cursor. -/
abbrev Decoder := StateT Cursor (Except DecodeError)

namespace Decoder

/-- Reads one byte. -/
def byte : Decoder UInt8 := fun cursor =>
  if h : cursor.position < cursor.bytes.size then
    .ok (cursor.bytes.get cursor.position h, { cursor with position := cursor.position + 1 })
  else .error .unexpectedEnd

/-- Reads some bytes. -/
def take (count : Nat) : Decoder ByteArray := fun cursor =>
  let stop := cursor.position + count
  if stop ≤ cursor.bytes.size then
    .ok (cursor.bytes.extract cursor.position stop, { cursor with position := stop })
  else .error .unexpectedEnd

/-- Refuses what has been read. -/
def refuse {α : Type} : Decoder α := throw .invalidValue

/-- Reads a number below `2 ^ width`, of which the groups so far make up `value` and the next group
counts `2 ^ shift`.  At most `groups` more groups are read. -/
def number (width : Nat) : (groups shift value : Nat) → Decoder Nat
  | 0, _, _ => throw .invalidNumber
  | groups + 1, shift, value => do
    let b ← byte
    let value := value + (b.toNat % 128) * 2 ^ shift
    if b.toNat < 128 then
      -- The last group may have bits that the width leaves no room for.
      if value < 2 ^ width then return value else throw .invalidNumber
    else
      number width groups (shift + 7) value

end Decoder

/-- A way to write values as bytes and to read them back. -/
structure Codec (α : Type) where
  encode : α → ByteArray
  decode : Decoder α

namespace Codec

variable {α β : Type}

/-- Reads a value from the front of a byte string; what follows it is ignored. -/
def decodeFrom (codec : Codec α) (bytes : ByteArray) : Except DecodeError α :=
  Prod.fst <$> codec.decode.run ⟨bytes, 0⟩

/-! ## Primitive codecs -/

/-- Nothing, in no bytes. -/
def unit : Codec Unit where
  encode _ := ByteArray.empty
  decode := return ()

/-- A byte as itself. -/
def byte : Codec UInt8 where
  encode b := [b].toByteArray
  decode := Decoder.byte

/-- A truth value as zero or one. -/
def bool : Codec Bool where
  encode b := [b.toUInt8].toByteArray
  decode := do
    match ← Decoder.byte with
    | 0 => return false
    | 1 => return true
    | _ => throw .invalidBool

/-- The groups of a number, lowest first. -/
def groups (n : Nat) : List UInt8 :=
  if n < 128 then [UInt8.ofNat n] else UInt8.ofNat (n % 128 + 128) :: groups (n / 128)
termination_by n
decreasing_by omega

/-- A number below `2 ^ width`, in as few groups as possible. -/
def number (width : Nat) : Codec Nat where
  encode n := (groups n).toByteArray
  decode := Decoder.number width ((width + 6) / 7) 0 0

/-- Exactly `size` bytes as themselves. -/
def rawBlock (size : Nat) : Codec (Block size) where
  encode block := block.bytes
  decode := do
    let bytes ← Decoder.take size
    if h : bytes.size = size then return ⟨bytes, h⟩ else Decoder.refuse

/-! ## Combinators -/

/-- The codec of a type whose values correspond to those of another type. -/
def convert (codec : Codec α) (view : β → α) (build : α → β) : Codec β where
  encode b := codec.encode (view b)
  decode := build <$> codec.decode

/-- Two values, one after the other. -/
def pair (first : Codec α) (second : Codec β) : Codec (α × β) where
  encode v := first.encode v.1 ++ second.encode v.2
  decode := do
    let a ← first.decode
    let b ← second.decode
    return (a, b)

/-- The number of an alternative. -/
def tag : Codec Nat := number 32

/-- A value of one of two types, with the number of the type in front. -/
def either (first : Codec α) (second : Codec β) : Codec (α ⊕ β) where
  encode v :=
    match v with
    | .inl a => tag.encode 0 ++ first.encode a
    | .inr b => tag.encode 1 ++ second.encode b
  decode := do
    match ← tag.decode with
    | 0 => .inl <$> first.decode
    | 1 => .inr <$> second.decode
    | _ => Decoder.refuse

/-- One of a list of values, by its place in the list. -/
def oneOf [BEq α] (values : List α) : Codec α where
  encode a := tag.encode (values.idxOf a)
  decode := do
    match values[← tag.decode]? with
    | some a => return a
    | none => Decoder.refuse

/-! ## Numbers and byte strings -/

/-- A word as a number. -/
def word : Codec UInt16 := (number 16).convert UInt16.toNat UInt16.ofNat

/-- A 64-bit counter as a number. -/
def counter : Codec UInt64 := (number 64).convert UInt64.toNat UInt64.ofNat

/-- A length or a count, in front of what it counts. -/
def length : Codec Nat := number 64

/-- A byte string with its length in front. -/
def bytes : Codec ByteArray where
  encode b := length.encode b.size ++ b
  decode := do Decoder.take (← length.decode)

/-- A byte string that has to have a given length. -/
def block (size : Nat) : Codec (Block size) where
  encode b := bytes.encode b.bytes
  decode := do
    let b ← bytes.decode
    if h : b.size = size then return ⟨b, h⟩ else Decoder.refuse

/-! ## Banked memory -/

/-- Reads a bank of at most `size` bytes.  A longer one is refused as soon as its first byte too many
has been read. -/
def decodeBank (size : Nat) : Decoder ByteArray := do
  let count ← length.decode
  if count ≤ size then
    Decoder.take count
  else
    discard (Decoder.take (size + 1))
    Decoder.refuse

/-- Reads some banks, one after the other. -/
def decodeBanks (size : Nat) : (count : Nat) → Decoder (List ByteArray)
  | 0 => return []
  | count + 1 => do
    let bank ← decodeBank size
    return bank :: (← decodeBanks size count)

/-- A number of banks of one size, each as a byte string.  A bank too many is refused after it has
been read, and a missing or short one when all banks have been read. -/
def banks (count size : Nat) : Codec (Block (count * size)) where
  encode block :=
    (List.range count).foldl
      (fun out i => out ++ bytes.encode (block.bytes.extract (i * size) ((i + 1) * size)))
      (length.encode count)
  decode := do
    let given ← length.decode
    -- However many banks are announced, at most one too many is read.
    let list ← decodeBanks size (min given (count + 1))
    let joined := list.foldl (· ++ ·) ByteArray.empty
    if h : joined.size = count * size then
      if list.length = count then return ⟨joined, h⟩ else Decoder.refuse
    else Decoder.refuse

end Codec

end GameBoy.Snapshot
