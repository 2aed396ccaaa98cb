import GameBoy.Instruction.Decode

/-!
# What the tables of op codes hold

Some instructions compute with numbers that are narrower than the type that holds them: the number
of a bit, and the cycles of a jump with those that it adds when it is taken.
`Instruction.fits_of_descriptor` says that no instruction of the two tables goes past their range.

`Descriptor.primary_eq_none_iff` says which one-byte op codes stand for no instruction, and
`Instruction.decode_eq_extend_iff` which one is the prefix of the other table.

An entry is found again by its op code and by whether it is extended (`Descriptor.Table.lookup_inj`).
-/

namespace GameBoy

namespace Instruction

/-! ## Ranges -/

/-- Whether an instruction names one of the eight bits of a byte and its cycles, with those that a
jump adds when it is taken, can be counted in a byte. -/
def Fits : Instruction → Prop
  | bit op => op.index < 8
  | jump op => op.cycles.toNat + op.takenPenalty.toNat < UInt8.size
  | _ => True

/-- The cycles of a jump that is taken can be counted in a byte. -/
private theorem fits_jump (op : Jump) : (jump op).Fits := by
  show op.cycles.toNat + op.takenPenalty.toNat < 256
  -- The longest jump is a call, the dearest condition that of a call or a return.
  have hcycles : op.cycles ≤ 24 := by
    unfold Jump.cycles
    split <;> (try split) <;> decide
  have hpenalty : op.takenPenalty ≤ 12 := by
    unfold Jump.takenPenalty
    split <;> decide
  simp only [UInt8.le_iff_toNat_le, UInt8.reduceToNat] at hcycles hpenalty
  omega

/-- No quarter of the table of one-byte op codes holds an access to a bit. -/
private theorem fits_quarters (row column : Fin 8) (op : BitAccess) :
    decodeFirst row column ≠ bit op ∧ decodeSecond row column ≠ bit op ∧
      decodeLast row column ≠ some (bit op) := by
  refine ⟨?_, ?_, ?_⟩
  · unfold decodeFirst
    repeat' split
    all_goals (intro h; cases h)
  · unfold decodeSecond
    split <;> (intro h; cases h)
  · unfold decodeLast
    repeat' split
    all_goals (intro h; cases h)

/-- No one-byte op code stands for an access to a bit. -/
private theorem fits_decode {code : UInt8} {i : Instruction} (h : decode code = some i) : i.Fits := by
  cases i with
  | jump op => exact fits_jump op
  | bit op =>
    -- The third quarter holds accumulator operations, and the others are `fits_quarters`.
    exfalso
    have hquarters := fits_quarters (Opcode.row code) (Opcode.column code) op
    unfold decode at h
    split at h
    · exact hquarters.1 (Option.some.inj h)
    · exact hquarters.2.1 (Option.some.inj h)
    · cases h
    · exact hquarters.2.2 h
  | _ => trivial

/-- The extended op codes number the bits by three of their own bits. -/
private theorem fits_decodeExtended (code : UInt8) : (decodeExtended code).Fits := by
  have hindex : UInt8.ofNat (Opcode.row code) < 8 := by
    have hrow := (Opcode.row code).isLt
    show (Opcode.row code).val % 256 < 8
    omega
  unfold decodeExtended
  split
  · trivial
  · exact hindex
  · exact hindex
  · exact hindex

/-- No instruction of the tables goes past the range of its numbers. -/
theorem fits_of_descriptor {code : UInt8} {d : Descriptor}
    (h : Descriptor.primary code = some d ∨ Descriptor.extended code = d) : d.instruction.Fits := by
  rcases h with h | rfl
  · rw [Descriptor.primary_eq, Option.map_eq_some_iff] at h
    obtain ⟨i, hi, rfl⟩ := h
    exact fits_decode hi
  · rw [Descriptor.extended_eq]
    exact fits_decodeExtended code

/-! ## Codes -/

/-- The eleven op codes that stand for no instruction. -/
def undefinedCodes : List UInt8 :=
  [0xD3, 0xDB, 0xDD, 0xE3, 0xE4, 0xEB, 0xEC, 0xED, 0xF4, 0xFC, 0xFD]

/-- What holds of the 256 numbers of a byte holds of all bytes. -/
private theorem forall_code {P : UInt8 → Prop} (h : ∀ n : Fin 256, P (UInt8.ofNat n))
    (code : UInt8) : P code := by
  have hcode := h ⟨code.toNat, code.toNat_lt⟩
  rwa [UInt8.ofNat_toNat] at hcode

/-- The op codes without an instruction are the eleven listed. -/
theorem decode_eq_none_iff (code : UInt8) : decode code = none ↔ code ∈ undefinedCodes := by
  revert code
  exact forall_code (by decide +kernel)

/-- One op code is the prefix of the other table. -/
theorem decode_eq_extend_iff (code : UInt8) : decode code = some .extend ↔ code = 0xCB := by
  revert code
  exact forall_code (by decide +kernel)

/-- No one-byte op code stands for an extended instruction. -/
theorem isExtended_of_decode {code : UInt8} {i : Instruction} (h : decode code = some i) :
    i.isExtended = false := by
  have hcodes : ∀ code, ∀ i ∈ decode code, i.isExtended = false := forall_code (by decide +kernel)
  exact hcodes code i h

/-- Every op code behind the prefix stands for an extended instruction. -/
theorem isExtended_decodeExtended (code : UInt8) : (decodeExtended code).isExtended = true := by
  unfold decodeExtended
  split <;> rfl

end Instruction

/-- The table of one-byte op codes has no entry exactly for the eleven listed. -/
theorem Descriptor.primary_eq_none_iff {code : UInt8} :
    primary code = none ↔ code ∈ Instruction.undefinedCodes := by
  rw [primary_eq, Option.map_eq_none_iff, Instruction.decode_eq_none_iff]

/-- The tables in which instructions are looked up. -/
inductive Descriptor.Table
  | primary
  | extended
  deriving DecidableEq

namespace Descriptor.Table

variable {table table' : Table} {code code' : UInt8} {d d' : Descriptor}

/-- What a table has for an op code. -/
def lookup : Table → UInt8 → Option Descriptor
  | primary, code => Descriptor.primary code
  | extended, code => some (Descriptor.extended code)

/-- An entry carries its own op code. -/
theorem code_of_lookup (h : table.lookup code = some d) : d.code = code := by
  cases table with
  | primary =>
    rw [lookup, primary_eq, Option.map_eq_some_iff] at h
    obtain ⟨i, -, rfl⟩ := h
    rfl
  | extended =>
    rw [lookup, extended_eq, Option.some.injEq] at h
    rw [← h]

/-- An entry tells by its instruction which table it is from. -/
theorem isExtended_of_lookup (h : table.lookup code = some d) :
    d.instruction.isExtended = true ↔ table = extended := by
  cases table with
  | primary =>
    rw [lookup, primary_eq, Option.map_eq_some_iff] at h
    obtain ⟨i, hi, rfl⟩ := h
    simp [Instruction.isExtended_of_decode hi]
  | extended =>
    rw [lookup, extended_eq, Option.some.injEq] at h
    simp [← h, Instruction.isExtended_decodeExtended]

/-- No two entries have the same op code and are both extended or both not. -/
theorem lookup_inj (h : table.lookup code = some d) (h' : table'.lookup code' = some d')
    (hextended : d.instruction.isExtended = d'.instruction.isExtended) (hcode : d.code = d'.code) :
    table = table' ∧ code = code' ∧ d = d' := by
  -- The flag decides the table, and within a table the op code decides the entry.
  have htable : table = extended ↔ table' = extended := by
    rw [← isExtended_of_lookup h, ← isExtended_of_lookup h', hextended]
  have htable : table = table' := by
    cases table <;> cases table' <;> simp_all
  rw [code_of_lookup h, code_of_lookup h'] at hcode
  subst htable hcode
  exact ⟨rfl, rfl, Option.some.inj (h.symm.trans h')⟩

end Descriptor.Table

end GameBoy
