import Mathlib.Algebra.Group.Nat.Defs
import GameBoy.Proofs.Instruction.Table
import GameBoy.Trace

/-!
# Telling trace lines apart

The columns of a trace line have a fixed width, save for the op code, the mnemonic and the number of
cycles at the end.  The op code of an extended instruction has two digits more, and the lines of the
other instructions have a tab where the third digit stands (`RegisterDump.opcode_append_inj`).  The op
code decides the mnemonic, so a line determines the entry of the tables and everything in the dump but
the stack pointer, which is not printed (`RegisterDump.traceLine_eq_iff`).
-/

namespace GameBoy

/-! ## Numerals -/

namespace Numeral

/-- Hexadecimal digits are told apart. -/
theorem digit_inj : ∀ m < 16, ∀ n < 16, digit m = digit n → m = n := by decide

/-- Numbers that fit into the width are told apart by their digits. -/
theorem hexDigits_inj {width m n : Nat} (hm : m < 16 ^ width) (hn : n < 16 ^ width)
    (h : hexDigits width m = hexDigits width n) : m = n := by
  induction width generalizing m n with
  | zero => omega
  | succ width ih =>
    rw [Nat.pow_succ'] at hm hn
    -- The last digit is the remainder, and those before it are the quotient's.
    obtain ⟨hfront, hlast⟩ := List.append_inj h (by simp)
    have hquotient : m / 16 = n / 16 :=
      ih (Nat.div_lt_of_lt_mul hm) (Nat.div_lt_of_lt_mul hn) hfront
    have hremainder : m % 16 = n % 16 :=
      digit_inj _ (Nat.mod_lt _ (by decide)) _ (Nat.mod_lt _ (by decide))
        (List.singleton_inj.mp hlast)
    omega

/-- Numerals of one width in front of two texts are told apart, with what follows them. -/
private theorem hexDigits_append_inj {width m n : Nat} (hm : m < 16 ^ width) (hn : n < 16 ^ width)
    {s t : String} :
    String.ofList (hexDigits width m) ++ s = String.ofList (hexDigits width n) ++ t ↔
      m = n ∧ s = t := by
  constructor
  · intro h
    have hlists := congrArg String.toList h
    simp only [String.toList_append, String.toList_ofList] at hlists
    obtain ⟨hdigits, hrest⟩ := List.append_inj hlists (by simp)
    exact ⟨hexDigits_inj hm hn hdigits, String.toList_inj.mp hrest⟩
  · rintro ⟨rfl, rfl⟩
    rfl

/-- A byte in front of two texts is told apart. -/
theorem hexByte_append_inj {b c : UInt8} {s t : String} :
    hexByte b ++ s = hexByte c ++ t ↔ b = c ∧ s = t := by
  rw [hexByte, hexByte, hexDigits_append_inj b.toNat_lt c.toNat_lt, UInt8.toNat_inj]

/-- A word in front of two texts is told apart. -/
theorem hexWord_append_inj {v w : UInt16} {s t : String} :
    hexWord v ++ s = hexWord w ++ t ↔ v = w ∧ s = t := by
  rw [hexWord, hexWord, hexDigits_append_inj v.toNat_lt w.toNat_lt, UInt16.toNat_inj]

/-- A decimal numeral, which may have any length, can be read back. -/
theorem toString_inj {m n : Nat} : toString m = toString n ↔ m = n := by
  refine ⟨fun h => ?_, congrArg toString⟩
  have hdigits : Nat.toDigits 10 m = Nat.toDigits 10 n := String.ofList_injective h
  rw [← Nat.ofDigitChars_toDigits (b := 10) (n := m) (by decide) (by decide), hdigits,
    Nat.ofDigitChars_toDigits (by decide) (by decide)]

/-- No digit is a tab. -/
theorem hexByte_append_ne_tab (b : UInt8) (s t : String) : hexByte b ++ s ≠ "\t" ++ t := by
  intro h
  have hlists := congrArg String.toList h
  simp only [hexByte, String.toList_append, String.toList_ofList, hexDigits, List.nil_append,
    List.cons_append] at hlists
  have hdigit : ∀ d < 16, digit d ≠ '\t' := by decide
  -- The first character is enough.
  exact hdigit _ (Nat.mod_lt _ (by decide)) (List.cons.inj hlists).1

end Numeral

/-! ## Trace lines -/

namespace RegisterDump

open Numeral

/-- The op code column, with the tab behind it: two digits, or `CB` and two digits. -/
theorem opcode_append_inj {extended extended' : Bool} {code code' : UInt8} {s t : String} :
    (if extended then "CB" else "") ++ (hexByte code ++ ("\t" ++ s)) =
        (if extended' then "CB" else "") ++ (hexByte code' ++ ("\t" ++ t)) ↔
      extended = extended' ∧ code = code' ∧ s = t := by
  -- The prefix looks like the op code that it is.
  have hfirst : "CB" = hexByte 0xCB := by decide
  cases extended <;> cases extended'
  case false.false | true.true => simp [hexByte_append_inj, String.append_right_inj]
  case false.true => simp [hfirst, hexByte_append_inj, (hexByte_append_ne_tab _ _ _).symm]
  case true.false => simp [hfirst, hexByte_append_inj, hexByte_append_ne_tab]

/-- The line with its columns one after another. -/
theorem traceLine_eq (d : RegisterDump) (next : Descriptor) :
    d.traceLine next =
      hexWord d.pc ++ ("  " ++ ((if next.instruction.isExtended then "CB" else "") ++
        (hexByte next.code ++ ("\t" ++ (padLeft 6 ' ' next.instruction.mnemonic ++ ("\t" ++
          (hexWord d.af ++ (" " ++ (hexWord d.bc ++ (" " ++ (hexWord d.de ++ (" " ++
            (hexWord d.hl ++ (" " ++ toString d.cycles.toNat)))))))))))))) := by
  simp [traceLine, String.append_assoc, String.intercalate_cons_cons]

variable {table table' : Descriptor.Table} {code code' : UInt8} {next next' : Descriptor}

/-- Two instructions, each looked up in one of the tables, have the same trace line exactly if they
are the same entry of the same table and the dumps differ at most in the stack pointer. -/
theorem traceLine_eq_iff (h : table.lookup code = some next) (h' : table'.lookup code' = some next')
    (d d' : RegisterDump) :
    d.traceLine next = d'.traceLine next' ↔
      (table = table' ∧ code = code' ∧ next = next') ∧
        d.pc = d'.pc ∧ d.af = d'.af ∧ d.bc = d'.bc ∧ d.de = d'.de ∧ d.hl = d'.hl ∧
          d.cycles = d'.cycles := by
  rw [traceLine_eq, traceLine_eq]
  constructor
  · intro hline
    -- The columns are taken off the line from the left.
    obtain ⟨hpc, hline⟩ := hexWord_append_inj.mp hline
    obtain ⟨hextended, hcode, hline⟩ :=
      opcode_append_inj.mp ((String.append_right_inj _).mp hline)
    -- The entry is known, so the mnemonics are the same and take the same room.
    have hentry := Descriptor.Table.lookup_inj h h' hextended hcode
    rw [hentry.2.2, String.append_right_inj, String.append_right_inj] at hline
    simp only [hexWord_append_inj, String.append_right_inj, toString_inj, UInt64.toNat_inj]
      at hline
    exact ⟨hentry, hpc, hline⟩
  · rintro ⟨⟨-, -, rfl⟩, hpc, haf, hbc, hde, hhl, hcycles⟩
    rw [hpc, haf, hbc, hde, hhl, hcycles]

/-- `LD A,(HL)` and `BIT 7,(HL)` have the same code in their tables and do not print alike; where the
stack is makes no difference. -/
theorem traceLine_eq_iff_sameCode :
    let dump : RegisterDump := ⟨0x0150, 0xFFFE, 0x01B0, 0x0013, 0x00D8, 0x014D, 1234⟩
    let load : Descriptor := ⟨0x7E, .load (.copy (.register .a) .atHL)⟩
    let test : Descriptor := ⟨0x7E, .bit ⟨.test, 7, .atHL⟩⟩
    dump.traceLine load ≠ dump.traceLine test ∧
      dump.traceLine load = { dump with sp := 0xC000 }.traceLine load := by
  intro dump load test
  have hload : Descriptor.Table.primary.lookup 0x7E = some load := by
    rw [Descriptor.Table.lookup, Descriptor.primary_eq]
    rfl
  have htest : Descriptor.Table.extended.lookup 0x7E = some test := by
    rw [Descriptor.Table.lookup, Descriptor.extended_eq]
    rfl
  refine ⟨fun heq => ?_, ?_⟩
  · obtain ⟨⟨htable, -⟩, -⟩ := (traceLine_eq_iff hload htest dump dump).mp heq
    cases htable
  · exact (traceLine_eq_iff hload hload dump { dump with sp := 0xC000 }).mpr
      ⟨⟨rfl, rfl, rfl⟩, rfl, rfl, rfl, rfl, rfl, rfl⟩

end RegisterDump

end GameBoy
