import GameBoy.Interrupt

/-!
# Sets of interrupt sources

A set of sources is kept as the bits of a byte.  `contains_insert` and `contains_erase` say that
setting and clearing the bit of a source adds and removes that source and no other, and
`index_le_of_highestPriority` that the source served first has the lowest number of those whose bit
is set.

`Interrupts.due` lists the sources that are both enabled and pending; the first of them is the one
that is served next (`head?_due`), and then the list goes on with the second one
(`due_acknowledge`).
-/

namespace GameBoy

namespace InterruptSet

/-- A source is in the set if the bit of its number is set. -/
private theorem contains_eq (s : InterruptSet) (source : Interrupt) :
    s.contains source = s.bits.toBitVec.getLsbD source.index.toNat := by
  -- A mask is a power of two, so a conjunction with it is either the mask or zero.
  have hmask : source.mask.toBitVec = BitVec.twoPow 8 source.index.toNat := by
    cases source <;> decide
  have hne : BitVec.twoPow 8 source.index.toNat ≠ 0#8 := by
    cases source <;> decide
  have hand : (s.bits &&& source.mask).toBitVec =
      if s.bits.toBitVec.getLsbD source.index.toNat then BitVec.twoPow 8 source.index.toNat
      else 0#8 := by
    rw [UInt8.toBitVec_and, hmask, BitVec.and_twoPow]
  cases hbit : s.bits.toBitVec.getLsbD source.index.toNat with
  | true =>
    rw [hbit, if_pos rfl] at hand
    refine bne_iff_ne.mpr fun hzero => hne ?_
    rw [← hand, hzero]
    rfl
  | false =>
    rw [hbit, if_neg Bool.false_ne_true] at hand
    exact bne_eq_false_iff_eq.mpr (UInt8.toBitVec_inj.mp hand)

/-- The bit of a source is the only one in its mask. -/
private theorem getLsbD_mask (source other : Interrupt) :
    source.mask.toBitVec.getLsbD other.index.toNat = decide (other = source) := by
  cases source <;> cases other <;> decide

/-- Setting the bit of a source adds this source. -/
theorem contains_insert (s : InterruptSet) (source other : Interrupt) :
    (s.insert source).contains other = (decide (other = source) || s.contains other) := by
  rw [contains_eq, contains_eq, insert, UInt8.toBitVec_or, BitVec.getLsbD_or, getLsbD_mask,
    Bool.or_comm]

/-- Clearing the bit of a source removes this source. -/
theorem contains_erase (s : InterruptSet) (source other : Interrupt) :
    (s.erase source).contains other = (!decide (other = source) && s.contains other) := by
  have hlt : other.index.toNat < 8 := by cases other <;> decide
  rw [contains_eq, contains_eq, erase, UInt8.toBitVec_and, UInt8.toBitVec_not, BitVec.getLsbD_and,
    BitVec.getLsbD_not, getLsbD_mask, Bool.and_comm]
  simp [hlt]

/-- The common bits of two registers are those of the sources in both of them. -/
theorem contains_and (s t : InterruptSet) (source : Interrupt) :
    contains ⟨s.bits &&& t.bits⟩ source = (s.contains source && t.contains source) := by
  rw [contains_eq, contains_eq, contains_eq, UInt8.toBitVec_and, BitVec.getLsbD_and]

end InterruptSet

namespace Interrupt

/-- The list of sources goes by ascending numbers. -/
private theorem pairwise_all : all.Pairwise fun a b => a.index ≤ b.index := by decide

/-- The source that is served first has the lowest number of those whose bit is set. -/
theorem index_le_of_highestPriority {bits : UInt8} {source : Interrupt}
    (h : highestPriority bits = some source) {other : Interrupt}
    (hother : bits &&& other.mask ≠ 0) : source.index ≤ other.index := by
  -- The source that is found splits the list of all sources into those before and after it.
  obtain ⟨-, before, after, hall, hbefore⟩ := List.find?_eq_some_iff_append.mp h
  have hpairwise := pairwise_all
  rw [hall, List.pairwise_append, List.pairwise_cons] at hpairwise
  have hmem := mem_all other
  rw [hall, List.mem_append, List.mem_cons] at hmem
  rcases hmem with hmem | rfl | hmem
  · -- The sources before the one found have their bits clear.
    exact absurd (hbefore other hmem) (by simp [hother])
  · exact UInt8.le_refl _
  · exact hpairwise.2.1.1 other hmem

/-- Among the five bits every set one belongs to a source. -/
theorem exists_highestPriority {bits : UInt8} (h : bits ≤ 0x1F) (hne : bits ≠ 0) :
    ∃ source, highestPriority bits = some source := by
  -- Thirty-two bytes have no bit above the fifth.
  have hall : ∀ n : Fin 32, n ≠ 0 → (highestPriority (UInt8.ofNat n)).isSome = true := by decide
  have hlt : bits.toNat < 32 := Nat.lt_succ_of_le h
  have hsome := hall ⟨bits.toNat, hlt⟩ fun hzero => by
    have hnat : bits.toNat = 0 := congrArg Fin.val hzero
    exact hne (UInt8.toNat_inj.mp hnat)
  rw [UInt8.ofNat_toNat] at hsome
  exact Option.isSome_iff_exists.mp hsome

/-- Without a bit set there is no source to serve. -/
theorem highestPriority_eq_none_iff {bits : UInt8} (h : bits ≤ 0x1F) :
    highestPriority bits = none ↔ bits = 0 := by
  constructor
  · intro hnone
    by_cases hzero : bits = 0
    · exact hzero
    · obtain ⟨source, hsource⟩ := exists_highestPriority h hzero
      rw [hnone] at hsource
      cases hsource
  · rintro rfl
    rfl

end Interrupt

namespace Interrupts

variable {r : Interrupts} {source : Interrupt} {rest : List Interrupt}

/-- The sources that are enabled and ask for service, in the order in which they are served. -/
def due (r : Interrupts) : List Interrupt :=
  Interrupt.all.filter fun source => r.enable.contains source && r.pending.contains source

/-- The sources that are due are those that are both enabled and pending. -/
theorem mem_due : source ∈ r.due ↔
    r.enable.contains source = true ∧ r.pending.contains source = true := by
  rw [due, List.mem_filter, Bool.and_eq_true]
  exact and_iff_right (Interrupt.mem_all source)

/-- The numbers of the sources ascend, so none comes twice. -/
theorem pairwise_due (r : Interrupts) : r.due.Pairwise fun a b => a.index < b.index :=
  List.Pairwise.filter _ (by decide : Interrupt.all.Pairwise fun a b => a.index < b.index)

/-- The source that is served next is the first one that is due. -/
theorem head?_due (r : Interrupts) : r.due.head? = Interrupt.highestPriority r.active := by
  rw [due, List.head?_filter, Interrupt.highestPriority]
  congr 1
  funext source
  exact (InterruptSet.contains_and r.enable r.pending source).symm

/-- Taking up the first request leaves the others. -/
theorem due_acknowledge (h : r.due = source :: rest) : (r.acknowledge source).due = rest := by
  have hsplit : (r.acknowledge source).due = r.due.filter fun other => !decide (other = source) := by
    rw [due, due, List.filter_filter]
    congr 1
    funext other
    rw [acknowledge, InterruptSet.contains_erase, Bool.and_left_comm]
  -- No source comes twice, so the rest does not contain the first one.
  have hne : ∀ other ∈ rest, other ≠ source := by
    have hpairwise := r.pairwise_due
    rw [h, List.pairwise_cons] at hpairwise
    rintro other hmem rfl
    exact absurd (hpairwise.1 other hmem) (UInt8.lt_irrefl _)
  rw [hsplit, h, List.filter_cons_of_neg (by simp), List.filter_eq_self]
  simpa using hne

/-- What is pending after some requests have been taken up. -/
theorem contains_pending_foldl (sources : List Interrupt) (r : Interrupts) (source : Interrupt) :
    (sources.foldl acknowledge r).pending.contains source =
      (!decide (source ∈ sources) && r.pending.contains source) := by
  -- Over the requests, each of which is withdrawn on its own.
  induction sources generalizing r with
  | nil => simp
  | cons first rest ih =>
    rw [List.foldl_cons, ih, acknowledge, InterruptSet.contains_erase]
    by_cases h : source = first <;> simp [h]

/-- Taking up requests leaves the mask as it is. -/
theorem enable_foldl (sources : List Interrupt) (r : Interrupts) :
    (sources.foldl acknowledge r).enable = r.enable := by
  induction sources generalizing r with
  | nil => rfl
  | cons first rest ih => exact ih _

end Interrupts

end GameBoy
