import GameBoy.Instruction.Basic

/-!
# What instructions cost

Every instruction takes one of six numbers of clock cycles, a taken branch included
(`Instruction.Costs.mem`).
-/

namespace GameBoy.Instruction

/-- Whether an instruction can take some number of clock cycles: its own, and those that a taken
branch adds. -/
def Costs (i : Instruction) (cycles : UInt8) : Prop :=
  cycles = i.cycles ∨ ∃ op, i = jump op ∧ cycles = i.cycles + op.takenPenalty

/-- The numbers of clock cycles that a step can take. -/
def stepCosts : List UInt8 := [4, 8, 12, 16, 20, 24]

/-- Every cost is a multiple of four between 4 and 24. -/
theorem toNat_of_mem_stepCosts {cycles : UInt8} (h : cycles ∈ stepCosts) :
    4 ≤ cycles.toNat ∧ cycles.toNat ≤ 24 ∧ 4 ∣ cycles.toNat := by
  simp only [stepCosts, List.mem_cons, List.not_mem_nil, or_false] at h
  rcases h with rfl | rfl | rfl | rfl | rfl | rfl <;> decide

/-- Every step takes some time. -/
theorem pos_of_mem_stepCosts {cycles : UInt8} (h : cycles ∈ stepCosts) : 0 < cycles.toNat :=
  Nat.lt_of_lt_of_le (by decide) (toNat_of_mem_stepCosts h).1

-- The operands that do not matter for the cost stay open, so the membership is computed, not decided.
private theorem cycles_load_mem (op : Load) : op.cycles ∈ stepCosts := by
  cases op with
  | copy target source => cases target <;> cases source <;> exact List.mem_of_elem_eq_true rfl
  | byte target => cases target <;> exact List.mem_of_elem_eq_true rfl
  | _ => exact List.mem_of_elem_eq_true rfl

/-- A jump takes one of these numbers whether it is taken or not. -/
private theorem cycles_jump_mem (op : Jump) :
    op.cycles ∈ stepCosts ∧ op.cycles + op.takenPenalty ∈ stepCosts := by
  cases op with
  | relative condition | absolute condition | call condition | ret condition =>
    cases condition <;> exact ⟨List.mem_of_elem_eq_true rfl, List.mem_of_elem_eq_true rfl⟩
  | _ => exact ⟨List.mem_of_elem_eq_true rfl, List.mem_of_elem_eq_true rfl⟩

/-- A calculation takes one of these numbers. -/
private theorem cycles_calculation_mem (op : Calculation) : op.cycles ∈ stepCosts := by
  cases op with
  | accumulate op source =>
    cases source with
    | place p => cases p <;> exact List.mem_of_elem_eq_true rfl
    | immediate => exact List.mem_of_elem_eq_true rfl
  | increment target | decrement target => cases target <;> exact List.mem_of_elem_eq_true rfl
  | _ => exact List.mem_of_elem_eq_true rfl

/-- An access to a bit takes one of these numbers. -/
private theorem cycles_bit_mem (op : BitAccess) : op.cycles ∈ stepCosts := by
  obtain ⟨action, index, place⟩ := op
  cases action <;> cases place <;> exact List.mem_of_elem_eq_true rfl

/-- A shift takes one of these numbers. -/
private theorem cycles_shift_mem (op : Shift) : op.cycles ∈ stepCosts := by
  obtain ⟨op, place⟩ := op
  cases place <;> exact List.mem_of_elem_eq_true rfl

/-- Every instruction takes one of these numbers if no branch is taken. -/
private theorem cycles_mem (i : Instruction) : i.cycles ∈ stepCosts := by
  cases i with
  | load op => exact cycles_load_mem op
  | control op => cases op <;> exact List.mem_of_elem_eq_true rfl
  | jump op => exact (cycles_jump_mem op).1
  | calculation op => exact cycles_calculation_mem op
  | bit op => exact cycles_bit_mem op
  | shift op => exact cycles_shift_mem op
  | misc op => cases op <;> exact List.mem_of_elem_eq_true rfl
  | extend => exact List.mem_of_elem_eq_true rfl

/-- Whatever an instruction costs is one of these numbers. -/
theorem Costs.mem {i : Instruction} {cycles : UInt8} (h : i.Costs cycles) : cycles ∈ stepCosts := by
  -- Its own cycles, or those of a jump that is taken.
  rcases h with rfl | ⟨op, rfl, rfl⟩
  · exact cycles_mem i
  · exact (cycles_jump_mem op).2

end GameBoy.Instruction
