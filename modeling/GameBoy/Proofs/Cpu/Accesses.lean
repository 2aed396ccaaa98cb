import GameBoy.Proofs.Cpu.Uniform
import GameBoy.Proofs.Transaction.Access

/-!
# Accesses of the processor

An instruction reads and writes bytes and leaves the interrupt controller alone
(`onlyBytes_executeNext`).  The controller is asked once at the beginning of a step, and a request is
withdrawn only when the step serves an interrupt.
-/

namespace GameBoy

/-- The access reads or writes a byte. -/
def Access.IsByte : Access → Prop
  | read _ | write _ _ => True
  | poll | acknowledge _ => False

namespace Execution

/-- Whatever the processor holds and the memory answers, only bytes are read and written. -/
def OnlyBytes {α : Type} (e : Execution α) : Prop := ∀ cpu, (e.run cpu).Only Access.IsByte

/-- The building blocks of instructions read and write bytes and nothing else. -/
theorem uniform_onlyBytes : Uniform OnlyBytes where
  pure _ := fun _ => trivial
  bind he hf := fun cpu => (he cpu).bind fun r => hf r.1 r.2
  get := fun _ => trivial
  modifyGet _ _ := fun _ => trivial
  readByte _ := fun _ => ⟨trivial, fun _ => trivial⟩
  writeByte _ _ := fun _ => ⟨trivial, trivial⟩

/-- What is done to the processor reaches no memory, whether it touches the clockwork or not. -/
theorem onlyBytes_modify (f : Cpu → Cpu) : (modify f : Execution Unit).OnlyBytes := fun _ => trivial

/-- A report is no access. -/
theorem onlyBytes_reportEvent (event : Event) :
    OnlyBytes (Transaction.reportEvent event : Transaction Unit) := fun _ => trivial

/-- The execution of an instruction leaves the interrupt controller alone. -/
theorem onlyBytes_executeNext : executeNext.OnlyBytes := by
  have h := uniform_onlyBytes
  refine h.bind (uniform_fetch h fun _ _ => onlyBytes_reportEvent _) fun fetched => ?_
  -- An op code that is not defined fails before any operand is read.
  split
  · exact h.pure _
  · refine h.bind h.get fun cpu => h.bind (onlyBytes_reportEvent _) fun _ => ?_
    refine h.bind (uniform_fetchOperand h _) fun operand => ?_
    refine h.bind (onlyBytes_modify _) fun _ => ?_
    refine h.bind (uniform_execute h onlyBytes_modify _ operand) fun cycles => ?_
    exact h.bind (onlyBytes_modify _) fun _ => h.pure _

end Execution

end GameBoy
