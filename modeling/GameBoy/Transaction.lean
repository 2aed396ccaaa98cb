import GameBoy.Memory
import GameBoy.Word

/-!
# Transactions

What the processor does to memory is a program of its own: a `Transaction` reads and writes bytes,
asks for the active interrupts, acknowledges one, reports events, and ends with a result.  It names
no memory.  `Transaction.run` plays it against any memory and any listener, so one definition of the
processor serves flat memory, the console's bus and every kind of observer.

Main statements: transactions form a lawful monad, and running a composed transaction is running its
parts one after the other (`run_bind`).
-/

namespace GameBoy

/-- A program of memory accesses that ends with a result. -/
inductive Transaction (α : Type) where
  | done (result : α)
  | read (addr : UInt16) (next : UInt8 → Transaction α)
  | write (addr : UInt16) (value : UInt8) (next : Transaction α)
  /-- Asks for the bits of the active interrupt sources. -/
  | poll (next : UInt8 → Transaction α)
  | acknowledge (source : Interrupt) (next : Transaction α)
  | report (event : Event) (next : Transaction α)

namespace Transaction

variable {α β γ μ σ : Type}

/-- Goes on with a second transaction, which may depend on the first one's result. -/
def bind : Transaction α → (α → Transaction β) → Transaction β
  | done a, f => f a
  | read addr next, f => read addr fun b => (next b).bind f
  | write addr value next, f => write addr value (next.bind f)
  | poll next, f => poll fun b => (next b).bind f
  | acknowledge source next, f => acknowledge source (next.bind f)
  | report event next, f => report event (next.bind f)

instance : Monad Transaction where
  pure := done
  bind := bind

/-- Ending after a transaction changes nothing. -/
theorem bind_done (t : Transaction α) : t.bind done = t := by
  induction t with
  | done a => rfl
  | _ => simp only [bind, *]

/-- It does not matter how three transactions are grouped. -/
theorem bind_bind (t : Transaction α) (f : α → Transaction β) (g : β → Transaction γ) :
    (t.bind f).bind g = t.bind fun a => (f a).bind g := by
  induction t with
  | done a => rfl
  | _ => simp only [bind, *]

instance : LawfulMonad Transaction := LawfulMonad.mk'
  Transaction
  (fun t => bind_done t)
  (fun _ _ => rfl)
  (fun t f g => bind_bind t f g)

/-- Plays a transaction against a memory.  The listener hears the events that the transaction
reports and those of its memory accesses, in order. -/
@[specialize] def run [Memory μ] (listener : Listener σ) : Transaction α → μ → σ → α × μ × σ
  | done a, m, s => (a, m, s)
  | read addr next, m, s =>
    let s := listener.hear s (Memory.readEvents m addr)
    let b := Memory.read m addr
    (next b).run listener m s
  | write addr value next, m, s =>
    -- What a write reports depends on the memory before it.
    let s := listener.hear s (Memory.writeEvents m addr value)
    let m := Memory.write m addr value
    next.run listener m s
  | poll next, m, s => (next (Memory.active m)).run listener m s
  | acknowledge source next, m, s => next.run listener (Memory.acknowledge m source) s
  | report event next, m, s => next.run listener m (listener s event)

/-- The result and the memory that a transaction leaves. -/
def eval [Memory μ] (t : Transaction α) (m : μ) : α × μ :=
  let (a, m, _) := t.run Listener.deaf m ()
  (a, m)

/-- A transaction that only ends touches nothing. -/
@[simp] theorem run_pure [Memory μ] (listener : Listener σ) (a : α) (m : μ) (s : σ) :
    (pure a : Transaction α).run listener m s = (a, m, s) := rfl

/-- A composed transaction runs its parts one after the other. -/
theorem run_bind [Memory μ] (listener : Listener σ) (t : Transaction α) (f : α → Transaction β)
    (m : μ) (s : σ) :
    (t >>= f).run listener m s =
      let (a, m, s) := t.run listener m s
      (f a).run listener m s := by
  change (t.bind f).run listener m s = _
  induction t generalizing m s with
  | done a => rfl
  | _ => simp only [bind, run, *]

/-! ## Single accesses -/

/-- Reads a byte. -/
def readByte (addr : UInt16) : Transaction UInt8 := read addr done

/-- Writes a byte. -/
def writeByte (addr : UInt16) (value : UInt8) : Transaction Unit := write addr value (done ())

/-- Reads a word: the low byte at the address, the high byte after it. -/
def readWord (addr : UInt16) : Transaction UInt16 := do
  let lo ← readByte addr
  let hi ← readByte (addr + 1)
  return Word.ofBytes hi lo

/-- Writes a word: the low byte at the address, the high byte after it. -/
def writeWord (addr : UInt16) (value : UInt16) : Transaction Unit := do
  writeByte addr (Word.low value)
  writeByte (addr + 1) (Word.high value)

/-- Reads a byte, writes back the first part of what a function makes of it, and returns the second
part. -/
def exchangeByte (addr : UInt16) (f : UInt8 → UInt8 × α) : Transaction α := do
  let (value, result) := f (← readByte addr)
  writeByte addr value
  return result

/-- Reads a byte, writes back what a function makes of it, and returns the new value. -/
def updateByte (addr : UInt16) (f : UInt8 → UInt8) : Transaction UInt8 :=
  exchangeByte addr fun b => (f b, f b)

/-- Asks for the bits of the active sources. -/
def activeInterrupts : Transaction UInt8 := poll done

/-- Withdraws the request of a source. -/
def acknowledgeInterrupt (source : Interrupt) : Transaction Unit := acknowledge source (done ())

/-- Reports an event. -/
def reportEvent (event : Event) : Transaction Unit := report event (done ())

end Transaction

end GameBoy
