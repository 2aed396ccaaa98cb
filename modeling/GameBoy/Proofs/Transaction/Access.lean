import GameBoy.Transaction

/-!
# Accesses of a transaction

What a transaction does to a memory is a list of accesses (`Transaction.accesses`), and the memory
that it leaves is the one that these accesses make, one after the other (`run_memory`).  So what
every access preserves is preserved by every transaction (`performAll_induction`), whatever
computes it.

The result, the memory and the accesses do not depend on who listens: `run_eq_eval` reduces any run
to `eval`.  `Transaction.Only` bounds the accesses of a transaction from its text alone, over every
memory.
-/

namespace GameBoy

variable {α β μ σ : Type}

/-- An access to the memory, or to the interrupts that it keeps. -/
inductive Access where
  | read (addr : UInt16)
  | write (addr : UInt16) (value : UInt8)
  | poll
  | acknowledge (source : Interrupt)
  deriving DecidableEq

namespace Access

variable [Memory μ]

/-- What an access makes of the memory. -/
def perform (m : μ) : Access → μ
  | read _ | poll => m
  | write addr value => Memory.write m addr value
  | acknowledge source => Memory.acknowledge m source

/-- The memory after some accesses, the first one first. -/
def performAll (m : μ) (accesses : List Access) : μ := accesses.foldl perform m

/-- No accesses leave the memory as it is. -/
@[simp] theorem performAll_nil (m : μ) : performAll m [] = m := rfl

/-- The first access comes first. -/
@[simp] theorem performAll_cons (m : μ) (access : Access) (accesses : List Access) :
    performAll m (access :: accesses) = performAll (access.perform m) accesses := rfl

/-- What writes and acknowledgements preserve is preserved by any accesses. -/
theorem performAll_induction {P : μ → Prop}
    (write : ∀ m addr value, P m → P (Memory.write m addr value))
    (acknowledge : ∀ m source, P m → P (Memory.acknowledge m source)) {m : μ} (h : P m)
    (accesses : List Access) : P (performAll m accesses) := by
  induction accesses generalizing m with
  | nil => exact h
  | cons access rest ih =>
    rw [performAll_cons]
    apply ih
    -- Reading and asking leave the memory as it is.
    cases access with
    | read addr => exact h
    | write addr value => exact write m addr value h
    | poll => exact h
    | acknowledge source => exact acknowledge m source h

end Access

namespace Transaction

/-- The accesses that a transaction makes, the first one first. -/
def accesses [Memory μ] : Transaction α → μ → List Access
  | done _, _ => []
  | read addr next, m => .read addr :: (next (Memory.read m addr)).accesses m
  | write addr value next, m => .write addr value :: next.accesses (Memory.write m addr value)
  | poll next, m => .poll :: (next (Memory.active m)).accesses m
  | acknowledge source next, m => .acknowledge source :: next.accesses (Memory.acknowledge m source)
  | report _ next, m => next.accesses m

section Memory

variable [Memory μ]

/-- A transaction leaves the memory that its accesses make. -/
theorem run_memory (listener : Listener σ) (t : Transaction α) (m : μ) (s : σ) :
    (t.run listener m s).2.1 = Access.performAll m (t.accesses m) := by
  induction t generalizing m s with
  | done a => rfl
  | read addr next ih => exact ih _ m _
  | write addr value next ih => exact ih _ _
  | poll next ih => exact ih _ m s
  | acknowledge source next ih => exact ih _ s
  | report event next ih => exact ih m _

/-- The result and the memory do not depend on the listener. -/
theorem run_eq_eval (listener : Listener σ) (t : Transaction α) (m : μ) (s : σ) :
    t.run listener m s = ((t.eval m).1, (t.eval m).2, (t.run listener m s).2.2) := by
  -- The states of the two listeners differ at every turn, so the induction is over both of them.
  have h {σ' : Type} (listener' : Listener σ') (s' : σ') :
      (t.run listener m s).1 = (t.run listener' m s').1 ∧
        (t.run listener m s).2.1 = (t.run listener' m s').2.1 := by
    induction t generalizing m s s' with
    | done a => exact ⟨rfl, rfl⟩
    | read addr next ih => exact ih _ m _ _
    | write addr value next ih => exact ih _ _ _
    | poll next ih => exact ih _ m s s'
    | acknowledge source next ih => exact ih _ s s'
    | report event next ih => exact ih m _ _
  exact Prod.ext (h Listener.deaf ()).1 (Prod.ext (h Listener.deaf ()).2 rfl)

/-! ## Composition -/

/-- A transaction that is done leaves the memory as it is. -/
@[simp] theorem eval_pure (a : α) (m : μ) : (pure a : Transaction α).eval m = (a, m) := rfl

/-- A sequence is evaluated part by part. -/
@[simp] theorem eval_bind (t : Transaction α) (f : α → Transaction β) (m : μ) :
    (t >>= f).eval m = (f (t.eval m).1).eval (t.eval m).2 := by
  rw [eval, run_bind]
  rfl

/-- A transaction that is done makes no accesses. -/
@[simp] theorem accesses_pure (a : α) (m : μ) : (pure a : Transaction α).accesses m = [] := rfl

/-- A composed transaction makes the accesses of its parts, one part after the other. -/
theorem accesses_bind (t : Transaction α) (f : α → Transaction β) (m : μ) :
    (t >>= f).accesses m = t.accesses m ++ (f (t.eval m).1).accesses (t.eval m).2 := by
  -- Over the first part; the second one starts from the memory that it leaves.
  show (t.bind f).accesses m = _
  induction t generalizing m with
  | done a => rfl
  | read addr next ih => exact congrArg (Access.read addr :: ·) (ih _ m)
  | write addr value next ih => exact congrArg (Access.write addr value :: ·) (ih _)
  | poll next ih => exact congrArg (Access.poll :: ·) (ih _ m)
  | acknowledge source next ih => exact congrArg (Access.acknowledge source :: ·) (ih _)
  | report event next ih => exact ih m

end Memory

/-! ## Bounds on the accesses -/

/-- Every access that a transaction can make, whatever it reads, is allowed. -/
def Only (allowed : Access → Prop) : Transaction α → Prop
  | done _ => True
  | read addr next => allowed (.read addr) ∧ ∀ b, (next b).Only allowed
  | write addr value next => allowed (.write addr value) ∧ next.Only allowed
  | poll next => allowed .poll ∧ ∀ b, (next b).Only allowed
  | acknowledge source next => allowed (.acknowledge source) ∧ next.Only allowed
  | report _ next => next.Only allowed

variable {allowed : Access → Prop}

/-- A sequence of parts that keep to what is allowed keeps to it. -/
theorem Only.bind {t : Transaction α} {f : α → Transaction β} (ht : t.Only allowed)
    (hf : ∀ a, (f a).Only allowed) : (t >>= f).Only allowed := by
  show (t.bind f).Only allowed
  induction t with
  | done a => exact hf a
  | read addr next ih => exact ⟨ht.1, fun b => ih b (ht.2 b)⟩
  | write addr value next ih => exact ⟨ht.1, ih ht.2⟩
  | poll next ih => exact ⟨ht.1, fun b => ih b (ht.2 b)⟩
  | acknowledge source next ih => exact ⟨ht.1, ih ht.2⟩
  | report event next ih => exact ih ht

/-- The accesses to a particular memory are among those that the text allows. -/
theorem Only.forall_accesses [Memory μ] {t : Transaction α} (h : t.Only allowed) (m : μ) :
    ∀ access ∈ t.accesses m, allowed access := by
  induction t generalizing m with
  | done a => exact List.forall_mem_nil _
  | read addr next ih => exact List.forall_mem_cons.mpr ⟨h.1, ih _ (h.2 _) m⟩
  | write addr value next ih => exact List.forall_mem_cons.mpr ⟨h.1, ih h.2 _⟩
  | poll next ih => exact List.forall_mem_cons.mpr ⟨h.1, ih _ (h.2 _) m⟩
  | acknowledge source next ih => exact List.forall_mem_cons.mpr ⟨h.1, ih h.2 _⟩
  | report event next ih => exact ih h m

end Transaction

end GameBoy
