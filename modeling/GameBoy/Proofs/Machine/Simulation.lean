import GameBoy.Proofs.Machine.Steps

/-!
# Memories that answer alike

Two kinds of memory may keep their bytes in different ways and still give a program the same answers.
`Memory.Simulation` is what this takes of two memories in a relation, access by access: allowed reads
return the same byte, everything that is reported is reported by both, and they stay in the relation.
It is only asked for the accesses that are allowed, so the memories may differ elsewhere.

Then transactions, steps and any number of steps have the same results on both, as long as those on
the first memory keep to allowed accesses (`Simulation.run`, `Simulation.step`,
`Simulation.stepMany`).  What the second machine accesses need not be known.  Where all accesses are
allowed the same holds of ticks (`Simulation.tick`).
-/

namespace GameBoy

variable {α μ ν σ : Type} [Memory μ] [Memory ν]

/-- Memories in a relation answer allowed accesses alike and stay in the relation. -/
structure Memory.Simulation (allowed : Access → Prop) (R : μ → ν → Prop) : Prop where
  read : ∀ {m n addr}, R m n → allowed (.read addr) → Memory.read n addr = Memory.read m addr
  readEvents : ∀ {m n addr}, R m n → allowed (.read addr) →
    Memory.readEvents n addr = Memory.readEvents m addr
  write : ∀ {m n addr value}, R m n → allowed (.write addr value) →
    R (Memory.write m addr value) (Memory.write n addr value)
  writeEvents : ∀ {m n addr value}, R m n → allowed (.write addr value) →
    Memory.writeEvents n addr value = Memory.writeEvents m addr value
  active : ∀ {m n}, R m n → Memory.active n = Memory.active m
  acknowledge : ∀ {m n}, R m n → ∀ source,
    R (Memory.acknowledge m source) (Memory.acknowledge n source)

/-- What two runs have in common: the result, what was heard, and that their ends are related. -/
structure Alike (R : μ → ν → Prop) (x : α × μ × σ) (y : α × ν × σ) : Prop where
  result : y.1 = x.1
  related : R x.2.1 y.2.1
  heard : y.2.2 = x.2.2

omit [Memory μ] [Memory ν] in

/-- A run that ends like another one differs from it in the memory at most. -/
theorem Alike.exists_eq {R : μ → ν → Prop} {a : α} {m : μ} {s : σ} {y : α × ν × σ}
    (h : Alike R (a, m, s) y) : ∃ n, y = (a, n, s) ∧ R m n := by
  obtain ⟨a', n, s'⟩ := y
  obtain rfl : a' = a := h.result
  obtain rfl : s' = s := h.heard
  exact ⟨n, rfl, h.related⟩

/-- Machines with the same processor on related memories. -/
structure Machine.Related (R : μ → ν → Prop) (m : Machine μ) (n : Machine ν) : Prop where
  cpu : n.cpu = m.cpu
  memory : R m.memory n.memory

omit [Memory μ] [Memory ν] in
/-- A memory that determines the one it is related to determines the machine. -/
theorem Machine.Related.eq {f : μ → ν} {m : Machine μ} {n : Machine ν}
    (h : m.Related (fun memory memory' => memory' = f memory) n) : n = ⟨m.cpu, f m.memory⟩ := by
  obtain ⟨cpu, memory⟩ := n
  rw [← h.cpu, ← h.memory]

omit [Memory μ] [Memory ν] in
/-- What is made of the results has in common what the results have. -/
theorem Alike.map {β : Type} {R : μ → ν → Prop} {x : α × Machine μ × σ} {y : α × Machine ν × σ}
    (h : Alike (Machine.Related R) x y) (f : α → β) :
    Alike (Machine.Related R) (f x.1, Machine.after x) (f y.1, Machine.after y) :=
  ⟨congrArg f h.result, h.related, h.heard⟩

namespace Memory.Simulation

variable {allowed : Access → Prop} {R : μ → ν → Prop} (hsim : Memory.Simulation allowed R)
  {listener : Listener σ}

include hsim

/-- A transaction goes alike on related memories, as long as its accesses to the first are
allowed. -/
theorem run (t : Transaction α) {m : μ} {n : ν} (h : R m n)
    (hallowed : ∀ access ∈ t.accesses m, allowed access) (s : σ) :
    Alike R (t.run listener m s) (t.run listener n s) := by
  -- The allowed accesses are split up in the order in which the transaction makes them.
  induction t generalizing m n s with
  | done a => exact ⟨rfl, h, rfl⟩
  | read addr next ih =>
    rw [Transaction.accesses, List.forall_mem_cons] at hallowed
    -- Both go on with the same byte, so the induction covers the rest.
    rw [Transaction.run, Transaction.run, hsim.read h hallowed.1, hsim.readEvents h hallowed.1]
    exact ih _ h hallowed.2 _
  | write addr value next ih =>
    rw [Transaction.accesses, List.forall_mem_cons] at hallowed
    rw [Transaction.run, Transaction.run, hsim.writeEvents h hallowed.1]
    -- A write changes both memories, which stay related.
    exact ih (hsim.write h hallowed.1) hallowed.2 _
  | poll next ih =>
    rw [Transaction.accesses, List.forall_mem_cons] at hallowed
    rw [Transaction.run, Transaction.run, hsim.active h]
    exact ih _ h hallowed.2 s
  | acknowledge source next ih =>
    rw [Transaction.accesses, List.forall_mem_cons] at hallowed
    exact ih (hsim.acknowledge h source) hallowed.2 s
  | report event next ih => exact ih h hallowed _

/-- A step goes alike on related machines. -/
theorem step {m : Machine μ} {n : Machine ν} (h : m.Related R n)
    (hallowed : ∀ access ∈ m.accesses, allowed access) (s : σ) :
    Alike (Machine.Related R) (m.step listener s) (n.step listener s) := by
  have hrun : Alike R ((Execution.step.run m.cpu).run listener m.memory s)
      ((Execution.step.run m.cpu).run listener n.memory s) := hsim.run _ h.memory hallowed s
  rw [Machine.step, Machine.step, Machine.perform, Machine.perform, h.cpu]
  -- The processor after a step is part of the result of its transaction.
  exact ⟨congrArg Prod.fst hrun.result, ⟨congrArg Prod.snd hrun.result, hrun.related⟩, hrun.heard⟩

/-- An access from outside goes alike on related machines and leaves their processors. -/
theorem access (t : Transaction α) {m : Machine μ} {n : Machine ν} (h : m.Related R n)
    (hallowed : ∀ access ∈ t.accesses m.memory, allowed access) (s : σ) :
    Alike (Machine.Related R) (m.access t listener s) (n.access t listener s) := by
  have hrun : Alike R (t.run listener m.memory s) (t.run listener n.memory s) :=
    hsim.run t h.memory hallowed s
  exact ⟨hrun.result, ⟨h.cpu, hrun.related⟩, hrun.heard⟩

/-- After any number of steps the machines are still related, and the listeners have heard the
same. -/
theorem stepMany (count : Nat) {c : Machine μ × σ} {d : Machine ν × σ} (h : c.1.Related R d.1)
    (hheard : d.2 = c.2)
    (hallowed : ∀ k < count, ∀ access ∈ (Machine.stepMany listener k c).1.accesses,
      allowed access) :
    (Machine.stepMany listener count c).1.Related R (Machine.stepMany listener count d).1 ∧
      (Machine.stepMany listener count d).2 = (Machine.stepMany listener count c).2 := by
  induction count generalizing c d with
  | zero => exact ⟨h, hheard⟩
  | succ count ih =>
    have hstep : Alike (Machine.Related R) (c.1.step listener c.2) (d.1.step listener c.2) :=
      hsim.step h (hallowed 0 (Nat.zero_lt_succ count)) c.2
    rw [Machine.stepMany, Machine.stepMany, hheard]
    -- The accesses of step `k` from here on are those of step `k + 1` from the start.
    exact ih hstep.related hstep.heard fun k hk => hallowed (k + 1) (Nat.succ_lt_succ hk)

/-! ## Ticks

Where every access is allowed, nothing need be known about the steps of a tick. -/

section Total

variable (hall : ∀ access, allowed access)
include hall

/-- Going towards a target goes alike on related machines. -/
theorem runUntil (target : UInt64) {m : Machine μ} {n : Machine ν} (h : m.Related R n) (s : σ) :
    Alike (Machine.Related R) (m.runUntil target listener s) (n.runUntil target listener s) := by
  -- A round of the loop on the first machine decides how it goes on the second one.
  have hround (m : Machine μ) (n : Machine ν) (h : m.Related R n) (s : σ) :
      Alike (Machine.Related R) (m.step listener s) (n.step listener s) :=
    hsim.step h (fun access _ => hall access) s
  refine Machine.runUntil.induct target listener
    (fun m s => ∀ n : Machine ν, m.Related R n →
      Alike (Machine.Related R) (m.runUntil target listener s) (n.runUntil target listener s))
    ?fault ?more ?stuck ?reached m s n h
  case fault =>
    intro m s before _ hlt fault after s' hstep n h
    obtain ⟨n', hn, hrelated⟩ := (hstep ▸ hround m n h s).exists_eq
    rw [Machine.runUntil_of_fault hlt hstep, Machine.runUntil_of_fault (h.cpu ▸ hlt) hn]
    exact ⟨rfl, hrelated, rfl⟩
  case more =>
    -- The counters agree, so the second loop goes on as well.
    intro m s before _ hlt cycles after s' hstep hup ih n h
    obtain ⟨n', hn, hrelated⟩ := (hstep ▸ hround m n h s).exists_eq
    rw [Machine.runUntil_of_up hlt hstep hup,
      Machine.runUntil_of_up (h.cpu ▸ hlt) hn (h.cpu ▸ hrelated.cpu ▸ hup)]
    exact ih n' hrelated
  case stuck =>
    intro m s before _ hlt cycles after s' hstep hup n h
    obtain ⟨n', hn, hrelated⟩ := (hstep ▸ hround m n h s).exists_eq
    rw [Machine.runUntil_of_not_up hlt hstep hup,
      Machine.runUntil_of_not_up (h.cpu ▸ hlt) hn (h.cpu ▸ hrelated.cpu ▸ hup)]
    exact ⟨rfl, hrelated, rfl⟩
  case reached =>
    intro m s before _ hge n h
    rw [Machine.runUntil_of_reached hge, Machine.runUntil_of_reached (h.cpu ▸ hge)]
    exact ⟨rfl, h, rfl⟩

/-- A tick goes alike on related machines. -/
theorem tick (elapsed : Duration) {m : Machine μ} {n : Machine ν} (h : m.Related R n) (s : σ) :
    Alike (Machine.Related R) (m.tick elapsed listener s) (n.tick elapsed listener s) := by
  rw [Machine.tick, Machine.tick, h.cpu]
  exact hsim.runUntil hall (m.cpu.target elapsed) h s

end Total

end Memory.Simulation

end GameBoy
