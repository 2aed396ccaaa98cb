import GameBoy.Proofs.Machine.Fault

/-!
# Observers

An observer is called with the registers and the instruction each time one is about to execute.
`Machine.deed` says what a step does: it executes an instruction, serves a source, sleeps, or fails.
Of a run the observer learns the executed instructions, in order, and nothing else
(`Machine.heard_stepMany`), provided that the memory does not announce instructions of its own, as
the bus (`Bus.discreet`) and flat memory (`FlatMemory.discreet`) do not.

The registers that an observer is called with include the cycle counter.  It tells how long the steps
before have taken (`Machine.cycles_of_deeds`), so two calls lie apart by the cycles of the first
instruction and of what was done in between (`Machine.observes_each_instruction`).
-/

namespace GameBoy

variable {μ σ : Type} [Memory μ]

/-- Nothing is reported about flat memory. -/
theorem FlatMemory.discreet : Memory.Discreet FlatMemory where
  readEvents _ _ _ h := nomatch h
  writeEvents _ _ _ _ h := nomatch h

namespace Listener

/-- The listener that passes the instructions on to an observer and drops everything else. -/
def observer (f : σ → RegisterDump → Descriptor → σ) : Listener σ := fun s event =>
  match event with
  | .executing registers next => f s registers next
  | _ => s

/-- The listener that keeps the lines of the trace. -/
def traceLog : Listener (List String) := fun lines event =>
  if event.target = Event.traceTarget then lines ++ [event.message] else lines

/-- An observer takes notice of instructions only. -/
theorem selective_observer (f : σ → RegisterDump → Descriptor → σ) : (observer f).Selective := by
  intro s event h
  cases event
  case executing => exact absurd trivial h
  all_goals rfl

/-- The trace takes notice of instructions only. -/
theorem selective_traceLog : traceLog.Selective := by
  intro lines event h
  -- No other event is addressed to the trace.
  refine if_neg ?_
  cases event
  case executing => exact absurd trivial h
  all_goals simp [Event.target, Event.traceTarget]

/-- Every instruction that is announced becomes a line. -/
theorem foldl_traceLog (calls : List (RegisterDump × Descriptor)) (lines : List String) :
    calls.foldl (fun lines call => traceLog lines (.executing call.1 call.2)) lines =
      lines ++ calls.map fun call => call.1.traceLine call.2 := by
  -- Over the calls, with the lines so far left open.
  induction calls generalizing lines with
  | nil => exact (List.append_nil lines).symm
  | cons call rest ih =>
    have hline : traceLog lines (.executing call.1 call.2) = lines ++ [call.1.traceLine call.2] :=
      if_pos rfl
    rw [List.foldl_cons, hline, ih, List.map_cons, List.append_assoc, List.singleton_append]

end Listener

/-- What a step does. -/
inductive Deed where
  /-- An instruction is executed: the registers from right before it, and the cycles that it took. -/
  | executed (registers : RegisterDump) (next : Descriptor) (cycles : UInt8)
  | served (source : Interrupt)
  | slept
  | failed (fault : Fault)
  deriving DecidableEq

namespace Deed

/-- What an observer is called with, if it is called. -/
def call? : Deed → Option (RegisterDump × Descriptor)
  | executed registers next _ => some (registers, next)
  | served _ | slept | failed _ => none

/-- What the step that does it results in. -/
def result : Deed → Except Fault UInt8
  | executed _ _ cycles => .ok cycles
  | served _ => .ok interruptCycles
  | slept => .ok sleepCycles
  | failed fault => .error fault

/-- The clock cycles that pass. -/
def cycles : Deed → Nat
  | executed _ _ cycles => cycles.toNat
  | served _ => 20
  | slept => 4
  | failed _ => 0

/-- The clock cycles that pass while all of this is done. -/
def totalCycles : List Deed → Nat
  | [] => 0
  | deed :: rest => deed.cycles + totalCycles rest

/-- The cycles of what is done add up. -/
theorem totalCycles_append (before after : List Deed) :
    totalCycles (before ++ after) = totalCycles before + totalCycles after := by
  induction before with
  | nil => exact (Nat.zero_add _).symm
  | cons deed rest ih => rw [List.cons_append, totalCycles, ih, totalCycles, Nat.add_assoc]

/-- What succeeds takes the cycles that it results in. -/
theorem cycles_of_ok {deed : Deed} {cost : UInt8} (h : deed.result = .ok cost) :
    deed.cycles = cost.toNat := by
  cases deed <;> cases h <;> rfl

/-- What fails takes no time. -/
theorem cycles_of_error {deed : Deed} {fault : Fault} (h : deed.result = .error fault) :
    deed.cycles = 0 := by
  cases deed <;> cases h
  rfl

end Deed

/-- After 0xCB the next byte selects an instruction of the other table. -/
theorem Descriptor.select_eq (code next : UInt8) :
    select code next = if code = 0xCB then some (extended next) else primary code := by
  rw [select, primary_eq]
  by_cases hcode : code = 0xCB
  · rw [if_pos hcode, (Instruction.decode_eq_extend_iff code).mpr hcode]
    rfl
  · rw [if_neg hcode]
    cases hdecode : Instruction.decode code with
    | none => rfl
    | some i =>
      have hextend : i ≠ .extend := by
        rintro rfl
        exact hcode ((Instruction.decode_eq_extend_iff code).mp hdecode)
      exact congrArg some (if_neg hextend)

namespace Machine

variable {m : Machine μ}

/-- The entry of the tables of op codes that the bytes at the program counter select. -/
def selected (m : Machine μ) : Option Descriptor :=
  if Memory.read m.memory m.cpu.pc = 0xCB then
    some (.extended (Memory.read m.memory (m.cpu.pc + 1)))
  else Descriptor.primary (Memory.read m.memory m.cpu.pc)

/-- What the next step does. -/
def deed (m : Machine μ) : Deed :=
  match m.duty with
  | .serve source => .served source
  | .sleep => .slept
  | .execute =>
    match m.selected, (m.step Listener.deaf ()).1 with
    | some d, .ok cycles => .executed m.cpu.dump d cycles
    | _, _ => .failed m.fault

/-- What some steps do, whether they succeed or not. -/
def deeds : Nat → Machine μ → List Deed
  | 0, _ => []
  | n + 1, m => m.deed :: deeds n (m.step Listener.deaf ()).2.1

/-- What an observer of some steps is called with. -/
def calls (m : Machine μ) (n : Nat) : List (RegisterDump × Descriptor) :=
  (deeds n m).filterMap Deed.call?

/-! ## What a step does -/

/-- What is fetched is the entry that the bytes select. -/
theorem fetched_eq_selected (m : Machine μ) : m.fetched = m.selected := Descriptor.select_eq _ _

/-- A step that serves a source does that. -/
theorem deed_of_serve {source : Interrupt} (hduty : m.duty = .serve source) :
    m.deed = .served source := by
  rw [deed, hduty]

/-- A step that sleeps does that. -/
theorem deed_of_sleep (hduty : m.duty = .sleep) : m.deed = .slept := by
  rw [deed, hduty]

/-- A step that finds no entry for its op code fails. -/
theorem deed_of_selected_none (hduty : m.duty = .execute) (hselected : m.selected = none) :
    m.deed = .failed m.fault := by
  rw [deed, hduty, hselected]

/-- A step with an instruction to execute does not fail. -/
theorem deed_of_selected_some (hduty : m.duty = .execute) {d : Descriptor}
    (hselected : m.selected = some d) :
    ∃ cycles, (m.step Listener.deaf ()).1 = .ok cycles ∧
      m.deed = .executed m.cpu.dump d cycles := by
  cases hresult : (m.step Listener.deaf ()).1 with
  | ok cycles => exact ⟨cycles, rfl, by rw [deed, hduty, hselected, hresult]⟩
  | error fault =>
    have hnone := (execute_of_error hresult).2
    rw [fetched_eq_selected, hselected] at hnone
    cases hnone

/-- What a step results in is what it does, whoever listens. -/
theorem result_step (m : Machine μ) (listener : Listener σ) (s : σ) :
    (m.step listener s).1 = m.deed.result := by
  cases hduty : m.duty with
  | serve source =>
    rw [deed_of_serve hduty]
    exact (step_of_serve hduty listener s).1
  | sleep =>
    rw [deed_of_sleep hduty, step_of_sleep hduty]
    rfl
  | execute =>
    cases hselected : m.selected with
    | none =>
      rw [deed_of_selected_none hduty hselected,
        step_of_fetched_eq_none hduty (m.fetched_eq_selected.trans hselected)]
      rfl
    | some d =>
      obtain ⟨cycles, hok, hdeed⟩ := deed_of_selected_some hduty hselected
      obtain ⟨t, ht⟩ := step_of_step (Prod.ext hok rfl) listener s
      rw [hdeed, ht]
      rfl

/-- What a selective listener hears of a step is the call that the step deserves. -/
theorem heard_step_eq (hμ : Memory.Discreet μ) {listener : Listener σ}
    (hlistener : listener.Selective) (m : Machine μ) (s : σ) :
    (m.step listener s).2.2 = m.deed.call?.toList.foldl
      (fun s call => listener s (.executing call.1 call.2)) s := by
  rw [heard_step hμ hlistener, fetched_eq_selected]
  -- By the duty: only an instruction that is fetched makes a call.
  cases hduty : m.duty with
  | serve source =>
    rw [deed_of_serve hduty]
    rfl
  | sleep =>
    rw [deed_of_sleep hduty]
    rfl
  | execute =>
    cases hselected : m.selected with
    | none =>
      rw [deed_of_selected_none hduty hselected]
      rfl
    | some d =>
      obtain ⟨cycles, -, hdeed⟩ := deed_of_selected_some hduty hselected
      rw [hdeed]
      rfl

/-- An instruction that is executed takes time. -/
theorem pos_of_deed {registers : RegisterDump} {d : Descriptor} {cycles : UInt8}
    (h : m.deed = .executed registers d cycles) : 0 < cycles.toNat := by
  have hresult := m.result_step Listener.deaf ()
  rw [h] at hresult
  exact Instruction.pos_of_mem_stepCosts (cycles_of_ok hresult).1

/-- An instruction that is executed is the one that the bytes select, and the registers are those from
before the step. -/
theorem executed_of_deed {registers : RegisterDump} {d : Descriptor} {cycles : UInt8}
    (h : m.deed = .executed registers d cycles) :
    m.duty = .execute ∧ m.selected = some d ∧ registers = m.cpu.dump := by
  unfold deed at h
  split at h
  case h_1 => cases h
  case h_2 => cases h
  case h_3 hduty =>
    split at h
    · next hselected hresult =>
      cases h
      exact ⟨hduty, hselected, rfl⟩
    · cases h

/-- As long as there is room in it the counter moves by the cycles of what is done. -/
theorem toNat_cycles_step (hroom : m.cpu.cycles.toNat + m.deed.cycles < UInt64.size) :
    (m.step Listener.deaf ()).2.1.cpu.cycles.toNat = m.cpu.cycles.toNat + m.deed.cycles := by
  have hstep := m.result_step Listener.deaf ()
  -- A step that fails leaves the counter, and any other adds what it results in.
  cases hresult : m.deed.result with
  | ok cost =>
    rw [hresult] at hstep
    rw [Deed.cycles_of_ok hresult] at hroom ⊢
    rw [(cycles_of_ok hstep).2, UInt64.toNat_add, UInt8.toNat_toUInt64]
    exact Nat.mod_eq_of_lt hroom
  | error fault =>
    rw [hresult] at hstep
    have hclock : (m.step Listener.deaf ()).2.1.cpu.cycles = m.cpu.cycles :=
      congrArg Clockwork.cycles (clockwork_of_error hstep)
    rw [hclock, Deed.cycles_of_error hresult, Nat.add_zero]

/-! ## Runs -/

/-- The calls of a run are those of its first step and then those of the others. -/
theorem calls_succ (m : Machine μ) (n : Nat) :
    m.calls (n + 1) = m.deed.call?.toList ++ (m.step Listener.deaf ()).2.1.calls n := by
  cases hcall : m.deed.call? <;> simp [calls, deeds, hcall]

/-- A selective listener hears of every instruction that is executed, in order, and of nothing
else. -/
theorem heard_stepMany (hμ : Memory.Discreet μ) {listener : Listener σ}
    (hlistener : listener.Selective) (n : Nat) (m : Machine μ) (s : σ) :
    (stepMany listener n (m, s)).2 =
      (m.calls n).foldl (fun s call => listener s (.executing call.1 call.2)) s := by
  -- Over the steps, for any state of the listener.
  induction n generalizing m s with
  | zero => rfl
  | succ n ih =>
    -- The machine goes on as if nobody had listened, so the rest of the calls are those of its run.
    have hmachine := machine_step_eq listener Listener.deaf m s ()
    show (stepMany listener n ((m.step listener s).2.1, (m.step listener s).2.2)).2 = _
    rw [hmachine, ih, heard_step_eq hμ hlistener, calls_succ, List.foldl_append]

/-- The counter at a call tells how many cycles have passed. -/
theorem cycles_of_deeds {n : Nat} {before after : List Deed} {registers : RegisterDump}
    {d : Descriptor} {cycles : UInt8}
    (h : deeds n m = before ++ .executed registers d cycles :: after)
    (hroom : m.cpu.cycles.toNat + Deed.totalCycles before < UInt64.size) :
    registers.cycles.toNat = m.cpu.cycles.toNat + Deed.totalCycles before := by
  -- What is done before the call moves the counter, one deed after the other.
  induction before generalizing n m with
  | nil =>
    cases n with
    | zero => cases h
    | succ n =>
      obtain ⟨hdeed, -⟩ := List.cons.inj h
      rw [(executed_of_deed hdeed).2.2]
      rfl
  | cons first rest ih =>
    cases n with
    | zero => cases h
    | succ n =>
      obtain ⟨hdeed, hlater⟩ := List.cons.inj h
      rw [Deed.totalCycles, ← hdeed] at hroom ⊢
      have hstep := toNat_cycles_step (m := m) (by omega)
      rw [ih hlater (by omega), hstep, Nat.add_assoc]

/-- An observer is called at the machine that the steps before lead to, with the registers that it has
there and the entry of the tables that its bytes select. -/
theorem shown_of_deeds {n : Nat} {before after : List Deed} {registers : RegisterDump}
    {d : Descriptor} {cycles : UInt8}
    (h : deeds n m = before ++ .executed registers d cycles :: after) :
    let now := (stepMany Listener.deaf before.length (m, ())).1
    now.duty = .execute ∧ now.selected = some d ∧ now.cpu.Shown registers := by
  -- Every deed before the call is one step of the machine.
  induction before generalizing n m with
  | nil =>
    cases n with
    | zero => cases h
    | succ n =>
      obtain ⟨hduty, hselected, rfl⟩ := executed_of_deed (List.cons.inj h).1
      exact ⟨hduty, hselected, m.cpu.shown_dump⟩
  | cons first rest ih =>
    cases n with
    | zero => cases h
    | succ n => exact ih (List.cons.inj h).2

/-- Every instruction of a run takes time. -/
theorem pos_of_mem_deeds {n : Nat} {registers : RegisterDump} {d : Descriptor} {cycles : UInt8}
    (h : .executed registers d cycles ∈ deeds n m) : 0 < cycles.toNat := by
  induction n generalizing m with
  | zero => cases h
  | succ n ih =>
    rcases List.mem_cons.mp h with hdeed | hlater
    · exact pos_of_deed hdeed.symm
    · exact ih hlater

/-- Two calls of an observer lie apart by the cycles of the first instruction and of all that is done
until the second one. -/
theorem cycles_between {n : Nat} {before between rest : List Deed} {r r' : RegisterDump}
    {d d' : Descriptor} {c c' : UInt8}
    (h : deeds n m = before ++ .executed r d c :: (between ++ .executed r' d' c' :: rest))
    (hroom : m.cpu.cycles.toNat + Deed.totalCycles (deeds n m) < UInt64.size) :
    r'.cycles.toNat = r.cycles.toNat + c.toNat + Deed.totalCycles between := by
  have hsplit : deeds n m = (before ++ .executed r d c :: between) ++ .executed r' d' c' :: rest := by
    rw [h, List.append_assoc, List.cons_append]
  -- Both calls come within the steps, so the counter has room for the cycles before them.
  have hpart : Deed.totalCycles (before ++ .executed r d c :: between) =
      Deed.totalCycles before + (c.toNat + Deed.totalCycles between) := Deed.totalCycles_append ..
  have htotal : Deed.totalCycles (deeds n m) =
      Deed.totalCycles (before ++ .executed r d c :: between) +
        (c'.toNat + Deed.totalCycles rest) := by
    rw [hsplit]
    exact Deed.totalCycles_append ..
  have hfirst := cycles_of_deeds h (by omega)
  have hsecond := cycles_of_deeds hsplit (by omega)
  omega

/-- Of any run an observer learns every instruction that is executed, in order, with the registers
from right before it and the entry of the tables that its bytes select, and it is never called for
anything else; a trace is the lines of these calls.  The call for a step that executes shows all
registers of the machine that the steps before it lead to.  Observing makes no difference to the
machine or to the results, in steps as well as in ticks.  The counter goes up from call to call, by
the cycles of the instruction and of what is done before the next one. -/
theorem observes_each_instruction (hμ : Memory.Discreet μ) (m : Machine μ) :
    (∀ (n : Nat) {σ : Type} (f : σ → RegisterDump → Descriptor → σ) (s : σ),
      (stepMany (.observer f) n (m, s)).2 =
        (m.calls n).foldl (fun s call => f s call.1 call.2) s) ∧
    (∀ (n : Nat) (lines : List String),
      (stepMany Listener.traceLog n (m, lines)).2 =
        lines ++ (m.calls n).map fun call => call.1.traceLine call.2) ∧
    (∀ (n : Nat) (before after : List Deed) (r : RegisterDump) (d : Descriptor) (c : UInt8),
      deeds n m = before ++ .executed r d c :: after →
      let now := (stepMany Listener.deaf before.length (m, ())).1
      now.duty = .execute ∧ now.selected = some d ∧ now.cpu.Shown r) ∧
    (∀ {σ : Type} (listener : Listener σ) (s : σ), (m.step listener s).1 = m.deed.result ∧
      ∀ n, (stepMany listener n (m, s)).1 = (stepMany Listener.deaf n (m, ())).1) ∧
    (∀ elapsed : Duration, ∃ n, ∀ {σ : Type} (listener : Listener σ) (s : σ),
      (m.tick elapsed listener s).1 = (m.tick elapsed Listener.deaf ()).1 ∧
      after (m.tick elapsed listener s) = stepMany listener n (m, s)) ∧
    ∀ (n : Nat) (before between rest : List Deed) (r r' : RegisterDump) (d d' : Descriptor)
      (c c' : UInt8),
      deeds n m = before ++ .executed r d c :: (between ++ .executed r' d' c' :: rest) →
      m.cpu.cycles.toNat + Deed.totalCycles (deeds n m) < UInt64.size →
      r'.cycles.toNat = r.cycles.toNat + c.toNat + Deed.totalCycles between ∧
        r.cycles < r'.cycles := by
  refine ⟨fun n σ f s => ?_, fun n lines => ?_, fun n before after r d c => shown_of_deeds,
    fun listener s => ⟨?_, fun n => ?_⟩, fun elapsed => ?_, ?_⟩
  · exact heard_stepMany hμ (Listener.selective_observer f) n m s
  · rw [heard_stepMany hμ Listener.selective_traceLog, Listener.foldl_traceLog]
  · exact m.result_step listener s
  · exact machine_stepMany_eq n m listener s
  · exact exists_stepMany_runUntil (m.cpu.target elapsed) m
  · intro n before between rest r r' d d' c c' h hroom
    have hcycles := cycles_between h hroom
    have hmem : .executed r d c ∈ deeds n m := by
      rw [h]
      simp
    -- The first of the two instructions has taken time, so the counters differ.
    have hpos := pos_of_mem_deeds hmem
    refine ⟨hcycles, UInt64.lt_iff_toNat_lt.mpr ?_⟩
    omega

/-- A machine whose first step serves a source. -/
def interrupted : Machine FlatMemory := { derailed with cpu := { Cpu.initial with ime := true } }

/-- In two steps an observer is called once, at the start of the handler. -/
theorem observes_each_instruction_interrupted :
    let note (seen : List (UInt16 × UInt64)) (registers : RegisterDump) (_ : Descriptor) :=
      seen ++ [(registers.pc, registers.cycles)]
    (stepMany (.observer note) 2 (interrupted, [])).2 = [(0x0040, 20)] := by
  intro note
  have hduty : interrupted.duty = .serve .vblank := by
    show (interrupted.cpu.wake (Memory.active derailed.memory)).duty
      (Memory.active derailed.memory) = _
    rw [active_derailed]
    rfl
  obtain ⟨-, hserved⟩ := step_of_serve hduty Listener.deaf ()
  generalize hhandler : (interrupted.step Listener.deaf ()).2.1 = handler at hserved
  have hread (addr : UInt16) (hhigh : addr ≠ 0xFFFC ∧ addr ≠ 0xFFFD) :
      Memory.read handler.memory addr =
        if addr = pendingAddress then 0x00 else Memory.read derailed.memory addr := by
    -- The service withdraws the request and pushes the program counter on the stack.
    have hlast : addr ≠ interrupted.cpu.sp - 2 + 1 := hhigh.2
    have hfirst : addr ≠ interrupted.cpu.sp - 2 := hhigh.1
    have hrequests : Memory.read derailed.memory pendingAddress &&& ~~~Interrupt.vblank.mask = 0 := by
      rw [read_derailed]
      rfl
    rw [hserved, FlatMemory.read_write, if_neg hlast, FlatMemory.read_write, if_neg hfirst,
      ← hrequests]
    exact FlatMemory.read_write derailed.memory pendingAddress addr _
  have hactive : Memory.active handler.memory = 0 := by
    show Memory.read handler.memory enableAddress &&& Memory.read handler.memory pendingAddress
      &&& 0x1F = _
    rw [hread _ (by decide), hread pendingAddress (by decide), if_pos rfl, UInt8.and_zero,
      UInt8.zero_and]
  have hnext : handler.duty = .execute := by
    rw [duty, hactive, hserved]
    rfl
  -- The memory is zero at the vector, which is the op code of an instruction that does nothing.
  have hselected : handler.selected = some ⟨0, .control .nop⟩ := by
    have hpc : handler.cpu.pc = 0x0040 := by rw [hserved]; rfl
    have hcode : Memory.read handler.memory 0x0040 = 0 := by
      rw [hread _ (by decide), if_neg (by decide), read_derailed]
      rfl
    rw [selected, hpc, hcode, Descriptor.primary_eq]
    rfl
  obtain ⟨cycles, -, hdeed⟩ := deed_of_selected_some hnext hselected
  have hcalls : interrupted.calls 2 = [(handler.cpu.dump, ⟨0, .control .nop⟩)] := by
    rw [calls_succ, calls_succ, deed_of_serve hduty, hhandler, hdeed]
    rfl
  obtain ⟨hobserved, -⟩ := observes_each_instruction FlatMemory.discreet interrupted
  rw [hobserved, hcalls, hserved]
  rfl

end Machine

end GameBoy
