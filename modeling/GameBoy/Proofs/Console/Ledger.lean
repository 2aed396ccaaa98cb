import GameBoy.Proofs.Console.Invariant
import GameBoy.Proofs.Cpu.Step
import GameBoy.Proofs.Interrupt

/-!
# The ledger of interrupts

Devices ask for service while the processor steps.  The ledger of such a run lists the requests and
the services in the order in which they happen.  As long as no write goes to the register of
requests, a source is pending exactly if the ledger owes it a service (`owed`): its last entry is a
request, or it has no entry and was pending from the start.  Every service is owed when it happens,
so none is spurious and none happens twice for one request.

`ledger_balanced` says this of every run, together with when a step is a service (`Ready`) and what
a service does (`Serves`).
-/

namespace GameBoy

/-! ## Entries -/

/-- An entry of the ledger. -/
inductive Entry where
  | requested (source : Interrupt)
  | served (source : Interrupt)
  deriving DecidableEq

/-- The source that an entry is about. -/
def Entry.source : Entry → Interrupt
  | requested source | served source => source

/-- Whether a ledger owes a service to a source: whether the last entry about the source is a
request, or, if there is none, whether it was owed one from the start. -/
def owed (initially : Bool) (source : Interrupt) (ledger : List Entry) : Bool :=
  match (ledger.filter fun entry => entry.source = source).getLast? with
  | some (.requested _) => true
  | some (.served _) => false
  | none => initially

section Owed

variable (initially : Bool) (source : Interrupt)

/-- An empty ledger owes what was owed from the start. -/
@[simp] theorem owed_nil : owed initially source [] = initially := rfl

/-- A request owes its source a service, and the others what they were owed before. -/
@[simp] theorem owed_requested (other : Interrupt) :
    owed initially source [.requested other] = (decide (source = other) || initially) := by
  by_cases h : other = source
  · subst h; simp [owed, Entry.source]
  · simp [owed, Entry.source, h, Ne.symm h]

/-- A service pays what is owed to its source and to no other. -/
@[simp] theorem owed_served (other : Interrupt) :
    owed initially source [.served other] = (!decide (source = other) && initially) := by
  by_cases h : other = source
  · subst h; simp [owed, Entry.source]
  · simp [owed, Entry.source, h, Ne.symm h]

/-- What a ledger owes at first, the rest of the ledger starts from. -/
theorem owed_append (first second : List Entry) :
    owed initially source (first ++ second) = owed (owed initially source first) source second := by
  unfold owed
  rw [List.filter_append, List.getLast?_append]
  -- The last entry of the second part counts if it has one about the source.
  cases (second.filter fun entry => entry.source = source).getLast? with
  | none => rfl
  | some entry => cases entry <;> rfl

end Owed

/-- The entry of an access: withdrawing a request is serving it. -/
def Access.entries : Access → List Entry
  | acknowledge source => [.served source]
  | _ => []

/-- Reading and writing bytes leaves no entry. -/
theorem Access.entries_of_isByte {access : Access} (h : access.IsByte) : access.entries = [] := by
  cases access with
  | acknowledge source => cases h
  | _ => rfl

namespace Bus

variable {V : Type} [VideoDevice V]

/-- Only writes to the register of requests change it. -/
theorem pending_write (bus : Bus V) {addr : UInt16} (h : addr ≠ pendingAddress) (value : UInt8) :
    (bus.write addr value).interrupts.pending = bus.interrupts.pending := by
  cases hregion : Region.of bus.model addr <;> simp only [Bus.write, hregion, copySprites]
  case interruptPending => exact absurd (Region.of_eq_iff.mp hregion) h

/-- After accesses that do not write to the register of requests, the sources are pending that their
entries owe a service. -/
theorem pending_performAll (bus : Bus V) {accesses : List Access}
    (h : ∀ value, .write pendingAddress value ∉ accesses) (source : Interrupt) :
    (Access.performAll bus accesses).interrupts.pending.contains source =
      owed (bus.interrupts.pending.contains source) source
        (accesses.flatMap Access.entries) := by
  -- Over the accesses, the first one first: what it leaves pending is where the rest starts.
  induction accesses generalizing bus with
  | nil => rfl
  | cons access rest ih =>
    have hrest : ∀ value, .write pendingAddress value ∉ rest :=
      fun value hmem => h value (List.mem_cons_of_mem _ hmem)
    rw [Access.performAll_cons, ih _ hrest, List.flatMap_cons, owed_append]
    -- What is left is one access: what is pending after it is what is owed after its entry.
    congr 1
    cases access with
    | read addr => rfl
    | write addr value =>
      have haddr : addr ≠ pendingAddress := by
        rintro rfl
        exact h value List.mem_cons_self
      exact congrArg (·.contains source) (bus.pending_write haddr value)
    | poll => rfl
    | acknowledge other =>
      rw [Access.entries, owed_served]
      exact bus.interrupts.pending.contains_erase other source

end Bus

namespace Console

variable {σ : Type} {m : Console} {source : Interrupt}

/-! ## Turns -/

/-- What can happen while a console runs: the processor steps, or a device asks for service. -/
inductive Turn where
  | step
  | request (source : Interrupt)

/-- What a turn does to the console. -/
def Turn.action : Turn → Action
  | step => .step
  | request source => .request source

/-- The entries of a turn: those of the accesses of a step, or a request. -/
def Turn.entries (m : Console) : Turn → List Entry
  | step => m.accesses.flatMap Access.entries
  | request source => [.requested source]

/-- No write of a turn goes to the register of requests. -/
def Turn.Quiet (m : Console) : Turn → Prop
  | step => ∀ value, .write pendingAddress value ∉ m.accesses
  | request _ => True

/-- The entries of some turns, each looked up on the console that the turns before it leave. -/
def ledger (listener : Listener σ) (c : Console × σ) : List Turn → List Entry
  | [] => []
  | turn :: rest => turn.entries c.1 ++ ledger listener (act listener c turn.action) rest

/-- No write of any turn goes to the register of requests. -/
def Quiet (listener : Listener σ) (c : Console × σ) : List Turn → Prop
  | [] => True
  | turn :: rest => turn.Quiet c.1 ∧ Quiet listener (act listener c turn.action) rest

/-- Whether the next step is a service: the master switch is on, a source is active, and the
processor runs or is woken up. -/
structure Ready (m : Console) : Prop where
  ime : m.cpu.ime = true
  active : m.memory.interrupts.active ≠ 0
  awake : m.cpu.activity = .stopped → m.memory.interrupts.active &&& Interrupt.joypad.mask ≠ 0

/-- The next step serves a source. -/
structure Serves (listener : Listener σ) (c : Console × σ) (source : Interrupt) : Prop where
  active : c.1.memory.interrupts.active &&& source.mask ≠ 0
  /-- No active source has a lower number. -/
  index_le : ∀ other : Interrupt, c.1.memory.interrupts.active &&& other.mask ≠ 0 →
    source.index ≤ other.index
  result : (c.1.step listener c.2).1 = .ok 20
  cpu : (act listener c .step).1.cpu = { c.1.cpu with
    activity := .running
    ime := false
    sp := c.1.cpu.sp - 2
    pc := 0x40 + 8 * source.index.toUInt16
    cycles := c.1.cpu.cycles + 20 }
  /-- The old program counter is stored on the stack. -/
  memory : (act listener c .step).1.memory =
    ((Bus.write (Memory.acknowledge c.1.memory source)
      (c.1.cpu.sp - 2) (Word.low c.1.cpu.pc)).write
      (c.1.cpu.sp - 2 + 1) (Word.high c.1.cpu.pc))
  entries : Turn.step.entries c.1 = [.served source]
  /-- No other request is withdrawn. -/
  pending : Turn.step.Quiet c.1 → ∀ other,
    (act listener c .step).1.memory.interrupts.pending.contains other =
      (!decide (other = source) && c.1.memory.interrupts.pending.contains other)

/-! ## One step -/

/-- A processor that is ready serves the most important active source. -/
theorem exists_duty_of_ready (h : m.memory.interrupts.WellFormed) (hready : Ready m) :
    ∃ source, m.duty = .serve source ∧
      Interrupt.highestPriority m.memory.interrupts.active = some source ∧
      m.cpu.activity.wake m.memory.interrupts.active = .running := by
  have hle : m.memory.interrupts.active ≤ 0x1F := UInt8.le_trans UInt8.and_le_left h.enable_le
  obtain ⟨source, hsource⟩ := Interrupt.exists_highestPriority hle hready.active
  -- Any active source ends a halt, and only the joypad ends a stop.
  have hwake : m.cpu.activity.wake m.memory.interrupts.active = .running := by
    cases hactivity : m.cpu.activity with
    | running => rfl
    | halted => exact if_pos (bne_iff_ne.mpr hready.active)
    | stopped => exact if_pos (bne_iff_ne.mpr (hready.awake hactivity))
  exact ⟨source, Cpu.duty_wake_eq_serve_iff.mpr ⟨hready.ime, hwake, hsource⟩, hsource, hwake⟩

/-- Only a processor that is ready serves a source. -/
theorem ready_of_duty (h : m.duty = .serve source) : Ready m := by
  obtain ⟨hime, hwake, hsource⟩ := Cpu.duty_wake_eq_serve_iff.mp h
  have hmask := Interrupt.mask_of_highestPriority hsource
  refine ⟨hime, fun hzero => ?_, fun hstopped => ?_⟩
  · change m.memory.interrupts.active &&& source.mask ≠ 0 at hmask
    rw [hzero] at hmask
    exact hmask UInt8.zero_and
  · intro hzero
    rw [hstopped] at hwake
    change (if m.memory.interrupts.active &&& Interrupt.joypad.mask != 0 then Activity.running
      else .stopped) = .running at hwake
    rw [hzero] at hwake
    cases hwake

/-- A step has an entry only if it is a service. -/
theorem entries_step (m : Console) :
    Turn.step.entries m = match m.duty with
      | .serve source => [.served source]
      | .sleep | .execute => [] := by
  rw [Turn.entries]
  cases hduty : m.duty with
  | serve source => rw [Machine.accesses_of_serve hduty]; rfl
  | sleep => rw [Machine.accesses_of_sleep hduty]; rfl
  | execute =>
    obtain ⟨rest, haccesses, hbyte⟩ := Machine.accesses_of_execute hduty
    rw [haccesses, List.flatMap_cons, List.flatMap_cons]
    exact List.flatMap_eq_nil_iff.mpr fun access hmem => Access.entries_of_isByte (hbyte access hmem)

/-- A source that is served has been pending. -/
theorem contains_of_duty (h : m.duty = .serve source) :
    m.memory.interrupts.pending.contains source = true := by
  obtain ⟨-, -, hsource⟩ := Cpu.duty_wake_eq_serve_iff.mp h
  refine bne_iff_ne.mpr fun hzero => Interrupt.mask_of_highestPriority hsource ?_
  show m.memory.interrupts.enable.bits &&& m.memory.interrupts.pending.bits &&& source.mask = 0
  rw [UInt8.and_assoc, hzero, UInt8.and_zero]

/-- A service is owed when the turn begins. -/
theorem owed_of_served_turn {turn : Turn} {earlier later : List Entry}
    (h : turn.entries m = earlier ++ .served source :: later) :
    owed (m.memory.interrupts.pending.contains source) source earlier = true := by
  cases turn with
  | step =>
    -- A step has at most one entry, so nothing comes before a service in its turn.
    rw [entries_step] at h
    cases hduty : m.duty with
    | serve other =>
      rw [hduty] at h
      obtain ⟨rfl, hserved⟩ | ⟨-, hnil⟩ := List.singleton_eq_append_iff.mp h
      · cases hserved
        exact contains_of_duty hduty
      · cases hnil
    | sleep => rw [hduty] at h; simp at h
    | execute => rw [hduty] at h; simp at h
  | request other =>
    obtain ⟨rfl, hserved⟩ | ⟨-, hnil⟩ := List.singleton_eq_append_iff.mp h
    · cases hserved
    · cases hnil

/-- After a turn the sources are pending that its entries owe a service. -/
theorem pending_act (listener : Listener σ) (c : Console × σ) {turn : Turn}
    (h : turn.Quiet c.1) (source : Interrupt) :
    (act listener c turn.action).1.memory.interrupts.pending.contains source =
      owed (c.1.memory.interrupts.pending.contains source) source (turn.entries c.1) := by
  cases turn with
  | step =>
    -- Whatever the step does, its accesses decide what is pending after it.
    show (c.1.step listener c.2).2.1.memory.interrupts.pending.contains source = _
    rw [Machine.memory_step]
    exact c.1.memory.pending_performAll h source
  | request other =>
    rw [Turn.entries, owed_requested]
    exact c.1.memory.interrupts.pending.contains_insert other source

/-- What a service does. -/
theorem serves_of_ready (h : m.memory.interrupts.WellFormed) (hready : Ready m)
    (listener : Listener σ) (s : σ) : ∃ source, Serves listener (m, s) source := by
  obtain ⟨source, hduty, hsource, hwake⟩ := exists_duty_of_ready h hready
  obtain ⟨hresult, hmachine⟩ := Machine.step_of_serve hduty listener s
  have hentries : Turn.step.entries m = [.served source] := by rw [entries_step, hduty]
  have hact : (act listener (m, s) .step).1 = (m.step listener s).2.1 := rfl
  refine ⟨source, ?_⟩
  constructor
  case active => exact Interrupt.mask_of_highestPriority hsource
  case index_le => exact fun other => Interrupt.index_le_of_highestPriority hsource
  case result => exact hresult
  case cpu =>
    rw [hact, hmachine, ← hwake]
    rfl
  case memory => rw [hact, hmachine]; rfl
  case entries => exact hentries
  case pending =>
    intro hquiet other
    have hpending := pending_act listener (m, s) hquiet other
    rw [hentries, owed_served] at hpending
    exact hpending

/-! ## Runs -/

/-- Turns keep the registers within their bits. -/
theorem interrupts_run (listener : Listener σ) {c : Console × σ}
    (h : c.1.memory.interrupts.WellFormed) (turns : List Turn) :
    (run listener c (turns.map Turn.action)).1.memory.interrupts.WellFormed :=
  preserved_run Interrupts.WellFormed.preserved listener h (turns.map Turn.action)

/-- After some turns the sources are pending that their ledger owes a service. -/
theorem pending_run (listener : Listener σ) {c : Console × σ} {turns : List Turn}
    (h : Quiet listener c turns) (source : Interrupt) :
    (run listener c (turns.map Turn.action)).1.memory.interrupts.pending.contains source =
      owed (c.1.memory.interrupts.pending.contains source) source (ledger listener c turns) := by
  -- Over the turns: what one leaves pending is what it owes, and the rest starts from there.
  induction turns generalizing c with
  | nil => rfl
  | cons turn rest ih =>
    rw [List.map_cons, run, List.foldl_cons, ledger, owed_append, ← pending_act listener c h.1]
    exact ih h.2

/-- Every service is owed when it happens. -/
theorem owed_of_served (listener : Listener σ) {c : Console × σ} {turns : List Turn}
    (h : Quiet listener c turns) {source : Interrupt} {earlier later : List Entry}
    (hledger : ledger listener c turns = earlier ++ .served source :: later) :
    owed (c.1.memory.interrupts.pending.contains source) source earlier = true := by
  -- Over the turns, by where the entry of the service falls: in a later turn or in this one.
  induction turns generalizing c earlier with
  | nil => cases earlier <;> cases hledger
  | cons turn rest ih =>
    rw [ledger, List.append_eq_append_iff] at hledger
    rcases hledger with ⟨mid, rfl, hrest⟩ | ⟨mid, hentries, hmid⟩
    · -- The service happens in a later turn.
      rw [owed_append, ← pending_act listener c h.1]
      exact ih h.2 hrest
    · cases mid with
      | nil =>
        -- The service is the first entry after the turn.
        rw [List.append_nil] at hentries
        rw [← hentries, ← pending_act listener c h.1]
        have hfirst : ledger listener (act listener c turn.action) rest =
            [] ++ .served source :: later := hmid.symm
        exact ih h.2 hfirst
      | cons entry mid =>
        cases hmid
        exact owed_of_served_turn hentries

/-- The ledger of a run is balanced: a source is pending exactly if it is owed a service, and every
service is owed when it happens.  The step after the run is a service exactly if the processor is
ready for one. -/
theorem ledger_balanced (h : m.memory.interrupts.WellFormed) (listener : Listener σ) (s : σ)
    (turns : List Turn) :
    let final := run listener (m, s) (turns.map Turn.action)
    let initially := m.memory.interrupts.pending.contains
    (Quiet listener (m, s) turns →
      (∀ source, final.1.memory.interrupts.pending.contains source =
        owed (initially source) source (ledger listener (m, s) turns)) ∧
      ∀ source earlier later,
        ledger listener (m, s) turns = earlier ++ .served source :: later →
          owed (initially source) source earlier = true) ∧
    (Ready final.1 → ∃ source, Serves listener final source) ∧
    (¬Ready final.1 → Turn.step.entries final.1 = []) := by
  intro final initially
  refine ⟨fun hquiet => ⟨fun source => ?_, fun source earlier later hledger => ?_⟩, ?_, ?_⟩
  · exact pending_run listener hquiet source
  · exact owed_of_served listener hquiet hledger
  · intro hready
    have hfinal : final.1.memory.interrupts.WellFormed := interrupts_run listener h turns
    exact serves_of_ready hfinal hready listener final.2
  -- A step that is no service sleeps or executes, and neither has an entry.
  · intro hready
    rw [entries_step]
    cases hduty : final.1.duty with
    | serve source => exact absurd (ready_of_duty hduty) hready
    | sleep => rfl
    | execute => rfl

/-- A console that plays the sample cartridge and listens to all sources. -/
def listening : Console where
  cpu := { Cpu.initial with ime := true }
  memory := (Bus.assemble .sample .empty .cgb).write enableAddress 0x1F

/-- The request of the timer is served by the next step and then no longer pending. -/
theorem ledger_balanced_timer :
    (run Listener.deaf (listening, ()) ([.request .timer, .step].map Turn.action)
      ).1.memory.interrupts.pending.contains .timer = false := by
  have hwf : listening.memory.interrupts.WellFormed :=
    ((Bus.Reachable.sample .cgb).write enableAddress 0x1F).wellFormed.interrupts
  have hduty : Machine.duty (act Listener.deaf (listening, ()) (Turn.request .timer).action).1 =
      .serve .timer := rfl
  -- The writes of the step are those of the push, just below the end of the high RAM.
  have hquiet : Quiet Listener.deaf (listening, ()) [.request .timer, .step] := by
    refine ⟨trivial, fun value hmem => ?_, trivial⟩
    rw [Machine.accesses_of_serve hduty] at hmem
    simp only [List.mem_cons, List.not_mem_nil, reduceCtorEq, Access.write.injEq, or_false,
      false_or] at hmem
    rcases hmem with ⟨hlow, -⟩ | ⟨hhigh, -⟩
    · exact absurd hlow (by decide)
    · exact absurd hhigh (by decide)
  have hbalanced := ((ledger_balanced hwf Listener.deaf () [.request .timer, .step]).1 hquiet).1
    .timer
  rw [hbalanced, ledger, ledger, ledger, entries_step, hduty]
  rfl

end Console

end GameBoy
