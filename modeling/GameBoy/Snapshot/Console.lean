import GameBoy.Bus
import GameBoy.Snapshot.Codec

/-!
# Snapshots of the console

A snapshot holds the whole state of a console: the processor, the cartridge with its ROM, and all
memory.  The codec of each part is put together from those of its fields in the order in which they
are written.

Reading a snapshot checks the lengths of memory areas and the numbers of alternatives, but not whether
registers hold values that a running console could reach.
-/

namespace GameBoy.Snapshot

namespace Codec

/-! ## The processor -/

/-- The flags, each as a truth value. -/
def flags : Codec Flags :=
  (bool.pair (bool.pair (bool.pair bool))).convert
    (fun f => (f.zero, f.subtract, f.halfCarry, f.carry))
    (fun (z, n, h, c) => ⟨z, n, h, c⟩)

/-- A pending change of the master switch, if there is one. -/
def pendingSwitch : Codec PendingSwitch :=
  (either unit (bool.pair byte)).convert
    (fun s =>
      match s with
      | .idle => .inl ()
      | .pending target remaining => .inr (target, remaining))
    (fun v =>
      match v with
      | .inl _ => .idle
      | .inr (target, remaining) => .pending target remaining)

/-- Whether the processor runs. -/
def activity : Codec Activity := oneOf [.running, .halted, .stopped]

/-- The processor, field by field. -/
def cpu : Codec Cpu :=
  -- The fields come in the order in which the state lists them.
  (byte.pair (flags.pair (byte.pair (byte.pair (byte.pair (byte.pair (byte.pair (byte.pair
    (word.pair (word.pair (bool.pair (pendingSwitch.pair (activity.pair counter))))))))))))).convert
    (fun cpu => (cpu.a, cpu.f, cpu.b, cpu.c, cpu.d, cpu.e, cpu.h, cpu.l, cpu.sp, cpu.pc, cpu.ime,
      cpu.imeSwitch, cpu.activity, cpu.cycles))
    (fun (a, f, b, c, d, e, h, l, sp, pc, ime, imeSwitch, activity, cycles) =>
      ⟨a, f, b, c, d, e, h, l, sp, pc, ime, imeSwitch, activity, cycles⟩)

/-- A dump of the registers. -/
def registerDump : Codec RegisterDump :=
  (word.pair (word.pair (word.pair (word.pair (word.pair (word.pair counter)))))).convert
    (fun d => (d.pc, d.sp, d.af, d.bc, d.de, d.hl, d.cycles))
    (fun (pc, sp, af, bc, de, hl, cycles) => ⟨pc, sp, af, bc, de, hl, cycles⟩)

/-! ## The cartridge -/

/-- A header with the checksum that was computed for it. -/
def header : Codec Header :=
  ((rawBlock 11).pair ((rawBlock 4).pair (byte.pair (byte.pair (byte.pair (byte.pair (byte.pair
    byte))))))).convert
    (fun h => (h.title, h.manufacturer, h.colorFlag, h.cartridgeType, h.romSizeCode,
      h.ramSizeCode, h.declaredChecksum, h.computedChecksum))
    (fun (title, manufacturer, colorFlag, cartridgeType, romSizeCode, ramSizeCode, declared,
      computed) =>
      ⟨title, manufacturer, colorFlag, cartridgeType, romSizeCode, ramSizeCode, declared,
        computed⟩)

/-- The chip with its RAM. -/
def mbc1 : Codec Mbc1 :=
  (bytes.pair (byte.pair (byte.pair bool))).convert
    (fun c => (c.ram, c.romBank, c.ramBank, c.ramEnabled))
    (fun (ram, romBank, ramBank, ramEnabled) => ⟨ram, romBank, ramBank, ramEnabled⟩)

/-- A bank controller of either kind. -/
def controller : Codec Controller :=
  (either bytes mbc1).convert
    (fun c =>
      match c with
      | .direct ram => .inl ram
      | .mbc1 chip => .inr chip)
    (fun v =>
      match v with
      | .inl ram => .direct ram
      | .inr chip => .mbc1 chip)

/-- A cartridge with its whole ROM. -/
def cartridge : Codec Cartridge :=
  (header.pair (bytes.pair controller)).convert
    (fun c => (c.header, c.rom, c.controller))
    (fun (header, rom, controller) => ⟨header, rom, controller⟩)

/-! ## The bus -/

/-- An interrupt source by its number. -/
def interrupt : Codec Interrupt := oneOf Interrupt.all

/-- A register of the interrupt controller, all eight bits of it. -/
def interruptSet : Codec InterruptSet := byte.convert InterruptSet.bits InterruptSet.mk

/-- The two registers of the interrupt controller. -/
def interrupts : Codec Interrupts :=
  (interruptSet.pair interruptSet).convert
    (fun r => (r.enable, r.pending))
    (fun (enable, pending) => ⟨enable, pending⟩)

/-- The model of a console. -/
def model : Codec Model := oneOf [.dmg, .cgb]

/-- The video memory, bank by bank. -/
def videoRam : Codec VideoRam :=
  -- Whether the number of the bank exists is not checked.
  ((banks 2 videoBankSize).pair ((block spriteMemorySize).pair (byte.pair byte))).convert
    (fun v => (v.cells, v.sprites, v.bank, v.scanline))
    (fun (cells, sprites, bank, scanline) => ⟨cells, sprites, bank, scanline⟩)

/-- The bus with everything on it. -/
def bus : Codec (Bus VideoRam) :=
  (cartridge.pair (videoRam.pair (model.pair ((banks workRamBanks workRamBankSize).pair
    (byte.pair (byte.pair ((block highRamSize).pair interrupts))))))).convert
    (fun bus => (bus.cartridge, bus.video, bus.model, bus.workRam, bus.workRamBank,
      bus.videoBank, bus.highRam, bus.interrupts))
    (fun (cartridge, video, model, workRam, workRamBank, videoBank, highRam, interrupts) =>
      ⟨cartridge, video, model, workRam, workRamBank, videoBank, highRam, interrupts⟩)

/-- A whole console. -/
def console : Codec Console :=
  (cpu.pair bus).convert (fun m => (m.cpu, m.memory)) (fun (cpu, memory) => ⟨cpu, memory⟩)

end Codec

end GameBoy.Snapshot
