import GameBoy.Main
import GameBoy.Snapshot.Console
import GameBoy.Runner.Terminal
import GameBoy.Proofs.Bus.Region
import GameBoy.Proofs.Cartridge.Loading
import GameBoy.Proofs.Bus.WellFormed
import GameBoy.Proofs.Bus.Cell
import GameBoy.Proofs.Bus.Interference
import GameBoy.Proofs.Bus.LastWrite
import GameBoy.Proofs.Bus.Retention
import GameBoy.Proofs.Machine.Steps
import GameBoy.Proofs.Bus.Index
import GameBoy.Proofs.Console.Invariant
import GameBoy.Proofs.Cpu.Accesses
import GameBoy.Proofs.Interrupt
import GameBoy.Proofs.Trace
import GameBoy.Proofs.Console.Ledger
import GameBoy.Proofs.Cpu.Clockwork
import GameBoy.Proofs.Machine.Outcome
import GameBoy.Proofs.Machine.Pacing
import GameBoy.Proofs.Console.Program
import GameBoy.Proofs.Console.Reentry
import GameBoy.Proofs.Snapshot.Codec
import GameBoy.Proofs.Snapshot.Banks
import GameBoy.Proofs.Snapshot.Console
import GameBoy.Proofs.Snapshot.Session
import GameBoy.Proofs.Snapshot.Restored
import GameBoy.Proofs.Machine.Budget
import GameBoy.Proofs.Machine.Trace
import GameBoy.Proofs.Console.DelayedSwitch
import GameBoy.Proofs.Bus.Flat
import GameBoy.Proofs.Console.Drain
import GameBoy.Proofs.Console.Return
import GameBoy.Proofs.Cartridge.Mapping
import GameBoy.Proofs.Cartridge.Checksum
import GameBoy.Proofs.Cpu.Arithmetic
import GameBoy.Proofs.Machine.Calculation
import GameBoy.Proofs.Cpu.Binary
import GameBoy.Proofs.Cpu.Decimal
import GameBoy.Proofs.Cpu.Shift
import GameBoy.Proofs.Machine.Footprint
import GameBoy.Proofs.Machine.Place
import GameBoy.Proofs.Console.Stack
import GameBoy.Proofs.Console.Sleep
import GameBoy.Proofs.Console.ControlFlow
import GameBoy.Proofs.Machine.Fault
import GameBoy.Proofs.Machine.Observer
import GameBoy.Proofs.Machine.Target
import GameBoy.Proofs.Bus.Model
import GameBoy.Proofs.Bus.Hidden
import GameBoy.Proofs.Bus.Sprites
import GameBoy.Proofs.Bus.Ignored
import GameBoy.Proofs.Console.Isolation
import GameBoy.Proofs.Machine.Reports
import GameBoy.Proofs.Machine.Listener
import GameBoy.Proofs.Runner.Rounds
import GameBoy.Proofs.Runner.Frames
