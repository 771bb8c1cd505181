import MipsMonitor.Main
import MipsMonitor.Machine.Plan
import MipsMonitor.Machine.Recorder
import MipsMonitor.Proofs.Machine.SingleStepping
import MipsMonitor.Proofs.Machine.Transparency
import MipsMonitor.Proofs.Debug.Resuming
import MipsMonitor.Proofs.Debug.RunUntil
import MipsMonitor.Proofs.Machine.Watching
import MipsMonitor.Proofs.Debug.Watching
import MipsMonitor.Proofs.Debug.Commands
import MipsMonitor.Proofs.Debug.Arming
import MipsMonitor.Proofs.Debug.Checks
import MipsMonitor.Proofs.Debug.Stopping
import MipsMonitor.Proofs.Debug.Isolation
import MipsMonitor.Proofs.Debug.SteppingInto
import MipsMonitor.Proofs.Machine.Precision
import MipsMonitor.Proofs.Machine.Shielding
import MipsMonitor.Proofs.Guarded.Execution
import MipsMonitor.Proofs.Debug.LastWriters
import MipsMonitor.Proofs.Debug.Resetting
import MipsMonitor.Proofs.Debug.Refusals
import MipsMonitor.Proofs.Machine.DelaySlots
import MipsMonitor.Proofs.Machine.Unseen
import MipsMonitor.Proofs.Instruction.Assembling
import MipsMonitor.Proofs.Instruction.Reading
import MipsMonitor.Proofs.Memory.Accesses
import MipsMonitor.Proofs.Debug.Restoring
import MipsMonitor.Proofs.Debug.Patching
import MipsMonitor.Proofs.Debug.RegisterJumps
import MipsMonitor.Proofs.Debug.HitCounts
import MipsMonitor.Proofs.Debug.Progress
import MipsMonitor.Proofs.Debug.Values
import MipsMonitor.Proofs.Guarded.Disassembling
import MipsMonitor.Proofs.Machine.Unaligned
import MipsMonitor.Proofs.Memory.Windows
import MipsMonitor.Proofs.Memory.Replaying
import MipsMonitor.Proofs.Machine.Footprints
import MipsMonitor.Proofs.Machine.Results
import MipsMonitor.Proofs.Instruction.Printing
import MipsMonitor.Proofs.Remote.RegisterImages
import MipsMonitor.Proofs.Remote.Listings
import MipsMonitor.Proofs.Debug.Telling
import MipsMonitor.Proofs.Machine.Invalidation
import MipsMonitor.Proofs.Machine.Sinks
