import VmProbe.Bytes.Lemmas
import VmProbe.Image.Draft
import VmProbe.Machine.UnknownByte
import VmProbe.Main
import VmProbe.Proofs.Isa.Tiling
import VmProbe.Proofs.Client.Mirror
import VmProbe.Proofs.Client.Closing
import VmProbe.Proofs.Client.Opening
import VmProbe.Proofs.Client.Failing
import VmProbe.Proofs.Image.Listing
import VmProbe.Proofs.Wire.Format
import VmProbe.Proofs.Wire.Request
import VmProbe.Proofs.Client.Registers
import VmProbe.Proofs.Client.Phases
import VmProbe.Proofs.Client.Toggling
import VmProbe.Proofs.Isa.Lines
import VmProbe.Proofs.Image.Encoding
import VmProbe.Proofs.Client.Loading
import VmProbe.Proofs.Client.Output
import VmProbe.Proofs.Isa.Placement
import VmProbe.Proofs.Machine.Repetition
import VmProbe.Proofs.Image.Building
import VmProbe.Proofs.Settings.Saving
import VmProbe.Proofs.Isa.Boundaries
import VmProbe.Proofs.Isa.Causes
import VmProbe.Proofs.Image.Metadata
import VmProbe.Proofs.Wire.Extension
import VmProbe.Proofs.Client.Schedule
import VmProbe.Proofs.Machine.Slots
import VmProbe.Proofs.Machine.Comparison
import VmProbe.Proofs.Client.CurrentLine
import VmProbe.Proofs.Shell.Breakpoints
import VmProbe.Proofs.Settings.Refusal
