import SigilScript.Main
import SigilScript.Proofs.Acceptance
import SigilScript.Proofs.Accounting
import SigilScript.Proofs.Agreement
import SigilScript.Proofs.Blocks
import SigilScript.Proofs.Causality
import SigilScript.Proofs.CommandLine
import SigilScript.Proofs.Composition
import SigilScript.Proofs.Declarators
import SigilScript.Proofs.Division
import SigilScript.Proofs.FaultPlaces
import SigilScript.Proofs.FirstFault
import SigilScript.Proofs.Form.Separators
import SigilScript.Proofs.Form.Width
import SigilScript.Proofs.Grouping
import SigilScript.Proofs.Interruption
import SigilScript.Proofs.Literals
import SigilScript.Proofs.Modifier
import SigilScript.Proofs.Naming
import SigilScript.Proofs.OpenBraces
import SigilScript.Proofs.Operation.RoundTrip
import SigilScript.Proofs.Operation.Source
import SigilScript.Proofs.Partition
import SigilScript.Proofs.Partners
import SigilScript.Proofs.Quoting
import SigilScript.Proofs.ReadAhead
import SigilScript.Proofs.Recovery
import SigilScript.Proofs.Scan.Numbers
import SigilScript.Proofs.Segments
import SigilScript.Proofs.Spacing
import SigilScript.Proofs.Steps
import SigilScript.Proofs.Tiling
import SigilScript.Proofs.Totality
import SigilScript.Proofs.WellFormed.Statement
import SigilScript.Stream
