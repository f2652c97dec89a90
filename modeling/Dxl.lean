import Dxl.Main
import Dxl.Proofs.Documents
import Dxl.Proofs.Parse.Bodies
import Dxl.Proofs.Parse.Definitions
import Dxl.Proofs.Parse.Encoding
import Dxl.Proofs.Parse.Flags
import Dxl.Proofs.Parse.Headers
import Dxl.Proofs.Parse.Highlighting
import Dxl.Proofs.Parse.Juxtaposition
import Dxl.Proofs.Parse.LineEndings
import Dxl.Proofs.Parse.Looks
import Dxl.Proofs.Parse.Names
import Dxl.Proofs.Parse.Nesting
import Dxl.Proofs.Parse.Offsets
import Dxl.Proofs.Parse.Operands
import Dxl.Proofs.Parse.Outline
import Dxl.Proofs.Parse.Overlap
import Dxl.Proofs.Parse.Paths
import Dxl.Proofs.Parse.Precedence
import Dxl.Proofs.Parse.Recovery
import Dxl.Proofs.Parse.References
import Dxl.Proofs.Parse.Remarks
import Dxl.Proofs.Parse.Sharing
import Dxl.Proofs.Parse.Slices
import Dxl.Proofs.Parse.Trivia
import Dxl.Proofs.Parse.Views
import Dxl.Proofs.Place.Backwards
import Dxl.Proofs.Place.Tiling
import Dxl.Proofs.Text.Conversion
import Dxl.Proofs.Token.Lines
import Dxl.Proofs.Token.Standalone
import Dxl.Proofs.Tree.SExpr
import Dxl.Tree.Storage
import Dxl.View.Fields
