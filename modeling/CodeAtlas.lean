import CodeAtlas.Main
import CodeAtlas.Proofs.CallGraph.Declaration
import CodeAtlas.Proofs.CrossReference
import CodeAtlas.Proofs.ParsedFile.Failure
import CodeAtlas.Proofs.CallFlow.Drawing
import CodeAtlas.Proofs.CallFlow.Search
import CodeAtlas.Proofs.ParsedFile.Workers
import CodeAtlas.Proofs.Syntax.Layout
import CodeAtlas.Proofs.Syntax.Order
import CodeAtlas.Proofs.Heuristic.Brace.Items
import CodeAtlas.Proofs.Heuristic.Brace.Parameters
import CodeAtlas.Proofs.Heuristic.Brace.Reading
import CodeAtlas.Proofs.Heuristic.Indentation.Coverage
import CodeAtlas.Proofs.UnitIdentity
import CodeAtlas.Proofs.Syntax.Span
import CodeAtlas.Proofs.Heuristic.Begin
import CodeAtlas.Proofs.ParsedFile.Identity
import CodeAtlas.Proofs.ImportGraph.Resolution
import CodeAtlas.Proofs.Syntax.Completeness
import CodeAtlas.Proofs.Syntax.CommentBlock
import CodeAtlas.Proofs.Syntax.Position
import CodeAtlas.Proofs.Syntax.HeadComments
import CodeAtlas.Proofs.Syntax.Naming
import CodeAtlas.Proofs.ParsedFile.Depth
import CodeAtlas.Proofs.ClassHierarchy.Selection
import CodeAtlas.Proofs.ClassHierarchy.Heading
import CodeAtlas.Proofs.ClassHierarchy.Identifiers
import CodeAtlas.Proofs.ClassHierarchy.Links
import CodeAtlas.Proofs.Architecture.Drawing
import CodeAtlas.Proofs.Text.Comment
import CodeAtlas.Proofs.Report.Parsed
import CodeAtlas.Proofs.Text.BareComment
import CodeAtlas.Proofs.Syntax.BareBlock
import CodeAtlas.Proofs.Batches
import CodeAtlas.Proofs.Text.NameWord
import CodeAtlas.Proofs.Path
import CodeAtlas.Proofs.FileTree
import CodeAtlas.Proofs.Scan
import CodeAtlas.Proofs.Text.LineTable
import CodeAtlas.Proofs.Heuristic.Checked.Brace
import CodeAtlas.Proofs.Heuristic.Checked.Extraction
