import ColumnSieve.Main
import ColumnSieve.Proofs.Clause.Grammar
import ColumnSieve.Proofs.Column.Reader
import ColumnSieve.Proofs.Column.Shortest
import ColumnSieve.Proofs.Command.DryRun
import ColumnSieve.Proofs.Extraction
import ColumnSieve.Proofs.Output.Race
import ColumnSieve.Proofs.Output.TempPath
import ColumnSieve.Proofs.Plan.Absent
import ColumnSieve.Proofs.Plan.Order
import ColumnSieve.Proofs.Plan.Protocol
import ColumnSieve.Proofs.Plan.RowOrder
import ColumnSieve.Proofs.Query.RoundTrip
import ColumnSieve.Proofs.Selection.Blocks
import ColumnSieve.Proofs.Selection.LookUp
import ColumnSieve.Proofs.Selection.Reconciliation
import ColumnSieve.Proofs.Tool.External
