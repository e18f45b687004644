import GridRover.Disk.Tree
import GridRover.Main
import GridRover.Proofs.CommandLine.Naming
import GridRover.Proofs.CommandLine.Reports
import GridRover.Proofs.Console.Indicator
import GridRover.Proofs.Expression.Acceptance
import GridRover.Proofs.Expression.Dependence
import GridRover.Proofs.Expression.Layering
import GridRover.Proofs.Expression.Reprinting
import GridRover.Proofs.Expression.Stepping
import GridRover.Proofs.Grid.Drawing
import GridRover.Proofs.Script.Exclusion
import GridRover.Proofs.Script.Expansion
import GridRover.Proofs.Script.Forward
import GridRover.Proofs.Script.Jump
import GridRover.Proofs.Script.Variables
import GridRover.Proofs.Store.History
