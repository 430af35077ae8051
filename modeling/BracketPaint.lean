import BracketPaint.Region
import BracketPaint.Ascending
import BracketPaint.Bisection
import BracketPaint.Text.Blank
import BracketPaint.Text.Numeral
import BracketPaint.Text.Hexadecimal
import BracketPaint.Text.Line
import BracketPaint.Vicinity
import BracketPaint.Scope.Pairing
import BracketPaint.Scope.Role
import BracketPaint.Color.Basic
import BracketPaint.Color.Spec
import BracketPaint.Configuration
import BracketPaint.Highlight
import BracketPaint.Toml.Scalar
import BracketPaint.Toml.Quoted
import BracketPaint.Toml.Document
import BracketPaint.Toml.Writer
import BracketPaint.Settings.Resolution
import BracketPaint.Settings.Reader
import BracketPaint.Settings.Writer
import BracketPaint.Text.Printable
import BracketPaint.Session
import BracketPaint.CommandLine.Command
import BracketPaint.CommandLine.FileTree
import BracketPaint.Main
import BracketPaint.Proofs.Located
import BracketPaint.Proofs.Residue
import BracketPaint.Proofs.Matching
import BracketPaint.Proofs.Greedy
import BracketPaint.Proofs.Walk
import BracketPaint.Proofs.Pairing
import BracketPaint.Proofs.SingleCursor
import BracketPaint.Proofs.Nested
import BracketPaint.Proofs.Enclosure
import BracketPaint.Proofs.Merging
import BracketPaint.Proofs.SeveralCursors
import BracketPaint.Proofs.Partition
import BracketPaint.Proofs.Immediate
import BracketPaint.Proofs.Resolved
import BracketPaint.Proofs.Formed
import BracketPaint.Proofs.Winner
import BracketPaint.Proofs.Parts
import BracketPaint.Proofs.Strokes
import BracketPaint.Proofs.Passes
import BracketPaint.Proofs.PaintedOnce
import BracketPaint.Proofs.InnermostPaint
import BracketPaint.Proofs.Naming
import BracketPaint.Proofs.Labels
import BracketPaint.Proofs.Bases
import BracketPaint.Proofs.Window
import BracketPaint.Proofs.Positions
import BracketPaint.Proofs.Layers
import BracketPaint.Proofs.StartsLast
import BracketPaint.Proofs.SavedSettings
import BracketPaint.Proofs.FirstCome
import BracketPaint.Proofs.Supply
import BracketPaint.Proofs.Served
import BracketPaint.Proofs.CutAgain
import BracketPaint.Proofs.Turns
import BracketPaint.Proofs.ScanEnds
import BracketPaint.Proofs.Scanned
import BracketPaint.Proofs.LineRuns
import BracketPaint.Proofs.CursorGroups
import BracketPaint.Proofs.Overrides
import BracketPaint.Proofs.Defects
import BracketPaint.Proofs.ColorTexts
import BracketPaint.Proofs.MergeOrder
import BracketPaint.Proofs.CursorSet
import BracketPaint.Proofs.Grouping
import BracketPaint.Proofs.PrintedLines
import BracketPaint.Proofs.LineEnds
import BracketPaint.Proofs.WrittenCursors
import BracketPaint.Proofs.ColorSpellings
