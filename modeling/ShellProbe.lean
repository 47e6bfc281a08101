import ShellProbe.Text.Quoted
import ShellProbe.Text.Utf8
import ShellProbe.Instrument.Script
import ShellProbe.Json.Reader
import ShellProbe.Json.Writer
import ShellProbe.Json.Display
import ShellProbe.Decision.Feed
import ShellProbe.Report.Channel
import ShellProbe.Disk.Basic
import ShellProbe.Statistics
import ShellProbe.Log.Tee
import ShellProbe.CommandLine.Reader
import ShellProbe.Command.Options
import ShellProbe.Explore.Program
import ShellProbe.Explore.Environment
import ShellProbe.Explore.Run
import ShellProbe.Command.Explore
import ShellProbe.Command.Instrument
import ShellProbe.Main
import ShellProbe.Proofs.Lines
import ShellProbe.Proofs.Numerals
import ShellProbe.Proofs.Shades
import ShellProbe.Proofs.Splicing
import ShellProbe.Proofs.Columns
import ShellProbe.Proofs.Changes
import ShellProbe.Proofs.Runs
import ShellProbe.Proofs.Frame
import ShellProbe.Proofs.Nesting
import ShellProbe.Proofs.Layout
import ShellProbe.Proofs.Patches
import ShellProbe.Proofs.Emissions
import ShellProbe.Proofs.Newlines
import ShellProbe.Proofs.Numbering
import ShellProbe.Proofs.Sites
import ShellProbe.Proofs.Words
import ShellProbe.Proofs.Blocks
import ShellProbe.Proofs.Answered
import ShellProbe.Proofs.Substitutions
import ShellProbe.Proofs.Joins
import ShellProbe.Proofs.Continuations
import ShellProbe.Proofs.Kinds
import ShellProbe.Proofs.Decoding
import ShellProbe.Proofs.Channel
import ShellProbe.Proofs.Sources
import ShellProbe.Proofs.Feeds
import ShellProbe.Proofs.Walks
import ShellProbe.Proofs.Files
import ShellProbe.Proofs.WorkDirectory
import ShellProbe.Proofs.Sessions
import ShellProbe.Proofs.Executions
import ShellProbe.Proofs.Explorations
import ShellProbe.Proofs.Reproducing
import ShellProbe.Proofs.Courses
import ShellProbe.Proofs.Obstacles
import ShellProbe.Proofs.Completions
import ShellProbe.Proofs.Verdicts
import ShellProbe.Proofs.Comparisons
import ShellProbe.Proofs.Writes
import ShellProbe.Proofs.Endings
import ShellProbe.Proofs.StatisticsFiles
import ShellProbe.Proofs.Tallies
import ShellProbe.Proofs.Loading
import ShellProbe.Proofs.Escapes
import ShellProbe.Proofs.Rereading
import ShellProbe.Proofs.Saving
import ShellProbe.Proofs.Accumulating
import ShellProbe.Proofs.Bystanders
import ShellProbe.Proofs.Makings
import ShellProbe.Proofs.Arguments
import ShellProbe.Proofs.Tees
import ShellProbe.Proofs.Shadowing
import ShellProbe.Proofs.Alongside
import ShellProbe.Proofs.Logging
import ShellProbe.Proofs.Commands
import ShellProbe.Proofs.Concatenation
import ShellProbe.Proofs.Bodies
import ShellProbe.Proofs.Quoting
import ShellProbe.Proofs.Copies
import ShellProbe.Proofs.ArmEnds
import ShellProbe.Proofs.NestedBlocks
import ShellProbe.Proofs.OpenEnds
import ShellProbe.Proofs.Patterns
import ShellProbe.Proofs.Contexts
import ShellProbe.Proofs.Descent
import ShellProbe.Proofs.Collapsing
import ShellProbe.Proofs.WholeLines
import ShellProbe.Proofs.Tilings
import ShellProbe.Proofs.Remasking
import ShellProbe.Proofs.Cuts
import ShellProbe.Proofs.Readings
import ShellProbe.Proofs.RecordLines
import ShellProbe.Proofs.Decisions
