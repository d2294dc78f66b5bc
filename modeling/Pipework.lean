import Pipework.CommandLine
import Pipework.Session
import Pipework.Proofs.Script.Substitution
import Pipework.Proofs.Script.WellFormed
import Pipework.Proofs.Script.Sequence
import Pipework.Proofs.Script.Located
import Pipework.Proofs.Script.Bounds
import Pipework.Proofs.Script.Erasure
import Pipework.Proofs.Script.Interpolated
import Pipework.Proofs.Script.Extended
import Pipework.Proofs.Script.Lines
import Pipework.Proofs.Script.Descriptor
import Pipework.Proofs.Script.Printed.Script
import Pipework.Proofs.Script.Rendered.Reading
import Pipework.Proofs.Script.Rendered.Unambiguous
import Pipework.Proofs.CommandLine.Split
import Pipework.Proofs.Schedule.Status
import Pipework.Proofs.Stage.Written
import Pipework.Proofs.Schedule.Logged
import Pipework.Proofs.Directory.Trail
import Pipework.Proofs.Schedule.Trials
import Pipework.Proofs.Schedule.Restore
import Pipework.Proofs.Schedule.Engine
import Pipework.Proofs.Schedule.Invocation
import Pipework.Proofs.Schedule.Follow
import Pipework.Proofs.Modes.Mirror
import Pipework.Proofs.Modes.Stage
import Pipework.Proofs.Modes.Pipeline
import Pipework.Proofs.Modes.Attempts
import Pipework.Proofs.Modes.Agreement
import Pipework.Proofs.Overlay.Scopes
import Pipework.Proofs.Overlay.Disjoint
import Pipework.Proofs.Files.Accumulate
import Pipework.Proofs.Background.Basic
import Pipework.Proofs.Background.Job
import Pipework.Proofs.Background.Reader
import Pipework.Proofs.Background.Delivery
import Pipework.Proofs.Background.Lifecycle
import Pipework.Proofs.Background.Undisturbed
import Pipework.Proofs.Background.Follow
import Pipework.Proofs.Background.Output
import Pipework.Proofs.Background.Stable
import Pipework.Proofs.Text.Captured
import Pipework.Proofs.Text.Log
import Pipework.Proofs.Stage.Environment
import Pipework.Proofs.Flags.Pipefail
import Pipework.Proofs.Flags.Trace
import Pipework.Proofs.Splice.Beside
import Pipework.Proofs.Splice.Stage
import Pipework.Proofs.Splice.Engine
import Pipework.Proofs.Splice.Flow
import Pipework.Proofs.Splice.Turn
import Pipework.Proofs.Splice.Cat
import Pipework.Proofs.Splice.Insert
import Pipework.Proofs.Splice.Builtins
import Pipework.Proofs.Splice.Outcome
import Pipework.Proofs.Mock.Queue
import Pipework.Proofs.Mock.Independent
import Pipework.Proofs.Mock.Stage
import Pipework.Proofs.Mock.Latest
import Pipework.Proofs.Mock.Record
import Pipework.Proofs.Sheet.Copy
import Pipework.Proofs.Sheet.Translate
