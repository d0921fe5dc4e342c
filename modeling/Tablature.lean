import Tablature.Text.Characters
import Tablature.Text.LineIndex
import Tablature.CommandLine.Report
import Tablature.CommandLine.Arguments
import Tablature.Notation.Lexeme
import Tablature.Notation.Modifier
import Tablature.Notation.Mark
import Tablature.Score.BeatMap
import Tablature.Score.Lookup
import Tablature.Highlight.DecorationSet
import Tablature.Highlight.ChangeSet
import Tablature.Highlight.Layer
import Tablature.Sync.Host
import Tablature.Sync.Plan
import Tablature.Schedule.Scheduler
import Tablature.Schedule.Machine
import Tablature.Schedule.Timer
import Tablature.Sync.Controller
import Tablature.Sync.Session
import Tablature.Sync.Tracker
import Tablature.CommandLine.UsageError
import Tablature.CommandLine.Request
import Tablature.Main
import Tablature.Proofs.Notation.TokenOrder
import Tablature.Proofs.Score.BeatOrder
import Tablature.Proofs.Highlight.Positions
import Tablature.Proofs.Highlight.Survivors
import Tablature.Proofs.Highlight.Undo
import Tablature.Proofs.Highlight.TidyLayer
import Tablature.Proofs.Schedule.Jobs
import Tablature.Proofs.Schedule.Steps
import Tablature.Proofs.Schedule.TaskLoop
import Tablature.Proofs.Schedule.FrameLoop
import Tablature.Proofs.Schedule.StartOrder
import Tablature.Proofs.Schedule.Draining
import Tablature.Proofs.Score.BarSpans
import Tablature.Proofs.Sync.PlannedLayers
import Tablature.Proofs.Sync.SoundLayers
import Tablature.Proofs.Sync.HostContent
import Tablature.Proofs.Sync.Responses
import Tablature.Proofs.Sync.Recovery
import Tablature.Proofs.Sync.Coalescing
import Tablature.Proofs.Sync.ParkedBar
import Tablature.Proofs.Sync.ScrollPlace
import Tablature.Proofs.Highlight.Insertions
import Tablature.Proofs.Text.LinePlace
import Tablature.Proofs.Score.CursorPlace
import Tablature.Proofs.Notation.Reading
import Tablature.Proofs.Notation.Runs
import Tablature.Proofs.Notation.TokenRuns
import Tablature.Proofs.Score.BarNumber
import Tablature.Proofs.Schedule.TwoWorlds
import Tablature.Proofs.Sync.Delivery
import Tablature.Proofs.Sync.FailingCalls
import Tablature.Proofs.Sync.HostIndependence
import Tablature.Proofs.Sync.Contacts
import Tablature.Proofs.Sync.FlushCalls
import Tablature.Proofs.Sync.LastInstruction
import Tablature.Proofs.Notation.JoinedReading
import Tablature.Proofs.Score.JoinedBeats
import Tablature.Proofs.Notation.ModifierForms
import Tablature.Proofs.Score.TokenBeats
import Tablature.Proofs.Notation.GroundStarts
import Tablature.Proofs.Score.GroupBeats
import Tablature.Proofs.Sync.CursorReports
import Tablature.Proofs.Highlight.WellFormed
import Tablature.Proofs.Sync.FaithfulPlan
import Tablature.Proofs.Schedule.Waitlist
import Tablature.Proofs.Schedule.LoopCounts
import Tablature.Proofs.Highlight.ChangeOrder
import Tablature.Proofs.Score.Resolution
import Tablature.Proofs.Score.SelectionSpans
import Tablature.Proofs.Score.ForwardSelections
import Tablature.Proofs.Text.LineOrder
import Tablature.Proofs.Score.NearestBeat
import Tablature.Proofs.Score.BarPartition
import Tablature.Proofs.Highlight.BuildOrder
import Tablature.Proofs.Notation.ContentPlace
import Tablature.Proofs.Notation.GluedDurations
import Tablature.Proofs.Notation.ScanLoop
