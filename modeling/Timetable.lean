import Timetable.Codec.Audit
import Timetable.Codec.Config
import Timetable.Codec.Statistics
import Timetable.Config.Environment
import Timetable.ReadyQueue.Plain
import Timetable.Scenario.Broadcast
import Timetable.Scenario.Jobs
import Timetable.Scenario.Play
import Timetable.Task.Description
import Timetable.Proofs.ReadyQueue
import Timetable.Proofs.Coherence
import Timetable.Proofs.Attempt
import Timetable.Proofs.Claiming
import Timetable.Proofs.World
import Timetable.Proofs.Life
import Timetable.Proofs.Soundness
import Timetable.Proofs.Exclusion
import Timetable.Proofs.Terminal
import Timetable.Proofs.EndTime
import Timetable.Proofs.Crew
import Timetable.Proofs.Agenda
import Timetable.Proofs.Delivery
import Timetable.Proofs.Return
import Timetable.Proofs.Turns
import Timetable.Proofs.Sessions
import Timetable.Proofs.Rehearsal
import Timetable.Proofs.RunBound
import Timetable.Proofs.Ledger
import Timetable.Proofs.Stages
import Timetable.Proofs.Chronicle
import Timetable.Proofs.Mirror
import Timetable.Proofs.Retries
import Timetable.Proofs.DispatchOrder
import Timetable.Proofs.PlainQueue
import Timetable.Proofs.Workers
import Timetable.Proofs.Workshop
import Timetable.Proofs.Conservation
import Timetable.Proofs.QueueOrder
import Timetable.Proofs.HandBack
import Timetable.Proofs.Plant
import Timetable.Proofs.Tally
import Timetable.Proofs.DrainOrder
import Timetable.Proofs.WindingDown
import Timetable.Proofs.Floor
import Timetable.Proofs.Gauges
import Timetable.Proofs.Operations
import Timetable.Proofs.Staffing
import Timetable.Proofs.PoolBounds
import Timetable.Proofs.InFlight
import Timetable.Proofs.Firm
import Timetable.Proofs.Quiescence
import Timetable.Proofs.OneWorker
import Timetable.Proofs.Starts
import Timetable.Proofs.Line
import Timetable.Proofs.ExecutionOrder
import Timetable.Proofs.DueTimes
import Timetable.Proofs.Punctuality
import Timetable.Proofs.Growth
import Timetable.Proofs.QueueEdits
import Timetable.Proofs.Commutation
import Timetable.Proofs.Outlook
import Timetable.Proofs.Bystanders
import Timetable.Proofs.Conduct
import Timetable.Proofs.Tokens
import Timetable.Proofs.JsonText
import Timetable.Proofs.Members
import Timetable.Proofs.Stamps
import Timetable.Proofs.Denotations
import Timetable.Proofs.RoundTrip
import Timetable.Proofs.Gregorian
import Timetable.Proofs.CalendarRuns
import Timetable.Proofs.Expiry
import Timetable.Proofs.Saturation
import Timetable.Proofs.Forum
import Timetable.Proofs.Registry
import Timetable.Proofs.Broadcasts
import Timetable.Proofs.Recital
import Timetable.Proofs.AuditLog
import Timetable.Proofs.Auditor
import Timetable.Proofs.Hearing
import Timetable.Proofs.AuditHistory
import Timetable.Proofs.Course
import Timetable.Proofs.Listings
import Timetable.Proofs.Ticks
import Timetable.Proofs.InPlace
import Timetable.Proofs.Outstanding
import Timetable.Proofs.Refusals
import Timetable.Proofs.Figures
import Timetable.Proofs.ListingOrder
import Timetable.Proofs.Commands
import Timetable.Proofs.OneCourse
import Timetable.Proofs.Spellings
import Timetable.Proofs.Settings
import Timetable.Proofs.ConfigTexts
import Timetable.Proofs.EnvironmentValues
import Timetable.Proofs.Environments
import Timetable.Proofs.LastBatch
import Timetable.Proofs.Watch
import Timetable.Proofs.Vigil
