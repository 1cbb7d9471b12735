import Timetable.Codec.Time
import Timetable.Metrics

/-!
# Statistics in JSON
-/
namespace Timetable.Statistics

open Json
open Json.Record (required)

/-- A count of tasks or workers. -/
def sizeCount (v : Value) : Except Fault Nat := natural wordLimit "usize" v

/-- A count of attempts or jobs. -/
def wordCount (v : Value) : Except Fault Nat := natural wordLimit "u64" v

/-- Statistics. -/
def ofJson : Value → Except Fault Statistics :=
  RecordStyle.decode { title := "struct SchedulerStatistics" }
    (Statistics.mk <$> required "total_tasks" sizeCount <*> required "pending" sizeCount <*>
      required "scheduled" sizeCount <*> required "running" sizeCount <*>
      required "completed" sizeCount <*> required "failed" sizeCount <*>
      required "cancelled" sizeCount <*> required "recurring" sizeCount <*>
      required "total_executions" wordCount <*> required "successful_executions" wordCount <*>
      required "failed_executions" wordCount <*> required "average_execution_ms" float <*>
      required "active_workers" wordCount <*> required "worker_threads" sizeCount <*>
      required "uptime" Span.ofJson)

end Timetable.Statistics
