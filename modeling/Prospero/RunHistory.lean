import Prospero.AutomationEngine
import Prospero.Lib.Words

namespace Prospero.Automations

/-- `list_runs` of SQLite. -/
def listRuns (runs : List AutomationRun) (id : String) (limit : UInt64) : List AutomationRun :=
  let mine := (runs.filter fun run => run.automationId = id).insertionSort
    fun x y => y.firedAt ≤ x.firedAt
  Words.limit limit.toInt64 mine

end Prospero.Automations
