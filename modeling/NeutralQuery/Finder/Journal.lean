import NeutralQuery.Value.Plain

namespace NeutralQuery

inductive Level where
  | debug
  | info
  | warn
  | error
  | dpanic
  | panic
  | fatal
deriving DecidableEq

namespace Level

def all : List Level := [.debug, .info, .warn, .error, .dpanic, .panic, .fatal]

def name : Level → String
  | .debug => "debug"
  | .info => "info"
  | .warn => "warn"
  | .error => "error"
  | .dpanic => "dpanic"
  | .panic => "panic"
  | .fatal => "fatal"

/-- Levels in the order of their weight. -/
def rank : Level → Nat
  | .debug => 0
  | .info => 1
  | .warn => 2
  | .error => 3
  | .dpanic => 4
  | .panic => 5
  | .fatal => 6

end Level

structure LogEntry where
  logger : String
  level : Level
  message : String
  fields : List (String × Value)

/-- The counters of executions. -/
inductive Metric where
  | duration
  | failures
  | rows
deriving DecidableEq

def Metric.name : Metric → String
  | .duration => "asceticquery_execution_duration_seconds"
  | .failures => "asceticquery_execution_errors_total"
  | .rows => "asceticquery_rows_total"

structure Counter where
  metric : Metric
  labels : List String
  count : Int
deriving DecidableEq

structure Journal where
  entries : List LogEntry := []
  counters : List Counter := []

namespace Journal

def write (e : LogEntry) (j : Journal) : Journal := { j with entries := j.entries ++ [e] }

/-- Adds to a counter, which begins at zero. -/
def addTo (metric : Metric) (labels : List String) (n : Int) : List Counter → List Counter
  | [] => [⟨metric, labels, n⟩]
  | c :: cs =>
    if c.metric = metric ∧ c.labels = labels then { c with count := c.count + n } :: cs
    else c :: addTo metric labels n cs

def add (metric : Metric) (labels : List String) (n : Int) (j : Journal) : Journal :=
  { j with counters := addTo metric labels n j.counters }

def countersOf (j : Journal) (metric : Metric) : List Counter :=
  j.counters.filter fun c => c.metric == metric

end Journal

end NeutralQuery
