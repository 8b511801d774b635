import Mathlib.Tactic.IntervalCases
import NeutralQuery.Proofs.Text.Digits
import NeutralQuery.Time.Timestamp

namespace NeutralQuery.Time

open Text (Digital)

namespace Timestamp

variable {t t' : Timestamp}

/-- An instant as clocks can show it: its zone differs from the universal time by whole minutes. -/
structure Shown (t : Timestamp) : Prop where
  nanos : t.nanos < 10 ^ 9
  offset : t.zone.offset % 60 = 0

end Timestamp

end NeutralQuery.Time
