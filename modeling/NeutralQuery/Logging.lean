import NeutralQuery.Error
import NeutralQuery.Finder.Journal
import NeutralQuery.Text.Case

namespace NeutralQuery

namespace Level

/-- A level by its name in any letter case; no name means the level of information. -/
def parse? (s : String) : Option Level :=
  if s = "" then some .info else all.find? fun l => l.name == Text.lower s

def enables (least l : Level) : Bool := decide (least.rank ≤ l.rank)

end Level

namespace Logging

def formats : List String := ["", "json", "console"]

def least (level format : String) : Outcome Level :=
  match Level.parse? level with
  | none =>
    .error (.within ("log level " ++ Text.quoted level)
      (.note ("unrecognized level: " ++ Text.quoted level)))
  | some l =>
    if formats.contains format then .ok l
    else .error (.note ("unknown log format " ++ Text.quoted format))

end Logging

end NeutralQuery
