import NeutralQuery.Text.Basic
import NeutralQuery.Text.Case

namespace NeutralQuery.Sql

/-- What a stem must end with. -/
inductive Stem where
  | ends (text : String)
  /-- Some character, but none of these. -/
  | endsOutside (chars : String)

/-- Replaces one of some endings after a stem of the given kind; where `whole`, the stem is all of
the word before the ending. -/
structure SingularRule where
  whole : Bool := false
  stems : List Stem
  endings : List String
  replacement : String

/-- How letter case counts when a rule is applied. -/
inductive CaseMode where
  | upper
  | exact
  | ignored

namespace CaseMode

def form (m : CaseMode) (s : String) : List Char :=
  match m with
  | .upper => (Text.upper s).toList
  | .exact => s.toList
  | .ignored => (Text.lower s).toList

/-- The word as it is compared with the form of a rule. -/
def seen (m : CaseMode) (cs : List Char) : List Char :=
  match m with
  | .ignored => cs.map Text.lowerChar
  | _ => cs

def replacement (m : CaseMode) (s : String) : List Char :=
  match m with
  | .upper => (Text.upper s).toList
  | _ => s.toList

end CaseMode

def Stem.fits (mode : CaseMode) (whole : Bool) (cs : List Char) : Stem → Bool
  | .ends text =>
    if whole then mode.seen cs == mode.form text else (mode.form text).isSuffixOf (mode.seen cs)
  | .endsOutside chars =>
    match (mode.seen cs).getLast? with
    | some c => !(mode.form chars).contains c
    | none => false

def SingularRule.applied? (r : SingularRule) (mode : CaseMode) (word : List Char) :
    Option (List Char) :=
  r.endings.findSome? fun ending =>
    let tail := mode.form ending
    let stem := word.take (word.length - tail.length)
    if tail.isSuffixOf (mode.seen word) && r.stems.any (·.fits mode r.whole stem) then
      some (stem ++ mode.replacement r.replacement)
    else none

def uncountable : List String :=
  ["equipment", "information", "rice", "money", "species", "series", "fish", "sheep", "jeans",
    "police"]

def irregular : List (String × String) :=
  [("people", "person"), ("men", "man"), ("children", "child"), ("sexes", "sex"),
    ("moves", "move"), ("mombies", "mombie")]

def singularRules : List SingularRule := [
  { stems := [.ends "database"], endings := ["s"], replacement := "" },
  { stems := [.ends "quiz"], endings := ["zes"], replacement := "" },
  { stems := [.ends "matr"], endings := ["ices"], replacement := "ix" },
  { stems := [.ends "vert", .ends "ind"], endings := ["ices"], replacement := "ex" }]

def laterRules : List SingularRule := [
  { stems := [.ends "alias", .ends "status"], endings := ["es", ""], replacement := "" },
  { stems := [.ends "octop", .ends "vir"], endings := ["us", "i"], replacement := "us" },
  { whole := true, stems := [.ends "a"], endings := ["xis", "xes"], replacement := "xis" },
  { stems := [.ends "cris", .ends "test"], endings := ["is", "es"], replacement := "is" },
  { stems := [.ends "shoe"], endings := ["s"], replacement := "" },
  { stems := [.ends "o"], endings := ["es"], replacement := "" },
  { stems := [.ends "bus"], endings := ["es", ""], replacement := "" },
  { whole := true, stems := [.ends "m", .ends "l"], endings := ["ice"], replacement := "ouse" },
  { stems := [.ends "x", .ends "ch", .ends "ss", .ends "sh"], endings := ["es"]
    replacement := "" },
  { stems := [.ends "c"], endings := ["ookies"], replacement := "ookie" },
  { stems := [.ends "m"], endings := ["ovies"], replacement := "ovie" },
  { stems := [.ends "s"], endings := ["eries"], replacement := "eries" },
  { stems := [.endsOutside "aeiouy", .ends "qu"], endings := ["ies"], replacement := "y" },
  { stems := [.ends "l", .ends "r"], endings := ["ves"], replacement := "f" },
  { stems := [.ends "tive"], endings := ["s"], replacement := "" },
  { stems := [.ends "hive"], endings := ["s"], replacement := "" },
  { stems := [.endsOutside "f"], endings := ["ves"], replacement := "fe" },
  { whole := true, stems := [.ends "analy"], endings := ["sis", "ses"], replacement := "sis" },
  { stems := [.ends "analy", .ends "ba", .ends "diagno", .ends "parenthe", .ends "progno",
      .ends "synop", .ends "the"], endings := ["sis", "ses"], replacement := "sis" },
  { stems := [.ends "t", .ends "i"], endings := ["a"], replacement := "um" },
  { stems := [.ends "n"], endings := ["ews"], replacement := "ews" },
  { stems := [.ends "ss"], endings := [""], replacement := "" },
  { stems := [.ends ""], endings := ["s"], replacement := "" }]

def oxen? (mode : CaseMode) (word : List Char) : Option (List Char) :=
  if (mode.form "oxen").isPrefixOf (mode.seen word) then some (word.take 2 ++ word.drop 4) else none

def caseModes : List CaseMode := [.upper, .exact, .ignored]

def inModes (f : CaseMode → Option (List Char)) : Option (List Char) := caseModes.findSome? f

def capitalized (s : String) : String :=
  match s.toList with
  | c :: cs => String.ofList (Text.upperChar c :: cs)
  | [] => ""

def irregular? (word : String) : Option (List Char) :=
  irregular.findSome? fun (many, one) =>
    [(Text.upper many, Text.upper one), (capitalized many, capitalized one), (many, one)].findSome?
      fun (ending, replacement) =>
        (Text.dropEnd? word ending).map fun stem => (stem ++ replacement).toList

def singular (word : String) : String :=
  let cs := word.toList
  if uncountable.contains (Text.lower word) then word
  else
    let found := (irregular? word).or <|
      (singularRules.findSome? fun r => inModes (r.applied? · cs)).or <|
      (inModes (oxen? · cs)).or <|
      laterRules.findSome? fun r => inModes (r.applied? · cs)
    String.ofList (found.getD cs)

end NeutralQuery.Sql
