import NeutralQuery.Json.Interchange

namespace NeutralQuery.Search

structure Response where
  status : Nat
  body : String

def statusTexts : List (Nat × String) :=
  [(100, "Continue"), (101, "Switching Protocols"), (102, "Processing"), (103, "Early Hints"),
    (200, "OK"), (201, "Created"), (202, "Accepted"), (203, "Non-Authoritative Information"),
    (204, "No Content"), (205, "Reset Content"), (206, "Partial Content"), (207, "Multi-Status"),
    (208, "Already Reported"), (226, "IM Used"), (300, "Multiple Choices"),
    (301, "Moved Permanently"), (302, "Found"), (303, "See Other"), (304, "Not Modified"),
    (305, "Use Proxy"), (307, "Temporary Redirect"), (308, "Permanent Redirect"),
    (400, "Bad Request"), (401, "Unauthorized"), (402, "Payment Required"), (403, "Forbidden"),
    (404, "Not Found"), (405, "Method Not Allowed"), (406, "Not Acceptable"),
    (407, "Proxy Authentication Required"), (408, "Request Timeout"), (409, "Conflict"),
    (410, "Gone"), (411, "Length Required"), (412, "Precondition Failed"),
    (413, "Request Entity Too Large"), (414, "Request URI Too Long"),
    (415, "Unsupported Media Type"), (416, "Requested Range Not Satisfiable"),
    (417, "Expectation Failed"), (418, "I'm a teapot"), (421, "Misdirected Request"),
    (422, "Unprocessable Entity"), (423, "Locked"), (424, "Failed Dependency"),
    (425, "Too Early"), (426, "Upgrade Required"), (428, "Precondition Required"),
    (429, "Too Many Requests"), (431, "Request Header Fields Too Large"),
    (451, "Unavailable For Legal Reasons"), (500, "Internal Server Error"),
    (501, "Not Implemented"), (502, "Bad Gateway"), (503, "Service Unavailable"),
    (504, "Gateway Timeout"), (505, "HTTP Version Not Supported"),
    (506, "Variant Also Negotiates"), (507, "Insufficient Storage"), (508, "Loop Detected"),
    (510, "Not Extended"), (511, "Network Authentication Required")]

def statusText (status : Int) : String :=
  ((statusTexts.find? fun e => (e.1 : Int) = status).map (·.2)).getD ""

/-- A failure that the index reports, with a reason and its kind where it gives them. -/
structure Refusal where
  status : Int
  reason : String := ""
  type : String := ""

def Refusal.message (r : Refusal) : String :=
  "elastic: Error " ++ Text.ofInt r.status ++ " (" ++ statusText r.status ++ ")" ++
    (if r.reason = "" then "" else ": " ++ r.reason ++ " [type=" ++ r.type ++ "]")

def textMember? (j : Json) (name : String) : Option String :=
  match j.get? name with
  | none | some .null => some ""
  | some (.text s) => some s
  | some _ => none

def refusalOf? (j : Json) : Option Refusal := do
  let status ← match j.get? "status" with
    | none | some .null => some 0
    | some s => s.asInt?
  match j, j.get? "error" with
  | .null, _ | .record _, none | .record _, some .null => some ⟨status, "", ""⟩
  | .record _, some (.record details) =>
    let reason ← textMember? (.record details) "reason"
    let type ← textMember? (.record details) "type"
    return ⟨status, reason, type⟩
  | _, _ => none

/-- The status in a body goes before the status it came with. -/
def Response.refusal (r : Response) : Refusal :=
  match (Json.read r.body).toOption.bind refusalOf? with
  | some refusal => if refusal.status = 0 then { refusal with status := r.status } else refusal
  | none => { status := r.status }

def Response.tree (r : Response) : Outcome Json :=
  if 200 ≤ r.status ∧ r.status ≤ 299 then
    (Json.read r.body).mapError fun e => .note e.message
  else .error (.note r.refusal.message)

def hits (j : Json) : List Json := ((j.get? "hits").bind (·.get? "hits")).elim [] Json.items

def totalHits (j : Json) : Int :=
  (((j.get? "hits").bind (·.get? "total")).bind (·.get? "value")).bind Json.asInt? |>.getD 0

def aggregation? (j : Json) (name : String) : Option Json :=
  (j.get? "aggregations").bind (·.get? name)

/-- The fields of a document, numbers as they are written. -/
def source (hit : Json) : Outcome Row :=
  let fail := fun (text : String) => Except.error (.within "decode hit" (.note text))
  match hit.get? "_source" with
  | none => fail "EOF"
  | some .null => .ok []
  | some j =>
    match j.value .numeral with
    | .record row => .ok row
    | _ => fail ("json: cannot unmarshal " ++ j.kindName ++
        " into Go value of type map[string]interface \x7b\x7d")

def metricValue? (aggregations : Json) (name : String) : Option Float :=
  ((aggregations.get? name).bind (·.get? "value")).bind Json.asFloat?

/-- One page of groups, and the key after which the next one begins. -/
structure GroupPage where
  buckets : List Json
  after : Option Row

def groupPage (groups : Option Json) : GroupPage :=
  { buckets := (groups.bind (·.get? "buckets")).elim [] Json.items
    after := (groups.bind (·.get? "after_key")).bind fun j => j.floatValue.asRecord? }

end NeutralQuery.Search
