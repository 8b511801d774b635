import NeutralQuery.Proofs.Sql.Owners

namespace NeutralQuery.Sql

/-- What quotes enclose. -/
inductive Quote where
  | literal
  | name

namespace Quote

def mark : Quote → Char
  | .literal => '\''
  | .name => '"'

def ofMark? (c : Char) : Option Quote :=
  if c = '\'' then some .literal else if c = '"' then some .name else none

theorem ofMark?_mark (q : Quote) : ofMark? q.mark = some q := by
  cases q <;> rfl

theorem ne_mark (h : ofMark? c = none) (q : Quote) : c ≠ q.mark := by
  rintro rfl
  rw [ofMark?_mark] at h
  cases h

def doubled (q : Quote) (cs : List Char) : List Char :=
  cs.flatMap fun c => if c = q.mark then [q.mark, q.mark] else [c]

theorem doubled_cons (q : Quote) (c : Char) (cs : List Char) :
    q.doubled (c :: cs) = (if c = q.mark then [q.mark, q.mark] else [c]) ++ q.doubled cs :=
  List.flatMap_cons

/-- A text between quotes. -/
def enclose (q : Quote) (cs : List Char) : List Char := q.mark :: q.doubled cs ++ [q.mark]

end Quote

inductive Lexeme where
  | quoted (q : Quote) (s : String)
  /-- A character outside of quotes. -/
  | mark (c : Char)

namespace Lexeme

def literal? : Lexeme → Option String
  | .quoted .literal s => some s
  | _ => none

/-- The string literals among some lexemes. -/
def literals (lexemes : List Lexeme) : List String := lexemes.filterMap literal?

def marks (s : String) : List Lexeme := s.toList.map mark

theorem literals_append (xs ys : List Lexeme) :
    literals (xs ++ ys) = literals xs ++ literals ys := List.filterMap_append

theorem literals_marks (s : String) : literals (marks s) = [] := by
  rw [literals, marks, List.filterMap_map]
  exact List.filterMap_none s.toList

end Lexeme

/-- Where a reader stands. Inside quotes it knows what it has read there. -/
inductive Lexer where
  | outside
  | inside (q : Quote) (before : List Char)
  /-- Behind a quote that ends what is quoted, unless another one follows. -/
  | closing (q : Quote) (before : List Char)

namespace Lexer

open Quote

def start (c : Char) : Lexer × List Lexeme :=
  match ofMark? c with
  | some q => (.inside q [], [])
  | none => (.outside, [.mark c])

/-- Where the reader stands after a character, and what it has found by then. -/
def step : Lexer → Char → Lexer × List Lexeme
  | .outside, c => start c
  | .inside q before, c =>
    if c = q.mark then (.closing q before, []) else (.inside q (before ++ [c]), [])
  | .closing q before, c =>
    if c = q.mark then (.inside q (before ++ [c]), [])
    else ((start c).1, .quoted q (String.ofList before) :: (start c).2)

/-- What is found at the end of a text, which must not stand inside quotes. -/
def finish : Lexer → Option (List Lexeme)
  | .outside => some []
  | .inside _ _ => none
  | .closing q before => some [.quoted q (String.ofList before)]

def read? : Lexer → List Char → Option (List Lexeme)
  | l, [] => l.finish
  | l, c :: cs => (read? (l.step c).1 cs).map ((l.step c).2 ++ ·)

theorem read?_cons (h : step l c = (next, found)) (cs : List Char) :
    read? l (c :: cs) = (read? next cs).map (found ++ ·) := by
  rw [read?, h]

theorem read?_cons_silent (h : step l c = (next, [])) (cs : List Char) :
    read? l (c :: cs) = read? next cs := by
  rw [read?_cons h]
  exact Option.map_id'

theorem start_mark (h : ofMark? c = none) : start c = (.outside, [.mark c]) := by
  rw [start, h]

theorem read?_mark (h : ofMark? c = none) (cs : List Char) :
    read? .outside (c :: cs) = (read? .outside cs).map (.mark c :: ·) :=
  read?_cons (l := .outside) (start_mark h) cs

theorem read?_marks (h : ∀ c ∈ as, ofMark? c = none) (cs : List Char) :
    read? .outside (as ++ cs) = (read? .outside cs).map (as.map .mark ++ ·) := by
  induction as with
  | nil => exact Option.map_id'.symm
  | cons c as ih =>
    obtain ⟨hc, has⟩ := List.forall_mem_cons.1 h
    rw [List.cons_append, read?_mark hc, ih has, Option.map_map]
    rfl

theorem read?_opening (q : Quote) (cs : List Char) :
    read? .outside (q.mark :: cs) = read? (.inside q []) cs := by
  apply read?_cons_silent
  rw [step, start, ofMark?_mark]

theorem read?_doubled (q : Quote) (before v cs : List Char) :
    read? (.inside q before) (q.doubled v ++ cs) = read? (.inside q (before ++ v)) cs := by
  induction v generalizing before with
  | nil => rw [List.append_nil]; rfl
  | cons c v ih =>
    have hrest : before ++ c :: v = before ++ [c] ++ v := by
      rw [List.append_assoc, List.singleton_append]
    rw [doubled_cons, hrest, ← ih]
    -- Two quotes take the reader out of the quotes and back in.
    split
    · next hc =>
      have hfirst : step (.inside q before) q.mark = (.closing q before, []) := if_pos rfl
      have hsecond : step (.closing q before) q.mark = (.inside q (before ++ [q.mark]), []) :=
        if_pos rfl
      rw [hc]
      exact (read?_cons_silent hfirst _).trans (read?_cons_silent hsecond _)
    · next hc =>
      have hstep : step (.inside q before) c = (.inside q (before ++ [c]), []) := if_neg hc
      exact read?_cons_silent hstep _

/-- Some characters do not begin with a quote, so they do not go on with what is quoted before. -/
def Detached (cs : List Char) : Prop := ∀ c, cs.head? = some c → ofMark? c = none

theorem detached_nil : Detached [] := by
  rintro _ ⟨⟩

theorem detached_cons (h : ofMark? c = none) (cs : List Char) : Detached (c :: cs) := by
  rintro _ ⟨⟩
  exact h

theorem Detached.append (ha : Detached as) (hb : Detached bs) : Detached (as ++ bs) := by
  cases as with
  | nil => exact hb
  | cons c as => exact ha

theorem read?_closing (q : Quote) (before : List Char) (h : Detached cs) :
    read? (.closing q before) cs =
      (read? .outside cs).map (.quoted q (String.ofList before) :: ·) := by
  cases cs with
  | nil => rfl
  | cons c cs =>
    have hc := h c rfl
    have hstep : step (.closing q before) c =
        (.outside, [.quoted q (String.ofList before), .mark c]) := by
      rw [step, if_neg (ne_mark hc q), start_mark hc]
    rw [read?_cons hstep, read?_mark hc, Option.map_map]
    rfl

theorem read?_enclose (q : Quote) (v : List Char) (h : Detached cs) :
    read? .outside (q.enclose v ++ cs) =
      (read? .outside cs).map (.quoted q (String.ofList v) :: ·) := by
  have hclosing : step (.inside q v) q.mark = (.closing q v, []) := if_pos rfl
  rw [enclose, List.cons_append, List.cons_append, read?_opening, List.append_assoc, read?_doubled,
    List.nil_append, List.singleton_append, read?_cons_silent hclosing, read?_closing q v h]

end Lexer

open Lexer

/-- Outside of quotes a text is read as some lexemes, and what comes after it as if it stood alone,
unless that begins with a quote. -/
def Spells (s : String) (lexemes : List Lexeme) : Prop :=
  ∀ rest, Detached rest →
    read? .outside (s.toList ++ rest) = (read? .outside rest).map (lexemes ++ ·)

/-- No character of a text is a quote. -/
def Unquoted (s : String) : Prop := ∀ c ∈ s.toList, Quote.ofMark? c = none

instance : Decidable (Unquoted s) :=
  List.decidableBAll (fun c => Quote.ofMark? c = none) s.toList

namespace Spells

theorem nil : Spells "" [] := fun _ _ => Option.map_id'.symm

theorem append (hs : Spells s xs) (ht : Spells t ys) (h : Detached t.toList) :
    Spells (s ++ t) (xs ++ ys) := by
  intro rest hrest
  rw [String.toList_append, List.append_assoc, hs _ (h.append hrest), ht rest hrest,
    Option.map_map]
  congr 1
  funext zs
  exact (List.append_assoc xs ys zs).symm

theorem after_marks (hs : Unquoted s) (ht : Spells t ys) :
    Spells (s ++ t) (Lexeme.marks s ++ ys) := by
  intro rest hrest
  rw [String.toList_append, List.append_assoc, read?_marks hs, ht rest hrest, Option.map_map]
  congr 1
  funext zs
  exact (List.append_assoc _ ys zs).symm

theorem marks (h : Unquoted s) : Spells s (Lexeme.marks s) := fun rest _ => read?_marks h rest

end Spells

theorem Unquoted.detached (h : Unquoted s) : Detached s.toList :=
  fun c hc => h c (List.mem_of_mem_head? hc)

theorem Unquoted.detached_append (h : Unquoted s) (hn : s ≠ "") (t : String) :
    Detached (s ++ t).toList := by
  obtain ⟨c, cs, hc⟩ := List.exists_cons_of_ne_nil fun he => hn (String.toList_eq_nil_iff.1 he)
  rw [String.toList_append, hc]
  apply detached_cons
  apply h
  rw [hc]
  exact List.mem_cons_self

theorem literal_toList (s : String) : (literal s).toList = Quote.literal.enclose s.toList := by
  simp only [literal, Text.mapChars, String.toList_append, String.toList_ofList]
  rfl

theorem spells_literal (s : String) : Spells (literal s) [.quoted .literal s] := by
  intro rest hrest
  rw [literal_toList, read?_enclose .literal s.toList hrest, String.ofList_toList]
  rfl

def nameable (cs : List Char) : List Char := cs.filter (·.toNat != 0)

theorem doubled_nameable (cs : List Char) :
    cs.flatMap (fun c => if c = '"' then ['"', '"'] else if c.toNat = 0 then [] else [c]) =
      Quote.name.doubled (nameable cs) := by
  induction cs with
  | nil => rfl
  | cons c cs ih =>
    rw [List.flatMap_cons, ih]
    by_cases hzero : c.toNat = 0
    · have hc : c ≠ '"' := by
        rintro rfl
        cases hzero
      have hfilter : nameable (c :: cs) = nameable cs := by
        apply List.filter_cons_of_neg
        rw [hzero]
        decide
      rw [if_neg hc, if_pos hzero, hfilter]
      rfl
    · have hfilter : nameable (c :: cs) = c :: nameable cs :=
        List.filter_cons_of_pos (bne_iff_ne.2 hzero)
      rw [if_neg hzero, hfilter, Quote.doubled_cons]
      rfl

theorem identifier_toList (s : String) :
    (identifier s).toList = Quote.name.enclose (nameable s.toList) := by
  simp only [identifier, Text.mapChars, String.toList_append, String.toList_ofList,
    doubled_nameable]
  rfl

theorem spells_identifier (s : String) :
    Spells (identifier s) [.quoted .name (String.ofList (nameable s.toList))] := by
  intro rest hrest
  rw [identifier_toList, read?_enclose .name _ hrest]
  rfl

namespace Expr

def opening (type : ScalarType) : String := if type = .object then "" else "("

def closing (type : ScalarType) : String := if type = .object then "" else ")" ++ castSuffix type

/-- What stands before the last segment: a document is wanted, or its text. -/
def arrow (type : ScalarType) : String := if type = .object then "->" else "->>"

def descent (path : List String) (last : String) (type : ScalarType) : String :=
  String.join (path.map fun s => "->" ++ literal s) ++ (arrow type ++ literal last) ++ closing type

theorem text_within (a name : String) (path : List String) (last : String) (type : ScalarType) :
    (within a name path last type).text =
      opening type ++ columnText a name ++ descent path last type := by
  rw [text, descent, Span.join_eq_intercalate, opening, closing, arrow]
  split
  · simp only [String.empty_append, String.append_empty, String.append_assoc]
  · simp only [String.append_assoc]

def stepLexemes (sign segment : String) : List Lexeme :=
  Lexeme.marks sign ++ [.quoted .literal segment]

def descentLexemes (path : List String) (last : String) (type : ScalarType) : List Lexeme :=
  path.flatMap (stepLexemes "->") ++ stepLexemes (arrow type) last ++ Lexeme.marks (closing type)

theorem literals_stepLexemes (sign segment : String) :
    Lexeme.literals (stepLexemes sign segment) = [segment] := by
  rw [stepLexemes, Lexeme.literals_append, Lexeme.literals_marks]
  rfl

theorem literals_descentLexemes (path : List String) (last : String) (type : ScalarType) :
    Lexeme.literals (descentLexemes path last type) = path ++ [last] := by
  have hpath : Lexeme.literals (path.flatMap (stepLexemes "->")) = path := by
    induction path with
    | nil => rfl
    | cons s path ih =>
      rw [List.flatMap_cons, Lexeme.literals_append, literals_stepLexemes, ih]
      rfl
  rw [descentLexemes, Lexeme.literals_append, Lexeme.literals_append, hpath, literals_stepLexemes,
    Lexeme.literals_marks, List.append_nil]

theorem unquoted_opening (type : ScalarType) : Unquoted (opening type) := by
  rw [opening]
  split <;> decide

theorem unquoted_closing (type : ScalarType) : Unquoted (closing type) := by
  rw [closing, castSuffix.eq_def]
  split
  · decide
  · split <;> decide

theorem unquoted_arrow (type : ScalarType) : Unquoted (arrow type) := by
  rw [arrow]
  split <;> decide

theorem arrow_ne_empty (type : ScalarType) : arrow type ≠ "" := by
  rw [arrow]
  split <;> decide

theorem spells_step (h : Unquoted sign) (segment : String) :
    Spells (sign ++ literal segment) (stepLexemes sign segment) :=
  (spells_literal segment).after_marks h

theorem spells_path (path : List String) :
    Spells (String.join (path.map fun s => "->" ++ literal s)) (path.flatMap (stepLexemes "->")) ∧
      Detached (String.join (path.map fun s => "->" ++ literal s)).toList := by
  have harrow : Unquoted "->" := by decide
  induction path with
  | nil => exact ⟨.nil, detached_nil⟩
  | cons s path ih =>
    rw [List.map_cons, String.join_cons, List.flatMap_cons]
    refine ⟨(spells_step harrow s).append ih.1 ih.2, ?_⟩
    rw [String.append_assoc]
    exact harrow.detached_append (by decide) _

theorem spells_descent (path : List String) (last : String) (type : ScalarType) :
    Spells (descent path last type) (descentLexemes path last type) := by
  have hlast := spells_step (unquoted_arrow type) last
  have hdetached := (unquoted_arrow type).detached_append (arrow_ne_empty type) (literal last)
  have hclosing := unquoted_closing type
  exact ((spells_path path).1.append hlast hdetached).append (.marks hclosing) hclosing.detached

theorem detached_descent (path : List String) (last : String) (type : ScalarType) :
    Detached (descent path last type).toList := by
  have hlast := (unquoted_arrow type).detached_append (arrow_ne_empty type) (literal last)
  rw [descent, String.toList_append, String.toList_append]
  exact ((spells_path path).2.append hlast).append (unquoted_closing type).detached

theorem spells_within (h : Spells (columnText a name) xs) (path : List String) (last : String)
    (type : ScalarType) :
    Spells (within a name path last type).text
      (Lexeme.marks (opening type) ++ xs ++ descentLexemes path last type) := by
  rw [text_within]
  exact (h.after_marks (unquoted_opening type)).append (spells_descent path last type)
    (detached_descent path last type)

end Expr

namespace Frame

/-- The table that a location leads into. -/
def owner (f : Frame) (location : String) : Table := (f.table? location).getD f.root

/-- The segments of a location that lead to its table. -/
def above (f : Frame) (location : String) : List String := (f.table? location).elim [] Table.place

/-- The text of a column of the table that a location leads into. -/
def columnText (f : Frame) (location field : String) : String :=
  Expr.columnText (f.owner location).tableAlias (f.mapping.column (f.owner location).entity field)

theorem expr_within (f : Frame) (type : ScalarType)
    (hs : Text.split '.' location = f.above location ++ first :: (path ++ [last]))
    (hn : first ≠ "") :
    f.expr location type = .ok (.within (f.owner location).tableAlias
      (f.mapping.column (f.owner location).entity first) path last type) := by
  have hbelow (t : Table) : f.below t location (first :: (path ++ [last])) type =
      .ok (.within t.tableAlias (f.mapping.column t.entity first) path last type) := by
    rw [below, if_neg hn, List.getLast?_concat, List.dropLast_concat]
  rw [above] at hs
  rw [owner]
  cases ht : f.table? location with
  | none =>
    rw [ht, Option.elim_none, List.nil_append] at hs
    rw [expr_root ht, hs, Option.getD_none]
    exact hbelow f.root
  | some t =>
    rw [ht, Option.elim_some, Table.place, if_neg (covers_iff.1 (covers_of_table? ht)).1] at hs
    rw [expr_below ht hs (List.cons_ne_nil _ _), Option.getD_some]
    exact hbelow t

end Frame

/-- Below a column every segment of a location is a string literal of its own, in order and with an
arrow before it. A reader finds them from the end of the column on, whatever comes after the value;
and the whole value is read so where the column itself does not leave quotes open. -/
theorem segments_are_literals (f : Frame) (type : ScalarType)
    (hs : Text.split '.' location = f.above location ++ first :: (path ++ [last]))
    (hn : first ≠ "") :
    ∃ e back, f.expr location type = .ok e ∧
      e.text = Expr.opening type ++ f.columnText location first ++ back ∧
      Spells back (Expr.descentLexemes path last type) ∧
      Lexeme.literals (Expr.descentLexemes path last type) = path ++ [last] ∧
      ∀ column, Spells (f.columnText location first) column →
        Spells e.text
          (Lexeme.marks (Expr.opening type) ++ column ++ Expr.descentLexemes path last type) := by
  refine ⟨_, Expr.descent path last type, f.expr_within type hs hn, Expr.text_within .., ?_, ?_, ?_⟩
  · exact Expr.spells_descent path last type
  · exact Expr.literals_descentLexemes path last type
  · exact fun column h => Expr.spells_within h path last type

end NeutralQuery.Sql

namespace NeutralQuery.Sample.Staff

open Sql

/-- The notes are kept in a column whose name has a quote in it. -/
def mapping : Mapping := [("employee", { columns := [("notes", identifier "boss's notes")] })]

def managed : Frame where
  mapping
  root := ⟨"", "employee_0", employee⟩
  joined := [⟨"manager", "employee_1", employee⟩]

end NeutralQuery.Sample.Staff

namespace NeutralQuery.Sql

open Sample.Staff

theorem segments_are_literals_notes :
    Text.split '.' "manager.notes.it's.''.a\\'->>'b" =
        managed.above "manager.notes.it's.''.a\\'->>'b" ++
          "notes" :: (["it's", "''"] ++ ["a\\'->>'b"]) ∧
      "notes" ≠ "" ∧
      ∃ e, managed.expr "manager.notes.it's.''.a\\'->>'b" .int = .ok e ∧
        e.text = "(employee_1.\"boss's notes\"->'it''s'->''''''->>'a\\''->>''b')::bigint" ∧
        Spells e.text (Lexeme.marks "(" ++
          (Lexeme.marks "employee_1." ++ [.quoted .name "boss's notes"]) ++
          Expr.descentLexemes ["it's", "''"] "a\\'->>'b" .int) ∧
        Lexeme.literals (Expr.descentLexemes ["it's", "''"] "a\\'->>'b" .int) =
          ["it's", "''", "a\\'->>'b"] := by
  have hs : Text.split '.' "manager.notes.it's.''.a\\'->>'b" =
      managed.above "manager.notes.it's.''.a\\'->>'b" ++
        "notes" :: (["it's", "''"] ++ ["a\\'->>'b"]) := by decide
  have hn : "notes" ≠ "" := by decide
  have halias : Unquoted "employee_1." := by decide
  obtain ⟨e, back, he, htext, hback, hliterals, hall⟩ := segments_are_literals managed .int hs hn
  have hcolumn := hall _ ((spells_identifier "boss's notes").after_marks halias)
  refine ⟨hs, hn, e, he, ?_, hcolumn, hliterals⟩
  rw [Except.ok.inj (he.symm.trans (managed.expr_within .int hs hn))]
  decide

example : (Lexer.read? .outside "(d->>'it''s')".toList).map Lexeme.literals = some ["it's"] ∧
    Lexer.read? .outside "(d->>'it's')".toList = none := by decide

end NeutralQuery.Sql
