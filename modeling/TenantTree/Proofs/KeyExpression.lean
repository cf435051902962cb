/-
  TenantTree.Proofs.KeyExpression — the store and the engine compute one lookup key.

  An expression of the store has a value on a row, once it is known how the store writes values as
  texts (§1). A text is scanned for tokens (§2), and these are read as an expression (§3). The text
  of a lookup key reads as the components of the key one after the other, whatever characters the
  names of its columns hold (§4). Its value on a row is composed like the key of a record, except
  that null counts as empty (§5). So the two are equal just when the row has the texts of the record
  (`store_agrees`, §6).
-/
import TenantTree.Example.Widgets
import TenantTree.Proofs.Redeploy

namespace TenantTree

/-! ## §1. Expressions. -/

/-- The name of a column, behind that of its table. -/
structure ColumnName where
  table : String
  name : String
  deriving DecidableEq, Repr

/-- The name as it stands in a statement. -/
def ColumnName.quoted (column : ColumnName) : String :=
  Identifier.quoteQualified column.table column.name

/-- An expression over the columns of a row. -/
inductive Formula where
  | column (name : ColumnName)
  | literal (text : String)
  /-- An expression as a text. -/
  | cast (e : Formula)
  /-- The number of the characters of a text. -/
  | charLength (e : Formula)
  /-- An expression, or another one where it is null. -/
  | coalesce (e other : Formula)
  /-- What two expressions write, one after the other. -/
  | concat (e other : Formula)
  deriving DecidableEq, Repr

/-- How the store writes a value that is not null as a text. It writes a value with a stable text as
    that text. -/
structure TextCast where
  text : Value → String
  stable : ∀ v s, v.hasStableText = true → v.toText = some s → text v = s

/-- What an expression amounts to. -/
inductive Datum where
  | null
  | text (s : String)
  | number (n : Nat)
  /-- The value of a column, which is not null. -/
  | held (v : Value)

namespace Datum

/-- What a column holds. -/
def ofValue (v : Value) : Datum := if v.isNull then null else held v

/-- A datum as a text. -/
def cast (c : TextCast) : Datum → Datum
  | null => null
  | text s => text s
  | number n => text (toString n)
  | held v => text (c.text v)

/-- Only a text has a length. -/
def charLength : Datum → Option Datum
  | null => some null
  | text s => some (number s.length)
  | number _ | held _ => none

/-- A datum, or another one where it is null. -/
def coalesce : Datum → Datum → Datum
  | null, other => other
  | d, _ => d

/-- A text goes together with a text or a number, and nothing with null. -/
def concat : Datum → Datum → Option Datum
  | null, _ | _, null => some null
  | text s, text t => some (text (s ++ t))
  | text s, number n => some (text (s ++ toString n))
  | number n, text s => some (text (toString n ++ s))
  | _, _ => none

end Datum

/-- The value of an expression on a row; none where it has no type. -/
def Formula.value (c : TextCast) (row : ColumnName → Value) : Formula → Option Datum
  | column name => some (.ofValue (row name))
  | literal s => some (.text s)
  | cast e => (e.value c row).map (Datum.cast c)
  | charLength e => (e.value c row).bind Datum.charLength
  | coalesce e other => do return (← e.value c row).coalesce (← other.value c row)
  | concat e other => do (← e.value c row).concat (← other.value c row)

/-! ## §2. Tokens. -/

namespace Formula

/-- What the text of an expression is made of. -/
inductive Token where
  /-- A quoted name; a quote inside it is written twice. -/
  | name (name : String)
  /-- A quoted text, in which a quote is written twice as well. -/
  | literal (text : String)
  | word (word : String)
  | point
  | comma
  | opening
  | closing
  | casts
  | joins
  deriving DecidableEq, Repr

/-- Where a scanner stands. -/
inductive Scanner where
  /-- Outside of every token. -/
  | plain
  /-- In a quoted name, behind the given characters of it. -/
  | name (cs : List Char)
  /-- Behind a quote that ends a name, unless another one follows. -/
  | named (cs : List Char)
  /-- In a quoted text. -/
  | literal (cs : List Char)
  /-- Behind a quote that ends a text, unless another one follows. -/
  | written (cs : List Char)
  /-- In a word. -/
  | word (cs : List Char)
  /-- Behind the first of two marks that belong together. -/
  | half (c : Char)
  /-- Behind something that is no token. -/
  | broken
  deriving DecidableEq, Repr

namespace Scanner

/-- A character that no token before it claims. -/
def start (c : Char) : List Token × Scanner :=
  if c = ' ' then ([], plain)
  else if c = '"' then ([], name [])
  else if c = '\'' then ([], literal [])
  else if c = '.' then ([.point], plain)
  else if c = ',' then ([.comma], plain)
  else if c = '(' then ([.opening], plain)
  else if c = ')' then ([.closing], plain)
  else if c = ':' ∨ c = '|' then ([], half c)
  else if Identifier.isContinue c then ([], word [c])
  else ([], broken)

/-- The token that ends where the scanner stands, if there is one. -/
def pending : Scanner → List Token
  | named cs => [.name (String.ofList cs)]
  | written cs => [.literal (String.ofList cs)]
  | word cs => [.word (String.ofList cs)]
  | plain | name _ | literal _ | half _ | broken => []

/-- A character that ends a token, which is pending. -/
def finish (s : Scanner) (c : Char) : List Token × Scanner :=
  (s.pending ++ (start c).1, (start c).2)

/-- One character: the tokens that end there, and the scanner behind it. -/
def step : Scanner → Char → List Token × Scanner
  | plain, c => start c
  | name cs, c => ([], if c = '"' then named cs else name (cs ++ [c]))
  | named cs, c => if c = '"' then ([], name (cs ++ [c])) else (named cs).finish c
  | literal cs, c => ([], if c = '\'' then written cs else literal (cs ++ [c]))
  | written cs, c => if c = '\'' then ([], literal (cs ++ [c])) else (written cs).finish c
  | word cs, c =>
    if Identifier.isContinue c then ([], word (cs ++ [c])) else (word cs).finish c
  | half d, c => if c = d then ([if c = ':' then .casts else .joins], plain) else ([], broken)
  | broken, _ => ([], broken)

/-- The tokens of a text, and the scanner behind it. -/
def run : Scanner → List Char → List Token × Scanner
  | s, [] => ([], s)
  | s, c :: cs => ((s.step c).1 ++ ((s.step c).2.run cs).1, ((s.step c).2.run cs).2)

/-- Whether a text may end where the scanner stands. -/
def isSettled : Scanner → Bool
  | plain | named _ | written _ | word _ => true
  | name _ | literal _ | half _ | broken => false

/-- Of two texts one after the other, the second is scanned from where the first one ends. -/
theorem run_append (xs ys : List Char) :
    ∀ s : Scanner, s.run (xs ++ ys)
      = ((s.run xs).1 ++ ((s.run xs).2.run ys).1, ((s.run xs).2.run ys).2) := by
  induction xs with
  | nil => exact fun _ => rfl
  | cons c cs ih =>
    intro s
    simp only [List.cons_append, run, ih, List.append_assoc]

end Scanner

/-- The tokens of a text, if it is made of tokens. -/
def tokens? (text : String) : Option (List Token) :=
  let (found, s) := Scanner.plain.run text.toList
  if s.isSettled then some (found ++ s.pending) else none

/-! ## §3. Reading. -/

/-- What was read of an operand. -/
inductive Operand where
  | missing
  /-- A name, which is to be that of a table. -/
  | table (name : String)
  /-- The name of a table and the point behind it. -/
  | qualified (table : String)
  /-- A word, which is to be the name of a function. -/
  | function (word : String)
  /-- An expression that is cast. -/
  | casting (e : Formula)
  | complete (e : Formula)
  deriving DecidableEq, Repr

/-- What was read of an expression. -/
structure Reading where
  /-- The calls around it, the innermost first: the function, and what was read before the call. -/
  calls : List (String × List Formula × Option Formula)
  /-- The complete arguments of the innermost call. -/
  arguments : List Formula
  /-- What was concatenated before the operand. -/
  before : Option Formula
  operand : Operand
  deriving DecidableEq, Repr

/-- An expression behind what it is concatenated to. -/
def behind : Option Formula → Formula → Formula
  | none, e => e
  | some first, e => .concat first e

/-- A call of a function. -/
def call? (function : String) (arguments : List Formula) : Option Formula :=
  match arguments with
  | [e] => if function = "char_length" then some (.charLength e) else none
  | [e, other] => if function = "COALESCE" then some (.coalesce e other) else none
  | _ => none

namespace Reading

/-- Nothing was read. -/
def start : Reading := ⟨[], [], none, .missing⟩

/-- One token more, if it may stand there. A cast binds closer than a concatenation. -/
def step (r : Reading) (token : Token) : Option Reading :=
  match token, r.operand with
  | .name table, .missing => some { r with operand := .table table }
  | .point, .table table => some { r with operand := .qualified table }
  | .name name, .qualified table => some { r with operand := .complete (.column ⟨table, name⟩) }
  | .literal text, .missing => some { r with operand := .complete (.literal text) }
  | .casts, .complete e => some { r with operand := .casting e }
  | .word word, .casting e =>
    if word = "text" then some { r with operand := .complete (.cast e) } else none
  | .joins, .complete e => some { r with before := some (.behind r.before e), operand := .missing }
  | .word word, .missing => some { r with operand := .function word }
  | .opening, .function word =>
    some ⟨(word, r.arguments, r.before) :: r.calls, [], none, .missing⟩
  | .comma, .complete e =>
    some { r with
      arguments := r.arguments ++ [.behind r.before e], before := none, operand := .missing }
  | .closing, .complete e =>
    match r.calls with
    | [] => none
    | (function, arguments, before) :: calls =>
      (call? function (r.arguments ++ [.behind r.before e])).map fun call =>
        ⟨calls, arguments, before, .complete call⟩
  | _, _ => none

/-- What was read, if it is a whole expression. -/
def result? (r : Reading) : Option Formula :=
  match r.calls, r.arguments, r.operand with
  | [], [], .complete e => some (.behind r.before e)
  | _, _, _ => none

end Reading

/-- The expression that a text writes, if it writes one. -/
def ofText? (text : String) : Option Formula := do
  let tokens ← tokens? text
  let r ← tokens.foldlM Reading.step Reading.start
  r.result?

/-! ## §4. The text of a key. -/

/-- Operands that are concatenated to what stands before them. -/
def joined (before : Option Formula) (operands : List Formula) : Option Formula :=
  operands.foldl (fun before e => some (.behind before e)) before

/-- The text of a column, where null reads as empty. -/
def ofColumn (column : ColumnName) : Formula :=
  .coalesce (.cast (.column column)) (.literal "")

/-- What the expression of one component concatenates: the length of the text of a column, a colon,
    and the text. -/
def operands (column : ColumnName) : List Formula :=
  [.charLength (.ofColumn column), .literal ":", .ofColumn column]

/-- A text writes operands: scanned from its start to its end, and read behind anything that stands
    before, they are concatenated to it. -/
def Writes (text : String) (operands : List Formula) : Prop :=
  ∃ tokens, Scanner.plain.run text.toList = (tokens, .plain) ∧ ∀ before, ∃ first last,
    tokens.foldlM Reading.step ⟨[], [], before, .missing⟩ = some ⟨[], [], first, .complete last⟩
      ∧ joined before operands = some (.behind first last)

namespace Scanner

/-- Texts one after the other are scanned one after the other. -/
theorem run_then {s s₁ s₂ : Scanner} {xs ys : List Char} {found others : List Token}
    (h : s.run xs = (found, s₁)) (h' : s₁.run ys = (others, s₂)) :
    s.run (xs ++ ys) = (found ++ others, s₂) := by
  rw [run_append, h]
  dsimp only
  rw [h']

/-- In a name, doubled quotes are scanned as single ones. -/
theorem run_doubleQuotes :
    ∀ cs before : List Char,
      (name before).run (Identifier.doubleQuotes cs) = ([], name (before ++ cs))
  | [], before => by
    rw [List.append_nil]
    rfl
  | c :: cs, before => by
    have hfirst : (name before).run (if c = '"' then ['"', '"'] else [c])
        = ([], name (before ++ [c])) := by
      by_cases hquote : c = '"'
      · rw [if_pos hquote, hquote]
        rfl
      · simp [hquote, run, step]
    have hrest := run_doubleQuotes cs (before ++ [c])
    rw [List.append_assoc] at hrest
    exact run_then hfirst hrest

/-- A quoted name is scanned as the name, whatever characters it holds. -/
theorem run_quote (name : String) :
    plain.run (Identifier.quote name).toList = ([], named name.toList) := by
  have hopened : plain.run ['"'] = ([], Scanner.name []) := rfl
  have hclosed : (Scanner.name name.toList).run ['"'] = ([], named name.toList) := rfl
  unfold Identifier.quote
  rw [String.toList_ofList]
  exact run_then (run_then hopened (run_doubleQuotes name.toList [])) hclosed

/-- A qualified column is scanned as two names with a point between them. -/
theorem run_quoted (column : ColumnName) :
    plain.run (column.quoted).toList
      = ([.name column.table, .point], named column.name.toList) := by
  have hpoint : (named column.table.toList).run ".".toList
      = ([.name (String.ofList column.table.toList), .point], plain) := rfl
  rw [String.ofList_toList] at hpoint
  unfold ColumnName.quoted Identifier.quoteQualified
  rw [String.toList_append, String.toList_append]
  exact run_then (run_then (run_quote column.table) hpoint) (run_quote column.name)

end Scanner

/-- The expression of a component writes its operands. -/
theorem Writes.component (column : ColumnName) :
    Writes (LookupKey.componentSql (column.quoted))
      (operands column) := by
  have hopened : Scanner.plain.run "char_length(COALESCE(".toList
      = ([.word "char_length", .opening, .word "COALESCE", .opening], .plain) := rfl
  have hmiddle : (Scanner.named column.name.toList).run
      "::text, '')) || ':' || COALESCE(".toList
        = ([.name (String.ofList column.name.toList), .casts, .word "text", .comma, .literal "",
            .closing, .closing, .joins, .literal ":", .joins, .word "COALESCE", .opening],
          .plain) := rfl
  have hclosed : (Scanner.named column.name.toList).run "::text, '')".toList
      = ([.name (String.ofList column.name.toList), .casts, .word "text", .comma, .literal "",
          .closing], .plain) := rfl
  have hcolumn := Scanner.run_quoted column
  rw [String.ofList_toList] at hmiddle hclosed
  have hscanned := Scanner.run_then (Scanner.run_then (Scanner.run_then
    (Scanner.run_then hopened hcolumn) hmiddle) hcolumn) hclosed
  rw [← String.toList_append, ← String.toList_append, ← String.toList_append,
    ← String.toList_append] at hscanned
  exact ⟨_, hscanned, fun before => ⟨_, _, rfl, rfl⟩⟩

/-- Two texts with the mark of concatenation between them write their operands one after the
    other. -/
theorem Writes.append {text other : String} {operands others : List Formula}
    (h : Writes text operands) (h' : Writes other others) :
    Writes (text ++ " || " ++ other) (operands ++ others) := by
  obtain ⟨tokens, hscanned, hread⟩ := h
  obtain ⟨tokens', hscanned', hread'⟩ := h'
  have hmark : Scanner.plain.run " || ".toList = ([.joins], .plain) := rfl
  refine ⟨tokens ++ [.joins] ++ tokens', ?_, fun before => ?_⟩
  · rw [String.toList_append, String.toList_append]
    exact Scanner.run_then (Scanner.run_then hscanned hmark) hscanned'
  · obtain ⟨first, last, hfirst, hjoined⟩ := hread before
    obtain ⟨first', last', hrest, hjoined'⟩ := hread' (some (.behind first last))
    refine ⟨first', last', ?_, ?_⟩
    · rw [List.foldlM_append, List.foldlM_append, hfirst]
      exact hrest
    · rw [← hjoined', ← hjoined]
      exact List.foldl_append

/-- The text of a key writes the operands of its components. -/
theorem Writes.sql :
    ∀ {columns : List ColumnName}, columns ≠ [] →
      Writes (LookupKey.sql
          (columns.map ColumnName.quoted))
        (columns.flatMap operands)
  | [], h => absurd rfl h
  | [first], _ => by
    rw [LookupKey.sql, List.map_singleton, List.map_singleton, String.intercalate_singleton,
      List.flatMap_singleton]
    exact component first
  | first :: next :: rest, _ => by
    have hrest := Writes.sql (List.cons_ne_nil next rest)
    rw [LookupKey.sql, List.map_map] at hrest
    rw [LookupKey.sql, List.map_map, List.map_cons, List.map_cons, String.intercalate_cons_cons,
      ← List.map_cons, List.flatMap_cons]
    exact (component first).append hrest

/-- A text that writes operands is read as these, one after the other. -/
theorem Writes.ofText?_eq {text : String} {operands : List Formula} (h : Writes text operands) :
    ofText? text = joined none operands := by
  obtain ⟨tokens, hscanned, hread⟩ := h
  obtain ⟨first, last, hfirst, hjoined⟩ := hread none
  have htokens : tokens? text = some tokens := by
    unfold tokens?
    rw [hscanned]
    exact congrArg some (List.append_nil tokens)
  unfold ofText?
  rw [htokens, hjoined]
  show (tokens.foldlM Reading.step Reading.start).bind Reading.result? = _
  rw [show Reading.start = ⟨[], [], none, .missing⟩ from rfl, hfirst]
  rfl

end Formula

/-! ## §5. The value of a key. -/

/-- The text of a value in the store; none for null. -/
def TextCast.read (c : TextCast) (v : Value) : Option String :=
  if v.isNull then none else some (c.text v)

/-- What the store computes as the lookup key of a row. -/
def LookupKey.storeValue (c : TextCast) (row : ColumnName → Value)
    (columns : List ColumnName) : Option Datum :=
  (Formula.ofText? (LookupKey.sql (columns.map ColumnName.quoted))).bind (Formula.value c row)

section Values

variable {c : TextCast} {row : ColumnName → Value}

/-- The text of a component of a row, where null reads as empty. -/
theorem Formula.value_ofColumn (column : ColumnName) :
    (Formula.ofColumn column).value c row = some (.text ((c.read (row column)).getD "")) := by
  have hvalue : (Formula.ofColumn column).value c row
      = some (((Datum.ofValue (row column)).cast c).coalesce (.text "")) := rfl
  rw [hvalue, Datum.ofValue, TextCast.read]
  cases (row column).isNull <;> rfl

/-- What goes together is written in order. -/
theorem Formula.value_concat {e other : Formula} {d d' : Datum}
    (h : e.value c row = some d) (h' : other.value c row = some d') :
    (Formula.concat e other).value c row = d.concat d' := by
  rw [value, h, h']
  rfl

/-- The component that a row has for a column. -/
def TextCast.component (c : TextCast) (row : ColumnName → Value) (column : ColumnName) : String :=
  LookupKey.component ((c.read (row column)).getD "")

/-- What stands before an operand writes a text; nothing writes the empty one. -/
def Formula.WritesBefore (c : TextCast) (row : ColumnName → Value) :
    Option Formula → String → Prop
  | none, key => key = ""
  | some first, key => first.value c row = some (.text key)

/-- The operands of a component add it to the text that stands before them. -/
theorem Formula.value_operands {before : Option Formula} {key : String}
    (h : WritesBefore c row before key) (column : ColumnName) : ∃ e,
    joined before (operands column) = some e
      ∧ e.value c row = some (.text (key ++ c.component row column)) := by
  have hread : (Formula.ofColumn column).value c row
      = some (.text ((c.read (row column)).getD "")) := value_ofColumn column
  have hlength : (Formula.charLength (.ofColumn column)).value c row
      = some (.number ((c.read (row column)).getD "").length) := by
    rw [value, hread]
    rfl
  have hcolon : (Formula.literal ":").value c row = some (.text ":") := rfl
  -- a number is no text yet, but together with the colon it is
  have hprefix : (Formula.concat (.behind before (.charLength (.ofColumn column)))
      (.literal ":")).value c row
        = some (.text (key ++ toString ((c.read (row column)).getD "").length ++ ":")) := by
    cases before with
    | none =>
      have hempty : key = "" := h
      rw [hempty, String.empty_append]
      exact value_concat hlength hcolon
    | some first => exact value_concat (value_concat h hlength) hcolon
  refine ⟨_, rfl, (value_concat hprefix hread).trans ?_⟩
  rw [Datum.concat, TextCast.component, LookupKey.component, String.append_assoc,
    String.append_assoc, String.append_assoc]

/-- The operands of components add them one by one. -/
theorem Formula.value_joined (columns : List ColumnName) :
    ∀ {first : Formula} {key : String}, WritesBefore c row (some first) key →
      (joined (some first) (columns.flatMap operands)).bind (Formula.value c row)
        = some (.text (key ++ String.join (columns.map (c.component row)))) := by
  induction columns with
  | nil =>
    intro first key h
    rw [List.map_nil, String.join_nil, String.append_empty]
    exact h
  | cons next rest ih =>
    intro first key h
    obtain ⟨e, hjoined, he⟩ := value_operands h next
    have hrest := ih he
    rw [← hjoined] at hrest
    rw [List.flatMap_cons, List.map_cons, String.join_cons, ← String.append_assoc, ← hrest]
    exact congrArg (Option.bind · _) List.foldl_append

/-- The store computes a key of the components that the row has. -/
theorem LookupKey.storeValue_eq {columns : List ColumnName} (hcolumns : columns ≠ []) :
    storeValue c row columns
      = some (.text (String.join (columns.map (c.component row)))) := by
  rw [storeValue, (Formula.Writes.sql hcolumns).ofText?_eq]
  cases columns with
  | nil => exact absurd rfl hcolumns
  | cons column rest =>
    have hnothing : Formula.WritesBefore c row none "" := rfl
    obtain ⟨e, hjoined, he⟩ := Formula.value_operands hnothing column
    have hrest := Formula.value_joined rest he
    rw [String.empty_append, ← hjoined] at hrest
    rw [List.flatMap_cons, List.map_cons, String.join_cons, ← hrest]
    exact congrArg (Option.bind · _) List.foldl_append

/-- Without columns there is no expression. -/
theorem LookupKey.storeValue_nil : storeValue c row [] = none := rfl

/-- The store computes the key of given texts, none of them empty, just when the row has these
    texts. -/
theorem LookupKey.storeValue_eq_join {columns : List ColumnName} {found : List String}
    (hcolumns : columns ≠ []) (hfound : ∀ text ∈ found, text ≠ "") :
    storeValue c row columns = some (.text (String.join (found.map component)))
      ↔ List.Forall₂ (fun column text => c.read (row column) = some text) columns found := by
  have hcomponents : columns.map (c.component row)
      = (columns.map fun column => c.read (row column)).map
          fun text => component (text.getD "") := by
    rw [List.map_map]
    rfl
  rw [storeValue_eq hcolumns, Option.some.injEq, Datum.text.injEq, hcomponents,
    join_getD_eq_join hfound, ← List.forall₂_eq_eq_eq, List.forall₂_map_left_iff,
    List.forall₂_map_right_iff]

end Values

/-! ## §6. One key. -/

/-- The name of the column of a component. A join is named by its alias. -/
def IdentityQuery.columnName (q : IdentityQuery) : LookupSource → ColumnName
  | .column name => ⟨q.table, name⟩
  | .related join column => ⟨(q.joins[join]?.map LookupJoin.joinAlias).getD "", column⟩

/-- The text of a component's column is its quoted name. -/
theorem IdentityQuery.map_componentColumn (q : IdentityQuery) :
    q.components.map q.componentColumn
      = (q.components.map q.columnName).map ColumnName.quoted := by
  rw [List.map_map]
  refine List.map_congr_left fun source _ => ?_
  cases source <;> rfl

/-- A query asks for the key of the columns of its components. -/
theorem IdentityQuery.keyExpression_eq {q : IdentityQuery} {text : String}
    (h : q.keyExpression = some text) :
    text = LookupKey.sql ((q.components.map q.columnName).map ColumnName.quoted) := by
  unfold keyExpression at h
  split at h
  · cases h
  · cases h
    rw [map_componentColumn]

theorem TextCast.read_eq_some {c : TextCast} {v : Value} {text : String} :
    c.read v = some text ↔ v ≠ .null ∧ c.text v = text := by
  unfold read
  cases v <;> simp [Value.isNull]

namespace LookupKey

variable {c : TextCast} {row : ColumnName → Value} {columns : List ColumnName} {ty : RecordType}
  {m : TableMetadata} {r : Record} {found : List String}

/-- A row has the texts of the lookup components of a record: each column holds a value that is not
    null and that the store writes as the text of the record's component, which is not empty. -/
def SameTexts (c : TextCast) (row : ColumnName → Value) (columns : List ColumnName)
    (ty : RecordType) (r : Record) (fields : List LookupField) : Prop :=
  List.Forall₂ (fun column f => row column ≠ .null ∧ c.text (row column) ≠ ""
    ∧ ∃ v, r.get ty f.field = .ok v ∧ v.toText = some (c.text (row column))) columns fields

/-- A row has the texts of a record's components just when these are what the store reads. -/
theorem sameTexts_iff (h : r.LookedUpBy ty m found) :
    SameTexts c row columns ty r m.lookupFields
      ↔ List.Forall₂ (fun column text => c.read (row column) = some text) columns found := by
  constructor
  · intro hsame
    refine Work.forall₂_trans ?_ hsame h.held
    rintro column f text ⟨hsome, _, v, hv, htext⟩ ⟨_, v', hv', htext'⟩
    cases hv.symm.trans hv'
    exact TextCast.read_eq_some.mpr ⟨hsome, Option.some.inj (htext.symm.trans htext')⟩
  · intro hread
    refine Work.forall₂_trans ?_ hread h.held.flip
    rintro column text f hread ⟨hfull, v, hv, htext⟩
    obtain ⟨hsome, rfl⟩ := TextCast.read_eq_some.mp hread
    exact ⟨hsome, hfull, v, hv, htext⟩

/-- For the key of a record the store looks at rows with the texts of its components. -/
theorem storeValue_eq_iff (h : r.LookedUpBy ty m found) :
    storeValue c row columns = some (.text (String.join (found.map component)))
      ↔ SameTexts c row columns ty r m.lookupFields := by
  by_cases hcolumns : columns = []
  · -- there is no expression, but there are components
    rw [hcolumns, storeValue_nil]
    constructor
    · intro hnone
      cases hnone
    · intro hsame
      exact absurd (List.forall₂_nil_left_iff.mp hsame) h.composed
  · rw [storeValue_eq_join hcolumns h.full, sameTexts_iff h]

/-- A row with a null or an empty text has the key of no values. -/
theorem storeValue_ne {column : ColumnName} (hcolumn : column ∈ columns)
    (hmissing : row column = .null ∨ c.text (row column) = "") {values : List Value} {key : String}
    (hkey : ofValues values = some key) : storeValue c row columns ≠ some (.text key) := by
  obtain ⟨_, found, _, hfull, rfl⟩ := ofValues_eq_some.mp hkey
  rw [Ne, storeValue_eq_join (List.ne_nil_of_mem hcolumn) hfull]
  intro hread
  obtain ⟨text, htext, hcolumn⟩ := Outcome.exists_of_mem hread hcolumn
  obtain ⟨hsome, rfl⟩ := TextCast.read_eq_some.mp hcolumn
  rcases hmissing with hnull | hempty
  · exact hsome hnull
  · exact hfull _ htext hempty

/-- The key that the store computes for a row is the lookup key of a record just when the record has
    one and the row has the texts of its components. Wherever there are columns the store computes a
    key; it is that of no values at all when a column is null or empty. What an identity query asks
    for is the key of the columns of its components. -/
theorem store_agrees (c : TextCast) (row : ColumnName → Value) (columns : List ColumnName)
    {lookup : Option String} (h : r.lookupKey ty m = .ok lookup) :
    ((∃ key, lookup = some key ∧ storeValue c row columns = some (.text key))
        ↔ lookup.isSome = true ∧ SameTexts c row columns ty r m.lookupFields)
      ∧ (columns ≠ [] → ∃ key, storeValue c row columns = some (.text key))
      ∧ (∀ column ∈ columns, row column = .null ∨ c.text (row column) = "" →
          ∀ values key, ofValues values = some key →
            storeValue c row columns ≠ some (.text key))
      ∧ ∀ (q : IdentityQuery) (text : String), q.keyExpression = some text →
          (Formula.ofText? text).bind (Formula.value c row)
            = storeValue c row (q.components.map q.columnName) := by
  refine ⟨⟨?_, ?_⟩, fun hcolumns => ⟨_, storeValue_eq hcolumns⟩,
    fun column hcolumn hmissing values key => storeValue_ne hcolumn hmissing, fun q text hq => ?_⟩
  · rintro ⟨key, rfl, hvalue⟩
    obtain ⟨found, hlooked, rfl⟩ := Record.lookedUpBy_of_lookupKey h
    exact ⟨rfl, (storeValue_eq_iff hlooked).mp hvalue⟩
  · rintro ⟨hsome, hsame⟩
    obtain ⟨key, rfl⟩ := Option.isSome_iff_exists.mp hsome
    obtain ⟨found, hlooked, rfl⟩ := Record.lookedUpBy_of_lookupKey h
    exact ⟨_, rfl, (storeValue_eq_iff hlooked).mpr hsame⟩
  · rw [IdentityQuery.keyExpression_eq hq, storeValue]

/-- The text of a value as it is here. -/
def plainCast : TextCast where
  text v := v.toText.getD ""
  stable v s _ h := by rw [h, Option.getD_some]

/-- The store looks for a slot at the row with its tenant and its code, whose length counts
    characters. -/
theorem store_agrees_on_slot :
    let slot : Record := ⟨[("tenant_id", .bigInt 7), ("code", .text "é:1")], none, []⟩
    let row (column : ColumnName) : Value :=
      if column.name = "tenant_id" then .bigInt 7 else .text "é:1"
    Metadata.ofType Example.slot = .ok Example.slotMetadata
      ∧ slot.lookupKey Example.slot Example.slotMetadata = .ok (some "1:73:é:1")
      ∧ storeValue plainCast row [⟨"slots", "tenant_id"⟩, ⟨"slots", "code"⟩]
        = some (.text "1:73:é:1") := by
  intro slot row
  have hlookup : slot.lookupKey Example.slot Example.slotMetadata = .ok (some "1:73:é:1") := rfl
  have hsame : SameTexts plainCast row [⟨"slots", "tenant_id"⟩, ⟨"slots", "code"⟩] Example.slot slot
      Example.slotMetadata.lookupFields :=
    .cons ⟨nofun, by decide, .bigInt 7, rfl, rfl⟩
      (.cons ⟨nofun, by decide, .text "é:1", rfl, rfl⟩ .nil)
  obtain ⟨key, hkey, hvalue⟩ := (store_agrees plainCast row _ hlookup).1.mpr ⟨rfl, hsame⟩
  cases hkey
  exact ⟨Example.slot_metadata, hlookup, hvalue⟩

end LookupKey

end TenantTree
