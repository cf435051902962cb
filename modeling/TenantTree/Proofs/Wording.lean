/-
  TenantTree.Proofs.Wording — what the texts of statements are made of.

  A piece of text spells names that are allowed and numbers its placeholders through from a position
  (§1). The texts of statements are put together from such pieces (§2, §3), so the placeholders of a
  statement are those of its parameters in order, each once, and it quotes only names of the types
  of its tree (§4). The values have no say in it: what a builder makes of one shape has one text
  (§5). All statements of a call are built so (`perform_wording`, §6).
-/
import TenantTree.Proofs.Attribution
import TenantTree.Proofs.Lexeme
import TenantTree.Proofs.Names

namespace TenantTree

/-! ## §1. Spelling. -/

/-- The placeholder that a lexeme is. -/
def Lexeme.placeholder? : Lexeme → Option String
  | placeholder text => some text
  | name _ | unclosed => none

/-- The placeholders of a number of positions from the given one on. -/
def numbered (first count : Nat) : List String := (List.range' first count).map placeholder

/-- The lexemes quote only allowed names, and their placeholders are numbered through. -/
structure Spelled (P : String → Prop) (first count : Nat) (found : List Lexeme) : Prop where
  /-- Names are allowed. -/
  names : ∀ name, .name name ∈ found → P name
  /-- Every quote is closed. -/
  closed : .unclosed ∉ found
  /-- The placeholders are numbered through. -/
  placeholders : found.filterMap Lexeme.placeholder? = numbered first count

/-- A piece of text spells names that are allowed, and numbers its placeholders through. -/
def Spells (P : String → Prop) (first count : Nat) (text : String) : Prop :=
  ∃ found, Reads text found ∧ Spelled P first count found

/-- The piece does so, and ends with a word. -/
def Ends (P : String → Prop) (first count : Nat) (text : String) : Prop :=
  ∃ found, Closes text found ∧ Spelled P first count found

/-- The piece does so behind any other. -/
def Follows (P : String → Prop) (first count : Nat) (piece : String) : Prop :=
  ∀ start before text, start + before = first → Spells P start before text →
    Spells P start (before + count) (text ++ piece)

/-- Pieces that number their placeholders through from one to the next. -/
inductive Chained (P : String → Prop) : Nat → Nat → List String → Prop where
  /-- No piece. -/
  | nil (first : Nat) : Chained P first 0 []
  /-- One piece in front of others. -/
  | cons {first count others : Nat} {text : String} {rest : List String}
      (h : Spells P first count text) (hrest : Chained P (first + count) others rest) :
      Chained P first (count + others) (text :: rest)

variable {P : String → Prop} {first count others : Nat} {text other s w : String}

theorem Spelled.append {found found' : List Lexeme} (h : Spelled P first count found)
    (h' : Spelled P (first + count) others found') :
    Spelled P first (count + others) (found ++ found') where
  names := by
    intro name hname
    exact (List.mem_append.mp hname).elim (h.names name) (h'.names name)
  closed := by
    rw [List.mem_append, not_or]
    exact ⟨h.closed, h'.closed⟩
  placeholders := by
    rw [List.filterMap_append, h.placeholders, h'.placeholders]
    unfold numbered
    rw [← List.map_append]
    congr 1
    exact List.range'_append_1

theorem Spelled.nil (first : Nat) : Spelled P first 0 [] := ⟨nofun, nofun, rfl⟩

theorem Spells.of_eq (h : Spells P first count text) {count' : Nat} (hcount : count = count') :
    Spells P first count' text := hcount ▸ h

theorem Ends.spells (h : Ends P first count text) : Spells P first count text :=
  h.imp fun _ h => ⟨h.1.reads, h.2⟩

theorem Ends.empty (first : Nat) : Ends P first 0 "" := ⟨[], .empty, .nil first⟩

theorem Ends.word (hword : isWord text) (first : Nat) : Ends P first 0 text :=
  ⟨[], .word hword, .nil first⟩

theorem Spells.quote {name : String} (h : P name) (first : Nat) :
    Spells P first 0 (Identifier.quote name) := by
  refine ⟨_, .quote name, ⟨?_, by simp, rfl⟩⟩
  intro name' hname
  cases List.mem_singleton.mp hname
  exact h

theorem Spells.placeholder (position : Nat) :
    Spells P position 1 (TenantTree.placeholder position) :=
  ⟨_, .placeholder position, ⟨by simp, by simp, rfl⟩⟩

/-- A piece after a word is spelled as if it stood alone. -/
theorem Ends.append (h : Ends P first count text) (h' : Spells P (first + count) others other) :
    Spells P first (count + others) (text ++ other) := by
  obtain ⟨found, hcloses, hspelled⟩ := h
  obtain ⟨found', hreads, hspelled'⟩ := h'
  exact ⟨_, hcloses.append hreads, hspelled.append hspelled'⟩

/-- A word ends the piece in front of it. -/
theorem Spells.word (h : Spells P first count text) (hword : isWord w) :
    Ends P first count (text ++ w) := by
  obtain ⟨found, hreads, hspelled⟩ := h
  exact ⟨found, hreads.word hword, hspelled⟩

/-- A name after a word takes no position. -/
theorem Ends.quote (h : Ends P first count text) {name : String} (hname : P name) :
    Spells P first count (text ++ Identifier.quote name) :=
  h.append (.quote hname _)

/-- A placeholder after a word takes the next position. -/
theorem Ends.placeholder (h : Ends P first count text) {position : Nat}
    (hposition : position = first + count) :
    Spells P first (count + 1) (text ++ TenantTree.placeholder position) := by
  rw [hposition]
  exact h.append (.placeholder _)

theorem Spells.quoteQualified {table column : String} (htable : P table) (hcolumn : P column)
    (first : Nat) : Spells P first 0 (Identifier.quoteQualified table column) :=
  ((Spells.quote htable first).word rfl).quote hcolumn

/-- What starts with a word may stand behind anything. -/
theorem Follows.word (hword : isWord w) (h : Spells P first count other) :
    Follows P first count (w ++ other) := by
  rintro start before text rfl htext
  rw [← String.append_assoc]
  exact (htext.word hword).append h

theorem Follows.empty (first : Nat) : Follows P first 0 "" := by
  rintro start before text rfl htext
  rw [String.append_empty]
  exact htext

theorem Spells.follow (h : Spells P first count text)
    (h' : Follows P (first + count) others other) :
    Spells P first (count + others) (text ++ other) := h' first count text rfl h

/-- Pieces with a word between every two of them are spelled one after the other. -/
theorem Spells.intercalate (hsep : isWord s) {texts : List String}
    (h : Chained P first count texts) : Spells P first count (s.intercalate texts) := by
  induction h with
  | nil first => exact (Ends.empty first).spells
  | cons h hrest ih =>
    cases hrest with
    | nil =>
      rw [String.intercalate_singleton]
      exact h
    | cons h' hrest =>
      rw [String.intercalate_cons_cons]
      exact (h.word hsep).append ih

/-- Pieces without placeholders. -/
theorem Chained.of_forall {texts : List String} (h : ∀ text ∈ texts, Spells P first 0 text) :
    Chained P first 0 texts := by
  induction texts with
  | nil => exact .nil first
  | cons text rest ih =>
    obtain ⟨htext, hrest⟩ := List.forall_mem_cons.mp h
    exact .cons htext (ih hrest)

/-- Pieces that are numbered by their positions are numbered through. -/
theorem Chained.mapIdx {α : Type} {f : Nat → α → String} {xs : List α}
    (h : ∀ x ∈ xs, ∀ i, Spells P (i + 1) 1 (f i x)) :
    ∀ start, Chained P (start + 1) xs.length (xs.mapIdx fun i x => f (i + start) x) := by
  induction xs with
  | nil => exact fun start => .nil _
  | cons x rest ih =>
    intro start
    obtain ⟨hx, hrest⟩ := List.forall_mem_cons.mp h
    -- the others stand one position further on
    have hshift (i : Nat) : i + 1 + start = i + (start + 1) := by omega
    rw [List.mapIdx_cons, List.length_cons, Nat.add_comm rest.length 1, Nat.zero_add]
    simp only [hshift]
    exact .cons (hx start) (ih hrest (start + 1))

/-- Pieces that may follow any other may follow one another. -/
theorem Follows.join {pieces : List String} (h : ∀ piece ∈ pieces, Follows P first 0 piece) :
    Follows P first 0 (String.join pieces) := by
  induction pieces with
  | nil =>
    rw [String.join_nil]
    exact .empty first
  | cons piece rest ih =>
    obtain ⟨hpiece, hrest⟩ := List.forall_mem_cons.mp h
    rintro start before text rfl htext
    rw [String.join_cons, ← String.append_assoc]
    exact ih hrest start before _ rfl (hpiece start before text rfl htext)

/-! ## §2. Conditions and cells. -/

/-- The columns of conditions are allowed. -/
def Condition.Names (P : String → Prop) : Condition → Prop
  | equals column _ | anyOf column _ | among column _ => P column

/-- The placeholders of consecutive positions. -/
theorem chained_placeholders (first : Nat) :
    ∀ (start count : Nat), Chained P (first + start) count
      ((List.range' start count).map fun i => TenantTree.placeholder (first + i))
  | start, 0 => .nil _
  | start, count + 1 => by
    rw [List.range'_succ, List.map_cons, Nat.add_comm count 1]
    exact .cons (.placeholder _) (chained_placeholders first (start + 1) count)

/-- A condition spells its column, and numbers its parameters. -/
theorem Condition.spells_sql {c : Condition} (h : c.Names P) (first : Nat) :
    Spells P first c.params.length (c.sql first) := by
  cases c with
  | equals column v => exact ((Spells.quote h first).word rfl).placeholder rfl
  | anyOf column vs =>
    exact ((((Spells.quote h first).word rfl).placeholder rfl).word rfl).spells
  | among column vs =>
    have hvalues : Chained P first vs.length
        ((List.range vs.length).map fun i => TenantTree.placeholder (first + i)) := by
      rw [List.range_eq_range']
      exact chained_placeholders first 0 vs.length
    have hopened : Ends P first 0 (Identifier.quote column ++ " IN (") :=
      (Spells.quote h first).word rfl
    have hlisted := (hopened.append (.intercalate (s := ", ") rfl hvalues)).word (w := ")") rfl
    rw [Nat.zero_add] at hlisted
    exact hlisted.spells

/-- Conditions are numbered through. -/
theorem Condition.chained_texts {conditions : List Condition} (h : ∀ c ∈ conditions, c.Names P) :
    ∀ first, Chained P first (conditions.flatMap params).length (texts first conditions) := by
  induction conditions with
  | nil => exact fun first => .nil first
  | cons c rest ih =>
    intro first
    obtain ⟨hc, hrest⟩ := List.forall_mem_cons.mp h
    rw [texts, List.flatMap_cons, List.length_append]
    exact .cons (spells_sql hc first) (ih hrest _)

theorem Condition.spells_conjunction {conditions : List Condition}
    (h : ∀ c ∈ conditions, c.Names P) (first : Nat) :
    Spells P first (conditions.flatMap params).length (conjunction first conditions) :=
  .intercalate rfl (chained_texts h first)

namespace InsertCommand

/-- The cells of a row are numbered through; one without a value takes no position. -/
theorem chained_cellTexts (row : List (Option Value)) :
    ∀ first, Chained P first (row.filterMap id).length (cellTexts first row) := by
  induction row with
  | nil => exact fun first => .nil first
  | cons cell rest ih =>
    intro first
    cases cell with
    | none =>
      have hdefault : Ends P first 0 "DEFAULT" := .word rfl first
      have hrest := Chained.cons hdefault.spells (ih first)
      rw [Nat.zero_add] at hrest
      exact hrest
    | some v =>
      show Chained P first ((rest.filterMap id).length + 1) _
      rw [cellTexts, Nat.add_comm]
      exact .cons (.placeholder first) (ih (first + 1))

/-- Rows are numbered through. -/
theorem chained_rowTexts (rows : List (List (Option Value))) :
    ∀ first, Chained P first (rows.flatMap fun row => row.filterMap id).length
      (rowTexts first rows) := by
  induction rows with
  | nil => exact fun first => .nil first
  | cons row rest ih =>
    intro first
    rw [rowTexts, List.flatMap_cons, List.length_append]
    refine .cons ?_ (ih _)
    have hopened : Ends P first 0 "(" := .word rfl first
    have hrow := (hopened.append (Spells.intercalate (s := ", ") rfl
      (chained_cellTexts row first))).word (w := ")") rfl
    rw [Nat.zero_add] at hrow
    exact hrow.spells

end InsertCommand

/-! ## §3. Statements. -/

/-- A conjunction of conditions behind the words that open it. -/
theorem spells_where {conditions : List Condition} (h : ∀ c ∈ conditions, c.Names P)
    (hbefore : Ends P first count text) {next : Nat} (hnext : next = first + count) :
    Spells P first (count + (conditions.flatMap Condition.params).length)
      (text ++ Condition.conjunction next conditions) := by
  rw [hnext]
  exact hbefore.append (Condition.spells_conjunction h _)

theorem spells_delete {table : String} {scope : List Condition} (htable : P table)
    (hscope : ∀ c ∈ scope, c.Names P) :
    Spells P 1 (Command.delete table scope).params.length (Command.delete table scope).sql := by
  have hopened : Ends P 1 0 "DELETE FROM " := .word rfl 1
  have hwhole := spells_where hscope ((hopened.quote htable).word (w := " WHERE ") rfl) rfl
  rw [Nat.zero_add] at hwhole
  exact hwhole

theorem spells_select {table : String} {columns : List String} {scope : List Condition}
    (htable : P table) (hcolumns : ∀ c ∈ columns, P c) (hscope : ∀ c ∈ scope, c.Names P) :
    Spells P 1 (Command.select table columns scope).params.length
      (Command.select table columns scope).sql := by
  have hnames : Chained P 1 0 (columns.map Identifier.quote) := by
    refine .of_forall fun text htext => ?_
    obtain ⟨column, hcolumn, rfl⟩ := List.mem_map.mp htext
    exact .quote (hcolumns column hcolumn) 1
  have hopened : Ends P 1 0 "SELECT " := .word rfl 1
  have hfrom := (hopened.append (.intercalate (s := ", ") rfl hnames)).word (w := " FROM ") rfl
  have hwhole := spells_where hscope ((hfrom.quote htable).word (w := " WHERE ") rfl) rfl
  rw [Nat.zero_add] at hwhole
  exact hwhole

theorem spells_update {table : String} {assignments : List (String × Value)}
    {scope : List Condition} (htable : P table) (hassignments : ∀ a ∈ assignments, P a.1)
    (hscope : ∀ c ∈ scope, c.Names P) :
    Spells P 1 (Command.update table assignments scope).params.length
      (Command.update table assignments scope).sql := by
  have hset : ∀ a ∈ assignments, ∀ i,
      Spells P (i + 1) 1 (Identifier.quote a.1 ++ " = " ++ placeholder (i + 1)) := fun a ha i =>
    ((Spells.quote (hassignments a ha) _).word rfl).placeholder rfl
  have hopened : Ends P 1 0 "UPDATE " := .word rfl 1
  have hset := ((hopened.quote htable).word (w := " SET ") rfl).append
    (.intercalate (s := ", ") rfl (Chained.mapIdx hset 0))
  rw [Nat.zero_add] at hset
  have hwhole := spells_where hscope (hset.word (w := " WHERE ") rfl) (Nat.add_comm _ 1)
  show Spells P 1 (assignments.map Prod.snd ++ scope.flatMap Condition.params).length _
  rw [List.length_append, List.length_map]
  exact hwhole

/-- An insert without columns has no parameter. -/
theorem spells_insert {c : InsertCommand} (htable : P c.table) (hcolumns : ∀ n ∈ c.columns, P n)
    (hreturning : ∀ n, c.returning = some n → P n)
    (hrows : c.columns = [] → c.params = []) : Spells P 1 c.params.length c.sql := by
  have hanswer (first : Nat) : Follows P first 0 c.returningSql := by
    unfold InsertCommand.returningSql
    cases hreturns : c.returning with
    | none => exact .empty first
    | some n => exact .word rfl (.quote (hreturning n hreturns) first)
  have hopened : Ends P 1 0 "INSERT INTO " := .word rfl 1
  unfold InsertCommand.sql
  split
  next hempty =>
    rw [hrows (List.isEmpty_iff.mp hempty)]
    exact (((hopened.quote htable).word rfl).spells).follow (hanswer 1)
  next =>
    have hnames : Chained P 1 0 (c.columns.map Identifier.quote) := by
      refine .of_forall fun text htext => ?_
      obtain ⟨column, hcolumn, rfl⟩ := List.mem_map.mp htext
      exact .quote (hcolumns column hcolumn) 1
    have hvalues := ((((hopened.quote htable).word (w := " (") rfl).append
      (.intercalate (s := ", ") rfl hnames)).word (w := ") VALUES ") rfl).append
      (.intercalate (s := ", ") rfl (InsertCommand.chained_rowTexts c.rows _))
    have hwhole := hvalues.follow (hanswer _)
    rw [Nat.zero_add] at hwhole
    exact hwhole

namespace IdentityQuery

/-- The names that a component of the lookup key reads are allowed. -/
def Names (P : String → Prop) (q : IdentityQuery) : LookupSource → Prop
  | .column name => P name
  | .related join column => P ((q.joins[join]?.map LookupJoin.joinAlias).getD "") ∧ P column

/-- The names of a join are allowed. -/
structure JoinNames (P : String → Prop) (j : LookupJoin) : Prop where
  table : P j.table
  joinAlias : P j.joinAlias
  key : P j.key
  via : P j.via

variable {q : IdentityQuery}

/-- The lookup key is spelled from its components, each of which stands there twice. -/
theorem spells_keyExpression (htable : P q.table) (hcomponents : ∀ c ∈ q.components, q.Names P c)
    {e : String} (he : q.keyExpression = some e) (first : Nat) : Spells P first 0 e := by
  have hcomponent : ∀ c ∈ q.components, Spells P first 0 (q.componentColumn c) := by
    intro c hc
    have hnames := hcomponents c hc
    cases c with
    | column name => exact .quoteQualified htable hnames first
    | related join column => exact ((Spells.quote hnames.1 first).word rfl).quote hnames.2
  unfold keyExpression at he
  split at he <;> cases he
  refine .intercalate rfl (.of_forall fun text htext => ?_)
  obtain ⟨column, hcolumn, rfl⟩ := List.mem_map.mp htext
  obtain ⟨c, hc, rfl⟩ := List.mem_map.mp hcolumn
  have hopened : Ends P first 0 "char_length(COALESCE(" := .word rfl first
  have hlength := (hopened.append (hcomponent c hc)).word
    (w := "::text, '')) || ':' || COALESCE(") rfl
  exact ((hlength.append (hcomponent c hc)).word rfl).spells

/-- What is matched is spelled without placeholders. -/
theorem spells_matched (htable : P q.table) (hkey : P q.keyColumn)
    (hcomponents : ∀ c ∈ q.components, q.Names P c) :
    ∀ pair ∈ q.matched, ∀ first, Spells P first 0 pair.1 := by
  intro pair hpair first
  unfold matched at hpair
  rcases List.mem_append.mp hpair with hmem | hmem
  · split at hmem
    · cases hmem
    · rw [List.mem_singleton.mp hmem]
      exact .quoteQualified htable hkey first
  · split at hmem
    next e he =>
      split at hmem
      · cases hmem
      · rw [List.mem_singleton.mp hmem]
        exact spells_keyExpression htable hcomponents he first
    next => cases hmem

/-- The alternatives are numbered from one. -/
theorem spells_alternatives (htable : P q.table) (hkey : P q.keyColumn)
    (hcomponents : ∀ c ∈ q.components, q.Names P c) :
    Spells P 1 q.matched.length q.alternatives := by
  have hmatch : ∀ pair ∈ q.matched, ∀ i,
      Spells P (i + 1) 1 (pair.1 ++ " = ANY(" ++ placeholder (i + 1) ++ ")") := by
    intro pair hpair i
    have he := spells_matched htable hkey hcomponents pair hpair (i + 1)
    exact (((he.word rfl).placeholder rfl).word rfl).spells
  have hchained : Chained P 1 q.matched.length q.matchTexts := Chained.mapIdx hmatch 0
  generalize q.matched.length = count at hchained ⊢
  unfold alternatives
  split
  next single hsingle =>
    rw [hsingle] at hchained
    cases hchained with
    | cons h hrest =>
      cases hrest
      exact h
  next several hseveral =>
    have hopened : Ends P 1 0 "(" := .word rfl 1
    have hwhole := (hopened.append (.intercalate (s := " OR ") rfl hchained)).word (w := ")") rfl
    rw [Nat.zero_add] at hwhole
    exact hwhole.spells

/-- A join stands behind whatever is in front of it. -/
theorem follows_joinSql {j : LookupJoin} (htable : P q.table) (hj : JoinNames P j) (first : Nat) :
    Follows P first 0 (q.joinSql j) := by
  have htext : q.joinSql j = " LEFT JOIN " ++ (Identifier.quote j.table ++ " AS "
      ++ Identifier.quote j.joinAlias ++ " ON " ++ Identifier.quoteQualified j.joinAlias j.key
      ++ " = " ++ Identifier.quoteQualified q.table j.via) := by
    unfold joinSql
    simp only [String.append_assoc]
  rw [htext]
  have hnamed := (((Spells.quote hj.table first).word (w := " AS ") rfl).quote hj.joinAlias).word
    (w := " ON ") rfl
  have hkeyed := (hnamed.append (.quoteQualified hj.joinAlias hj.key _)).word (w := " = ") rfl
  exact .word rfl (hkeyed.append (.quoteQualified htable hj.via _))

theorem spells_sql (htable : P q.table) (hkey : P q.keyColumn) (hkeyAlias : P keyAlias)
    (hlookupAlias : P lookupAlias) (hcomponents : ∀ c ∈ q.components, q.Names P c)
    (hjoins : ∀ j ∈ q.joins, JoinNames P j) (htenant : ∀ t, q.tenant = some t → P t.1) :
    Spells P 1 q.params.length q.sql := by
  have hopened : Ends P 1 0 "SELECT " := .word rfl 1
  have hlookup (first : Nat) : Follows P first 0 (q.keyExpression.elim "" fun e =>
      ", " ++ e ++ " AS " ++ Identifier.quote lookupAlias) := by
    cases he : q.keyExpression with
    | none => exact .empty first
    | some e =>
      have htext : ", " ++ e ++ " AS " ++ Identifier.quote lookupAlias
          = ", " ++ (e ++ " AS " ++ Identifier.quote lookupAlias) := by
        simp only [String.append_assoc]
      have hexpression := spells_keyExpression htable hcomponents he first
      rw [Option.elim_some, htext]
      exact .word rfl ((hexpression.word rfl).quote hlookupAlias)
  have hscope (first : Nat) (hfirst : first = 1 + q.matched.length) :
      Follows P first (q.tenant.map Prod.snd).toList.length (q.tenant.elim "" fun t =>
        " AND " ++ Identifier.quoteQualified q.table t.1 ++ " = "
          ++ placeholder (q.matched.length + 1)) := by
    cases ht : q.tenant with
    | none => exact .empty first
    | some t =>
      have htext : " AND " ++ Identifier.quoteQualified q.table t.1 ++ " = "
            ++ placeholder (q.matched.length + 1)
          = " AND " ++ (Identifier.quoteQualified q.table t.1 ++ " = "
            ++ placeholder (q.matched.length + 1)) := by
        simp only [String.append_assoc]
      have hcolumn := Spells.quoteQualified htable (htenant t ht) first
      rw [Option.elim_some, htext]
      exact .word rfl ((hcolumn.word rfl).placeholder (by omega))
  have hselected := ((hopened.append (.quoteQualified htable hkey _)).word (w := " AS ") rfl).quote
    hkeyAlias
  have hfrom := ((hselected.follow (hlookup _)).word (w := " FROM ") rfl).quote htable
  have hjoined := hfrom.follow (.join fun piece hpiece => by
    obtain ⟨j, hj, rfl⟩ := List.mem_map.mp hpiece
    exact follows_joinSql htable (hjoins j hj) _)
  have hmatched := (hjoined.word (w := " WHERE ") rfl).append
    (spells_alternatives htable hkey hcomponents)
  have hsql : q.sql = "SELECT " ++ Identifier.quoteQualified q.table q.keyColumn ++ " AS "
      ++ Identifier.quote keyAlias
      ++ q.keyExpression.elim "" (fun e => ", " ++ e ++ " AS " ++ Identifier.quote lookupAlias)
      ++ " FROM " ++ Identifier.quote q.table ++ String.join (q.joins.map q.joinSql)
      ++ " WHERE " ++ q.alternatives
      ++ q.tenant.elim "" (fun t => " AND " ++ Identifier.quoteQualified q.table t.1 ++ " = "
        ++ placeholder (q.matched.length + 1)) := by
    unfold sql
    cases q.keyExpression <;> cases q.tenant <;> rfl
  rw [hsql]
  refine (hmatched.follow (hscope _ (by omega))).of_eq ?_
  unfold params
  rw [List.length_append, List.length_map]
  omega

end IdentityQuery

namespace Deployer

variable {σ σ' : Type} {d : Deployer σ} {d' : Deployer σ'} {root root' ty ty' : RecordType}
  {m : TableMetadata} {shape shape' : Shape} {c c' : Command}

/-! ## §4. Builders. -/

/-- The tenant's condition compares the tenant's column. -/
theorem names_tenantScope (hreach : root.Reaches ty) (hm : Metadata.ofType ty = .ok m)
    (tenant : Value) : ∀ c ∈ tenantScope m tenant, c.Names (Known root) := by
  intro c hc
  cases hkey : m.tenantKey with
  | none => simp [tenantScope, hkey] at hc
  | some key =>
    have hcondition : c = .equals key.column tenant := by simpa [tenantScope, hkey] using hc
    rw [hcondition]
    exact known_tenantKey hreach hm hkey

/-- The cells of planned changes are those of columns of the type. -/
theorem known_of_planned (hreach : root.Reaches ty) (hm : Metadata.ofType ty = .ok m)
    {change : Change} (h : d.Planned ty m change) : ∀ cell ∈ change.cells, Known root cell.1 := by
  obtain ⟨forced, index, existing, r, hchange⟩ := h
  intro cell hcell
  obtain ⟨column, hcolumn, hname, _⟩ := column_of_mem_cells (cells_of_change hchange) cell hcell
  rw [← hname]
  exact (Declared.column hreach hm hcolumn).known

/-- The names that the identity query of a type quotes are known. -/
theorem spells_identity (hreach : root.Reaches ty) (hm : Metadata.ofType ty = .ok m)
    {keys : List Value} {lookups : List String} {tenant : Value} {q : IdentityQuery}
    (h : identityQuery? m keys lookups tenant = some q) :
    Spells (Known root) 1 q.params.length q.sql := by
  obtain ⟨_, key, hkey, rfl⟩ := of_identityQuery? h
  have hsound := Metadata.lookups_of_ofType hm
  refine IdentityQuery.spells_sql (Declared.table hreach hm).known
    (known_primaryKey hreach hm hkey) (.keyAlias rfl) (.lookupAlias rfl) ?_ ?_ ?_
  · intro source hsource
    obtain ⟨l, hl, rfl⟩ := List.mem_map.mp hsource
    cases hof : l.source with
    | column name =>
      obtain ⟨column, hcolumn, hname, _⟩ := Metadata.column_of_lookup hm hl hof
      show Known root name
      rw [← hname]
      exact (Declared.column hreach hm hcolumn).known
    | related join column =>
      obtain ⟨hjoin, _⟩ := hsound.related l hl join column hof
      refine ⟨.joinAlias hreach hm hjoin ?_, (Declared.joinedColumn hreach hm hl hof).known⟩
      -- the join is there, and its alias is its position
      have hget : m.lookupJoins[join]? = some m.lookupJoins[join] := List.getElem?_eq_getElem hjoin
      rw [hget]
      exact hsound.joinAlias join _ hget
  · intro j hj
    obtain ⟨i, hi, hget⟩ := List.getElem_of_mem hj
    obtain ⟨column, hcolumn, hvia⟩ := hsound.via j hj
    refine ⟨(Declared.joinedTable hreach hm hj).known, .joinAlias hreach hm hi ?_,
      (Declared.joinedKey hreach hm hj).known, ?_⟩
    · exact hsound.joinAlias i j (by rw [List.getElem?_eq_getElem hi, hget])
    · rw [← hvia]
      exact (Declared.column hreach hm hcolumn).known
  · intro t ht
    obtain ⟨tenantKey, htenant, rfl⟩ := Option.map_eq_some_iff.mp ht
    exact known_tenantKey hreach hm htenant

/-- What is built for a type of a tree of accepted types quotes known names, and its placeholders
    are those of its parameters. -/
theorem Builds.spells (haccepted : ∀ t, root.Reaches t → ∃ m, Metadata.ofType t = .ok m)
    (hreach : root.Reaches ty) (hm : Metadata.ofType ty = .ok m)
    (h : d.Builds root ty m shape c) : Spells (Known root) 1 c.params.length c.sql := by
  have htable : Known root m.table := (Declared.table hreach hm).known
  have htenant := names_tenantScope hreach hm d.context.tenant
  cases h with
  | identity h => exact spells_identity hreach hm h
  | @insert changes hne hplanned =>
    refine spells_insert htable ?_ ?_ ?_
    · intro name hname
      obtain ⟨change, hchange, v, hcell⟩ := mem_insertColumns.mp hname
      exact known_of_planned hreach hm (hplanned change hchange).1 _ hcell
    · intro name hname
      obtain ⟨key, hkey, rfl⟩ := Option.map_eq_some_iff.mp hname
      exact known_primaryKey hreach hm hkey
    · intro hnone
      have hcolumns : insertColumns m changes = [] := hnone
      simp [InsertCommand.params, insertCommand, hcolumns]
  | update hplanned hcommand =>
    obtain ⟨key, v, hkey, rfl⟩ := of_updateCommand? hcommand
    refine spells_update htable (fun cell hcell => ?_) fun condition hcondition => ?_
    · exact known_of_planned hreach hm hplanned.1 cell (List.mem_filter.mp hcell).1
    · rcases List.mem_append.mp hcondition with hmem | hmem
      · exact htenant condition hmem
      · rw [List.mem_singleton.mp hmem]
        exact known_primaryKey hreach hm hkey
  | findOrphans hparent hof _ hrelation hkey owners =>
    obtain ⟨hlinks, hmappings⟩ :=
      known_of_relation haccepted hparent hof (relation_of_reported hrelation).1
    refine spells_select htable (fun name hname => ?_) fun condition hcondition => ?_
    · rw [hkey] at hname
      rcases List.mem_cons.mp hname with rfl | hname
      · exact known_primaryKey hreach hm hkey
      · obtain ⟨link, hlink, rfl⟩ := List.mem_map.mp hname
        exact hlinks link hlink
    · rcases List.mem_append.mp hcondition with hmem | hmem
      · rcases List.mem_append.mp hmem with hmem | hmem
        · obtain ⟨i, hi, rfl⟩ := List.mem_mapIdx.mp hmem
          exact hlinks _ (List.getElem_mem hi)
        · obtain ⟨mapping, hmapping, rfl⟩ := List.mem_map.mp hmem
          exact hmappings mapping hmapping
      · exact htenant condition hmem
  | deleteOrphans hkey _ =>
    refine spells_delete htable fun condition hcondition => ?_
    rcases List.mem_cons.mp hcondition with rfl | hmem
    · exact known_primaryKey hreach hm hkey
    · exact htenant condition hmem
  | @filter r _ h =>
    obtain ⟨scope, hscope, h⟩ := Outcome.ok_of_bind h
    dsimp only at h
    split at h <;> cases h
    refine spells_delete htable fun condition hcondition => ?_
    rcases List.mem_append.mp hcondition with hmem | hmem
    · obtain ⟨values, _, rfl⟩ := filterScope_columns hscope
      rw [← List.map_uncurry_zip_eq_zipWith] at hmem
      obtain ⟨⟨name, v⟩, hpair, rfl⟩ := List.mem_map.mp hmem
      obtain ⟨column, hcolumn, rfl⟩ := List.mem_map.mp (List.of_mem_zip hpair).1
      have hdeclared := (List.mem_filter.mp (List.mem_filter.mp hcolumn).1).1
      exact (Declared.column hreach hm hdeclared).known
    · exact htenant condition hmem

end Deployer

/-! ## §5. Texts and shapes. -/

/-- Two conditions of one text, wherever they stand, with as many parameters. -/
def Condition.Alike (c c' : Condition) : Prop :=
  c.params.length = c'.params.length ∧ ∀ first, c.sql first = c'.sql first

theorem Condition.Alike.refl (c : Condition) : c.Alike c := ⟨rfl, fun _ => rfl⟩

/-- Alike conditions make one conjunction. -/
theorem Condition.conjunction_congr {cs cs' : List Condition} (h : List.Forall₂ Alike cs cs')
    (first : Nat) : conjunction first cs = conjunction first cs' := by
  unfold conjunction
  congr 1
  induction h generalizing first with
  | nil => rfl
  | cons hc _ ih => rw [texts, texts, hc.2, hc.1, ih]

/-- The tenants do not matter for the text of the tenant's condition. -/
theorem alike_tenantScope (m : TableMetadata) (tenant tenant' : Value) :
    List.Forall₂ Condition.Alike (tenantScope m tenant) (tenantScope m tenant') := by
  unfold tenantScope
  cases m.tenantKey with
  | none => exact .nil
  | some key => exact .cons ⟨rfl, fun _ => rfl⟩ .nil

/-- Whether cells have a value is all that counts for their texts. -/
theorem InsertCommand.cellTexts_congr {row row' : List (Option Value)}
    (h : row.map Option.isSome = row'.map Option.isSome) :
    (row.filterMap id).length = (row'.filterMap id).length
      ∧ ∀ first, cellTexts first row = cellTexts first row' := by
  induction row generalizing row' with
  | nil =>
    cases row' with
    | nil => exact ⟨rfl, fun _ => rfl⟩
    | cons => cases h
  | cons cell rest ih =>
    cases row' with
    | nil => cases h
    | cons cell' rest' =>
      rw [List.map_cons, List.map_cons, List.cons_eq_cons] at h
      obtain ⟨hlength, htexts⟩ := ih h.2
      cases cell <;> cases cell' <;> cases h.1
      · exact ⟨hlength, fun first => by rw [cellTexts, cellTexts, htexts]⟩
      · exact ⟨congrArg (· + 1) hlength, fun first => by rw [cellTexts, cellTexts, htexts]⟩

/-- Whether cells have a value is all that counts for the texts of their rows. -/
theorem InsertCommand.rowTexts_congr {rows rows' : List (List (Option Value))}
    (h : rows.map (List.map Option.isSome) = rows'.map (List.map Option.isSome)) (first : Nat) :
    rowTexts first rows = rowTexts first rows' := by
  induction rows generalizing rows' first with
  | nil =>
    cases rows' with
    | nil => rfl
    | cons => cases h
  | cons row rest ih =>
    cases rows' with
    | nil => cases h
    | cons row' rest' =>
      rw [List.map_cons, List.map_cons, List.cons_eq_cons] at h
      obtain ⟨hlength, htexts⟩ := cellTexts_congr h.1
      rw [rowTexts, rowTexts, htexts, hlength, ih h.2]

/-- A change has a value for a column just when the column is one of its columns. -/
theorem Change.isSome_lookup (c : Change) (column : String) :
    (c.cells.lookup column).isSome = c.columns.contains column := by
  unfold Change.columns
  induction c.cells with
  | nil => rfl
  | cons cell rest ih =>
    rw [List.lookup_cons, List.map_cons, List.contains_cons, ← ih]
    cases column == cell.1 <;> rfl

/-- The text of an insert depends only on the columns of its changes. -/
theorem insertCommand_sql_congr {m : TableMetadata} {changes changes' : List Change}
    (h : changes.map Change.columns = changes'.map Change.columns) :
    (insertCommand m changes).sql = (insertCommand m changes').sql := by
  have hcolumns : insertColumns m changes = insertColumns m changes' := by
    have hused (cs : List Change) :
        (cs.flatMap fun c => c.cells.map Prod.fst) = (cs.map Change.columns).flatten :=
      List.flatMap_def ..
    unfold insertColumns
    rw [hused, hused, h]
  have hcells (cs : List Change) (columns : List String) :
      (cs.map fun c => columns.map fun column => c.cells.lookup column).map (List.map Option.isSome)
        = (cs.map Change.columns).map fun names => columns.map names.contains := by
    simp only [List.map_map, Function.comp_def, Change.isSome_lookup]
  have hrows : InsertCommand.rowTexts 1 (insertCommand m changes).rows
      = InsertCommand.rowTexts 1 (insertCommand m changes').rows := by
    refine InsertCommand.rowTexts_congr ?_ 1
    show List.map _ (changes.map _) = List.map _ (changes'.map _)
    rw [hcells, hcells, h, hcolumns]
  unfold InsertCommand.sql
  rw [hrows]
  simp only [insertCommand, hcolumns]
  rfl

/-- The values that an identity query looks for and the tenant do not matter for its text. -/
theorem IdentityQuery.sql_congr {m : TableMetadata} {keys keys' : List Value}
    {lookups lookups' : List String} {tenant tenant' : Value} {q q' : IdentityQuery}
    (h : identityQuery? m keys lookups tenant = some q)
    (h' : identityQuery? m keys' lookups' tenant' = some q')
    (hkeys : keys.isEmpty = keys'.isEmpty) (hlookups : lookups.isEmpty = lookups'.isEmpty) :
    q.sql = q'.sql := by
  obtain ⟨_, key, hkey, hq⟩ := of_identityQuery? h
  obtain ⟨_, key', hkey', hq'⟩ := of_identityQuery? h'
  cases hkey.symm.trans hkey'
  have hcolumn : q.componentColumn = q'.componentColumn := by
    funext source
    rw [hq, hq']
    cases source <;> rfl
  have hexpression : q.keyExpression = q'.keyExpression := by
    unfold keyExpression
    rw [hcolumn, hq, hq']
  have hexpressions : q.expressions = q'.expressions := by
    unfold expressions
    rw [hcolumn, hq, hq']
    dsimp only
    rw [hkeys, hlookups]
  have halternatives : q.alternatives = q'.alternatives := by
    unfold alternatives
    rw [matchTexts_eq, matchTexts_eq, hexpressions]
  unfold sql
  rw [hexpression, halternatives, matched_length, matched_length, hexpressions, hq, hq']
  -- of the tenant only the column is left
  cases m.tenantKey <;> rfl

namespace Deployer

variable {σ σ' : Type} {d : Deployer σ} {d' : Deployer σ'} {root root' ty ty' : RecordType}
  {m : TableMetadata} {shape shape' : Shape} {c c' : Command}

/-- The links of a relation are compared alike, whatever their owners hold. -/
theorem alike_linkConditions (links : List ParentLink) (owners owners' : List (List Value)) :
    List.Forall₂ Condition.Alike (links.mapIdx (linkCondition owners))
      (links.mapIdx (linkCondition owners')) := by
  refine List.forall₂_iff_get.mpr ⟨by rw [List.length_mapIdx, List.length_mapIdx], ?_⟩
  intro i hi hi'
  simp only [List.get_eq_getElem, List.getElem_mapIdx]
  exact ⟨rfl, fun _ => rfl⟩

/-- The columns that are filtered by determine how they are compared. -/
theorem alike_filters (columns : List String) {values values' : List Value}
    (h : values.length = columns.length) (h' : values'.length = columns.length) :
    List.Forall₂ Condition.Alike (List.zipWith Condition.equals columns values)
      (List.zipWith Condition.equals columns values') := by
  induction columns generalizing values values' with
  | nil => exact .nil
  | cons column rest ih =>
    obtain ⟨v, vs, rfl⟩ := List.exists_cons_of_length_eq_add_one h
    obtain ⟨v', vs', rfl⟩ := List.exists_cons_of_length_eq_add_one h'
    exact .cons ⟨rfl, fun _ => rfl⟩ (ih (Nat.succ.inj h) (Nat.succ.inj h'))

/-- The values of an update and the tenant do not matter for its text. -/
theorem updateCommand?_sql_congr {tenant tenant' : Value} {change change' : Change}
    (h : updateCommand? m tenant change = some c) (h' : updateCommand? m tenant' change' = some c')
    (hcolumns : change.columns = change'.columns) : c.sql = c'.sql := by
  obtain ⟨key, v, hkey, rfl⟩ := of_updateCommand? h
  obtain ⟨key', v', hkey', rfl⟩ := of_updateCommand? h'
  cases hkey.symm.trans hkey'
  have hnames (assignments : List (String × Value)) :
      Command.assignmentTexts assignments = (assignments.map Prod.fst).mapIdx fun i column =>
        Identifier.quote column ++ " = " ++ placeholder (i + 1) := by
    refine List.ext_getElem? fun i => ?_
    rw [Command.assignmentTexts, List.getElem?_mapIdx, List.getElem?_mapIdx, List.getElem?_map,
      Option.map_map]
    rfl
  have hset : (change.cells.filter fun cell => cell.1 != key.column).map Prod.fst
      = (change'.cells.filter fun cell => cell.1 != key.column).map Prod.fst := by
    have hfilter (cells : List (String × Value)) :
        (cells.filter fun cell => cell.1 != key.column).map Prod.fst
          = (cells.map Prod.fst).filter (· != key.column) := by
      rw [List.filter_map]
      rfl
    rw [hfilter, hfilter]
    exact congrArg _ hcolumns
  have hlength := congrArg List.length hset
  rw [List.length_map, List.length_map] at hlength
  have hkeys : (Condition.equals key.column v).Alike (.equals key.column v') :=
    ⟨rfl, fun _ => rfl⟩
  have hscope := List.rel_append (alike_tenantScope m tenant tenant') (.cons hkeys .nil)
  simp only [Command.sql]
  rw [hnames, hnames, hset, hlength, Condition.conjunction_congr hscope]

/-- The values of a filter record and the tenant do not matter for the text of the deletion. -/
theorem filterDelete_sql_congr {r r' : Record} {tenant tenant' : Value}
    (h : filterDelete ty m r tenant = .ok c) (h' : filterDelete ty' m r' tenant' = .ok c')
    (hcolumns : ((m.columns.filter filters).filter (r.fills ty)).map ColumnMeta.column
      = ((m.columns.filter filters).filter (r'.fills ty')).map ColumnMeta.column) :
    c.sql = c'.sql := by
  have hscopes {ty : RecordType} {r : Record} {tenant : Value} {c : Command}
      (h : filterDelete ty m r tenant = .ok c) : ∃ values : List Value,
        values.length = (((m.columns.filter filters).filter (r.fills ty)).map
          ColumnMeta.column).length
        ∧ c = .delete m.table (List.zipWith Condition.equals
          (((m.columns.filter filters).filter (r.fills ty)).map ColumnMeta.column) values
            ++ tenantScope m tenant) := by
    obtain ⟨scope, hscope, h⟩ := Outcome.ok_of_bind h
    obtain ⟨values, hlength, rfl⟩ := filterScope_columns hscope
    dsimp only at h
    split at h <;> cases h
    exact ⟨values, by rw [hlength, List.length_map], rfl⟩
  obtain ⟨values, hlength, rfl⟩ := hscopes h
  obtain ⟨values', hlength', rfl⟩ := hscopes h'
  rw [← hcolumns] at hlength' ⊢
  have hscope := List.rel_append (alike_filters _ hlength hlength')
    (alike_tenantScope m tenant tenant')
  simp only [Command.sql]
  rw [Condition.conjunction_congr hscope]

/-- Whoever builds a statement, for whatever tenant and from whatever values: the metadata and the
    shape determine its text. -/
theorem Builds.sql_eq (h : d.Builds root ty m shape c) (h' : d'.Builds root' ty' m shape' c')
    (hshape : shape = shape') : c.sql = c'.sql := by
  cases h with
  | @identity keys lookups q h =>
    cases h' with
    | @identity keys' lookups' q' h' =>
      obtain ⟨hkeys, hlookups⟩ := Shape.identity.inj hshape
      exact IdentityQuery.sql_congr h h' (Bool.not_inj hkeys) (Bool.not_inj hlookups)
    | _ => cases hshape
  | insert =>
    cases h' with
    | insert => exact insertCommand_sql_congr (Shape.insert.inj hshape)
    | _ => cases hshape
  | update _ hcommand =>
    cases h' with
    | update _ hcommand' =>
      exact updateCommand?_sql_congr hcommand hcommand' (Shape.update.inj hshape)
    | _ => cases hshape
  | @findOrphans _ _ _ relation _ _ _ _ _ _ owners =>
    cases h' with
    | findOrphans _ _ _ _ _ owners' =>
      cases hshape
      have hconstants : List.Forall₂ Condition.Alike
          (relation.valueMappings.map fun mapping => .equals mapping.childColumn mapping.value)
          (relation.valueMappings.map fun mapping => .equals mapping.childColumn mapping.value) :=
        List.forall₂_same.mpr fun c _ => .refl c
      have hscope := List.rel_append (List.rel_append
        (alike_linkConditions relation.links owners owners') hconstants)
        (alike_tenantScope m d.context.tenant d'.context.tenant)
      simp only [orphanQuery, Command.sql]
      rw [Condition.conjunction_congr hscope]
    | _ => cases hshape
  | @deleteOrphans key hkey ids _ =>
    cases h' with
    | @deleteOrphans key' hkey' ids' _ =>
      cases hkey.symm.trans hkey'
      have hlength : ids.length = ids'.length := Shape.deleteOrphans.inj hshape
      have hkeys : (Condition.among key.column ids).Alike (.among key.column ids') :=
        ⟨hlength, fun first => by simp only [Condition.sql, hlength]⟩
      have hscope := List.Forall₂.cons hkeys
        (alike_tenantScope m d.context.tenant d'.context.tenant)
      simp only [orphanDelete, Command.sql]
      rw [Condition.conjunction_congr hscope]
    | _ => cases hshape
  | filter h =>
    cases h' with
    | filter h' => exact filterDelete_sql_congr h h' (Shape.filter.inj hshape)
    | _ => cases hshape

/-! ## §6. Whole calls. -/

open Work

/-- Whatever a call writes or deletes, at whatever type of which the whole tree is accepted, with
    whatever records and however the store answers, each of its statements is one that a builder
    makes. The placeholders in its text, from left to right, are those of its parameters, each once;
    every quote is closed; every quoted name is a declared identifier, the alias of a join or one of
    the two names of answers; and the text is the one that the builder gives that metadata and that
    shape, whoever deploys, for whatever tenant and with whatever values. -/
theorem perform_wording (d : Deployer σ) (ty : RecordType)
    (haccepted : ∀ t, ty.Reaches t → ∃ m, Metadata.ofType t = .ok m) (request : Request)
    (w : Workbench σ) :
    ∃ xs, Said d.store w (d.perform ty request w).2 xs
      ∧ ∀ x ∈ xs, ∀ c, x.1.command? = some c →
        (lexemes c.sql).filterMap Lexeme.placeholder?
            = (List.range' 1 c.params.length).map placeholder
          ∧ .unclosed ∉ lexemes c.sql
          ∧ (∀ name, .name name ∈ lexemes c.sql → Known ty name)
          ∧ ∃ t m shape, ty.Reaches t ∧ Metadata.ofType t = .ok m ∧ d.Builds ty t m shape c
            ∧ ∀ (σ' : Type) (d' : Deployer σ') (root' ty' : RecordType) (c' : Command),
              d'.Builds root' ty' m shape c' → c'.sql = c.sql := by
  obtain ⟨xs, hsaid, hbuilt⟩ := perform_builds d ty request w
  refine ⟨xs, hsaid, fun x hx c hc => ?_⟩
  obtain ⟨t, m, shape, hreach, hm, hbuilds⟩ := hbuilt x hx c hc
  obtain ⟨found, hreads, hspelled⟩ := hbuilds.spells haccepted hreach hm
  rw [hreads.lexemes_eq]
  refine ⟨hspelled.placeholders, hspelled.closed, hspelled.names, t, m, shape, hreach, hm, hbuilds,
    fun σ' d' root' ty' c' hbuilds' => ?_⟩
  exact hbuilds'.sql_eq hbuilds rfl

/-- A stored widget is deployed with a new part in the place of an old one: in six statements, of
    which the search for orphans compares the tenant with its second parameter. -/
theorem perform_wording_widget :
    let script : Script := {
      Script.empty with
      queries := [.ok [⟨["__pk", "__lookup"], [.bigInt 5, .text "1:w"]⟩], .ok [],
        .ok [⟨["id"], [.bigInt 11]⟩], .ok [⟨["id", "widget_id"], [.bigInt 9, .bigInt 5]⟩]] }
    let w := Example.workbench script [Example.newWidget "w" [Example.newPart "p"]]
    let run := Example.deployer.perform Example.widget .deploy w
    (∀ t, Example.widget.Reaches t → ∃ m, Metadata.ofType t = .ok m)
      ∧ (run.2.calls.filterMap Call.command?).length = 6
      ∧ ∃ xs, Said Example.deployer.store w run.2 xs
        ∧ ∀ x ∈ xs, ∀ c, x.1.command? = some c →
          (lexemes c.sql).filterMap Lexeme.placeholder?
              = (List.range' 1 c.params.length).map placeholder
            ∧ .unclosed ∉ lexemes c.sql
            ∧ ∀ name, .name name ∈ lexemes c.sql → Known Example.widget name := by
  intro script w run
  have haccepted (t : RecordType) (h : Example.widget.Reaches t) :
      ∃ m, Metadata.ofType t = .ok m := by
    cases h with
    | self => exact ⟨_, rfl⟩
    | child hmem hreach =>
      rw [Example.widget_relations] at hmem
      cases List.mem_singleton.mp hmem
      cases hreach with
      | self => exact ⟨_, Example.part_metadata⟩
      | child hmem _ =>
        rw [Example.part_relations] at hmem
        cases hmem
  refine ⟨haccepted, by decide +kernel, ?_⟩
  obtain ⟨xs, hsaid, hwording⟩ := perform_wording Example.deployer Example.widget haccepted .deploy w
  refine ⟨xs, hsaid, fun x hx c hc => ?_⟩
  obtain ⟨hplaceholders, hclosed, hnames, _⟩ := hwording x hx c hc
  exact ⟨hplaceholders, hclosed, hnames⟩

end Deployer

end TenantTree
