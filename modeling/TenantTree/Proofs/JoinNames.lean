/-
  TenantTree.Proofs.JoinNames — the names of tables in an identity query.

  A query is cut into pieces: words without a name, qualified columns, the table that it reads, its
  joins, and the names of the columns of its answer (§1). Its clauses mention only columns of tables
  that it reads (§2). A join is named by its position, so joins never share a name; but a table can
  have the name of one of its own joins (§3). Unless it has, every name in the query stands for one
  table, and each component of the lookup key is read where its field declares
  (`query_names_tables`, §4).
-/
import TenantTree.Proofs.Clause
import TenantTree.Proofs.Insertion
import TenantTree.Proofs.KeyExpression
import TenantTree.Proofs.Lexeme
import TenantTree.Proofs.WellFormed

namespace TenantTree

/-! ## §1. Pieces. -/

/-- A piece of the text of a query. -/
inductive Piece where
  /-- Text without a name. -/
  | word (text : String)
  /-- A column of a table. -/
  | column (name : ColumnName)
  /-- The table that is read, under its own name. -/
  | source (table : String)
  /-- A table that is joined under another name, and the two columns that are compared. -/
  | joined (table name : String) (key via : ColumnName)
  /-- The name of a column of the answer. -/
  | output (name : String)
  deriving DecidableEq, Repr

namespace Piece

/-- The text of a piece. -/
def text : Piece → String
  | word text => text
  | column name => name.quoted
  | source table => " FROM " ++ Identifier.quote table
  | joined table name key via =>
    " LEFT JOIN " ++ Identifier.quote table ++ " AS " ++ Identifier.quote name ++ " ON "
      ++ key.quoted ++ " = " ++ via.quoted
  | output name => " AS " ++ Identifier.quote name

/-- The name that a piece gives to a table. -/
def names : Piece → List String
  | source table => [table]
  | joined _ name _ _ => [name]
  | word _ | column _ | output _ => []

/-- The columns that a piece mentions. -/
def columns : Piece → List ColumnName
  | column name => [name]
  | joined _ _ key via => [key, via]
  | word _ | source _ | output _ => []

/-- Whether a text holds neither the quote of a name nor the point of a qualified one. -/
def isPlain (text : String) : Bool := text.toList.all fun c => c != '"' && c != '.'

end Piece

/-- The pieces make up the text, and what is none of the names is plain. -/
structure Cut (text : String) (pieces : List Piece) : Prop where
  text_eq : String.join (pieces.map Piece.text) = text
  plain : ∀ w, .word w ∈ pieces → Piece.isPlain w = true

theorem Cut.nil : Cut "" [] := ⟨rfl, nofun⟩

theorem Cut.append {text other : String} {pieces others : List Piece} (h : Cut text pieces)
    (h' : Cut other others) : Cut (text ++ other) (pieces ++ others) where
  text_eq := by rw [List.map_append, String.join_append, h.text_eq, h'.text_eq]
  plain w hw := (List.mem_append.mp hw).elim (h.plain w) (h'.plain w)

/-- A piece, plain if it is a word, is a cut of its text. -/
theorem Cut.single (piece : Piece) (h : ∀ w, piece = .word w → Piece.isPlain w = true) :
    Cut piece.text [piece] where
  text_eq := by rw [List.map_singleton, String.join_cons, String.join_nil, String.append_empty]
  plain w hw := h w (List.mem_singleton.mp hw).symm

/-! ## §2. Clauses. -/

/-- A text that gives no table a name, and mentions only columns of the given tables. -/
def Mentions (tables : List String) (text : String) : Prop :=
  ∃ pieces, Cut text pieces ∧ ∀ p ∈ pieces, p.names = [] ∧ ∀ c ∈ p.columns, c.table ∈ tables

section Mentions

variable {tables : List String} {text other : String}

theorem Mentions.empty : Mentions tables "" := ⟨[], .nil, List.forall_mem_nil _⟩

theorem Mentions.append (h : Mentions tables text) (h' : Mentions tables other) :
    Mentions tables (text ++ other) := by
  obtain ⟨pieces, hcut, hpieces⟩ := h
  obtain ⟨others, hcut', hothers⟩ := h'
  exact ⟨pieces ++ others, hcut.append hcut', List.forall_mem_append.mpr ⟨hpieces, hothers⟩⟩

/-- A plain text mentions nothing. -/
theorem Mentions.word (h : Piece.isPlain text = true) : Mentions tables text := by
  have hplain : ∀ w, Piece.word text = .word w → Piece.isPlain w = true := by
    rintro w ⟨⟩
    exact h
  exact ⟨[.word text], .single (.word text) hplain, by simp [Piece.names, Piece.columns]⟩

theorem Mentions.column {c : ColumnName} (h : c.table ∈ tables) : Mentions tables c.quoted :=
  ⟨[.column c], .single (.column c) nofun, by simpa [Piece.names, Piece.columns] using h⟩

theorem Mentions.output (name : String) : Mentions tables (" AS " ++ Identifier.quote name) :=
  ⟨[.output name], .single (.output name) nofun, by simp [Piece.names, Piece.columns]⟩

/-- Texts with a plain one between them mention what they mention by themselves. -/
theorem Mentions.intercalate {sep : String} (hsep : Piece.isPlain sep = true) :
    ∀ {texts : List String}, (∀ text ∈ texts, Mentions tables text) →
      Mentions tables (sep.intercalate texts)
  | [], _ => .empty
  | [text], h => by
    rw [String.intercalate_singleton]
    exact h text List.mem_cons_self
  | text :: next :: rest, h => by
    rw [String.intercalate_cons_cons]
    have hrest := Mentions.intercalate hsep
      fun other hother => h other (List.mem_cons_of_mem text hother)
    exact ((h text List.mem_cons_self).append (.word hsep)).append hrest

/-- A placeholder is plain. -/
theorem isPlain_placeholder (position : Nat) : Piece.isPlain (placeholder position) = true := by
  unfold Piece.isPlain placeholder
  rw [String.toList_append, List.all_append, Bool.and_eq_true]
  refine ⟨rfl, List.all_eq_true.mpr fun c hc => ?_⟩
  have hdigit := isDigit_of_mem_toString hc
  have hquote : c ≠ '"' := by
    rintro rfl
    cases hdigit
  have hpoint : c ≠ '.' := by
    rintro rfl
    cases hdigit
  simp [hquote, hpoint]

/-- The expression of a component mentions its column. -/
theorem Mentions.component {c : ColumnName} (h : c.table ∈ tables) :
    Mentions tables (LookupKey.componentSql c.quoted) :=
  ((((word rfl).append (column h)).append (word rfl)).append (column h)).append (word rfl)

/-- The expression of a lookup key mentions the columns of its components. -/
theorem Mentions.lookupKey {columns : List ColumnName} (h : ∀ c ∈ columns, c.table ∈ tables) :
    Mentions tables (LookupKey.sql (columns.map ColumnName.quoted)) := by
  refine .intercalate rfl fun text htext => ?_
  rw [List.map_map] at htext
  obtain ⟨c, hc, rfl⟩ := List.mem_map.mp htext
  exact .component (h c hc)

/-- The expressions that a predicate compares. -/
def Predicate.expressions : Predicate → List Expression
  | equals e _ | anyOf e _ | among e _ _ => [e]
  | either p q => p.expressions ++ q.expressions

/-- A predicate mentions what its expressions mention. -/
theorem Mentions.predicate : ∀ {p : Predicate}, (∀ e ∈ p.expressions, Mentions tables e.sql) →
    Mentions tables p.sql
  | .equals e position, h =>
    ((h e List.mem_cons_self).append (word rfl)).append (word (isPlain_placeholder position))
  | .anyOf e position, h =>
    (((h e List.mem_cons_self).append (word rfl)).append
      (word (isPlain_placeholder position))).append (word rfl)
  | .among e first count, h => by
    refine (((h e List.mem_cons_self).append (word rfl)).append
      (intercalate rfl fun text htext => ?_)).append (word rfl)
    obtain ⟨i, _, rfl⟩ := List.mem_map.mp htext
    exact word (isPlain_placeholder _)
  | .either p q, h => by
    obtain ⟨hp, hq⟩ := List.forall_mem_append.mp h
    exact ((((word rfl).append (predicate hp)).append (word rfl)).append
      (predicate hq)).append (word rfl)

end Mentions

namespace IdentityQuery

variable {q : IdentityQuery}

/-- The names that a query gives to tables. -/
def names (q : IdentityQuery) : List String := q.table :: q.joins.map LookupJoin.joinAlias

/-- The table of a query is one that it names. -/
theorem table_mem_names : q.table ∈ q.names := List.mem_cons_self

/-- What a query matches mentions columns of tables that it names. -/
theorem mentions_expression (hcomponents : ∀ s ∈ q.components, (q.columnName s).table ∈ q.names)
    {e : Expression} (he : e ∈ q.expressions) : Mentions q.names e.sql := by
  have hcolumns : ∀ c ∈ q.components.map q.columnName, c.table ∈ q.names := by
    intro c hc
    obtain ⟨source, hsource, rfl⟩ := List.mem_map.mp hc
    exact hcomponents source hsource
  rcases List.mem_append.mp he with hkey | hlookup
  · split at hkey
    · cases hkey
    · rw [List.mem_singleton.mp hkey]
      exact .column (c := ⟨q.table, q.keyColumn⟩) table_mem_names
  · split at hlookup
    · cases hlookup
    · rw [List.mem_singleton.mp hlookup, map_componentColumn]
      exact .lookupKey hcolumns

/-- The predicates of a query compare what it matches, and the tenant's column. -/
theorem mentions_predicate (hcomponents : ∀ s ∈ q.components, (q.columnName s).table ∈ q.names)
    {p : Predicate} (hp : p ∈ (Command.identity q).predicates) : Mentions q.names p.sql := by
  have hmatches : ∀ p ∈ q.expressions.mapIdx fun i e => Predicate.anyOf e (i + 1),
      ∀ e ∈ p.expressions, Mentions q.names e.sql := by
    intro p hp
    obtain ⟨i, hi⟩ := List.mem_iff_getElem?.mp hp
    rw [List.getElem?_mapIdx] at hi
    obtain ⟨e, he, rfl⟩ := Option.map_eq_some_iff.mp hi
    exact List.forall_mem_singleton.mpr
      (mentions_expression hcomponents (List.mem_of_getElem? he))
  refine .predicate fun e he => ?_
  rcases List.mem_append.mp hp with hchoice | htenant
  · unfold choice at hchoice
    split at hchoice
    -- two alternatives are one predicate, which compares what either does
    next first second hboth =>
      rw [hboth] at hmatches
      rw [List.mem_singleton.mp hchoice] at he
      rcases List.mem_append.mp he with hfirst | hsecond
      · exact hmatches first List.mem_cons_self e hfirst
      · exact hmatches second (List.mem_cons_of_mem _ List.mem_cons_self) e hsecond
    next => exact hmatches p hchoice e he
  · obtain ⟨t, _, rfl⟩ := Option.map_eq_some_iff.mp (Option.mem_toList.mp htenant)
    rw [List.mem_singleton.mp he]
    exact .column (c := ⟨q.table, t.1⟩) table_mem_names

/-- The clause of a query mentions columns of tables that it names. -/
theorem mentions_clause (hcomponents : ∀ s ∈ q.components, (q.columnName s).table ∈ q.names) :
    Mentions q.names (" WHERE "
      ++ " AND ".intercalate ((Command.identity q).predicates.map Predicate.sql)) := by
  refine (Mentions.word rfl).append (.intercalate rfl fun text htext => ?_)
  obtain ⟨p, hp, rfl⟩ := List.mem_map.mp htext
  exact mentions_predicate hcomponents hp

/-- What a query reads: the primary key and, if there is one, the lookup key. -/
def selected (q : IdentityQuery) : String :=
  "SELECT " ++ q.keyColumnSql ++ (" AS " ++ Identifier.quote keyAlias)
    ++ q.keyExpression.elim "" fun e => ", " ++ e ++ (" AS " ++ Identifier.quote lookupAlias)

/-- What a query reads mentions columns of tables that it names. -/
theorem mentions_selected
    (hcomponents : ∀ s ∈ q.components, (q.columnName s).table ∈ q.names) :
    Mentions q.names q.selected := by
  have hkey : Mentions q.names q.keyColumnSql :=
    .column (c := ⟨q.table, q.keyColumn⟩) table_mem_names
  refine (((Mentions.word rfl).append hkey).append (.output _)).append ?_
  cases hexpression : q.keyExpression with
  | none => exact .empty
  | some e =>
    rw [keyExpression_eq hexpression]
    refine ((Mentions.word rfl).append (.lookupKey fun c hc => ?_)).append (.output _)
    obtain ⟨source, hsource, rfl⟩ := List.mem_map.mp hc
    exact hcomponents source hsource

/-- The text of a query is what it reads, its table, its joins and its clause. -/
theorem sql_eq_selected (hmatched : q.matched ≠ []) :
    q.sql = q.selected ++ (" FROM " ++ Identifier.quote q.table)
      ++ String.join (q.joins.map q.joinSql)
      ++ (" WHERE " ++ " AND ".intercalate ((Command.identity q).predicates.map Predicate.sql)) := by
  have hopening := Command.sql_eq_opening (.identity q) nofun (by rintro _ ⟨⟩; exact hmatched)
  refine hopening.trans (?_ : q.opening ++ _ ++ _ = _)
  unfold opening selected
  cases q.keyExpression <;> simp only [Option.elim_none, Option.elim_some, String.append_assoc]

/-- The piece of a join. -/
def joinPiece (q : IdentityQuery) (j : LookupJoin) : Piece :=
  .joined j.table j.joinAlias ⟨j.joinAlias, j.key⟩ ⟨q.table, j.via⟩

/-- The joins of a query are pieces of its text. -/
theorem cut_joins (q : IdentityQuery) :
    Cut (String.join (q.joins.map q.joinSql)) (q.joins.map q.joinPiece) where
  text_eq := by
    rw [List.map_map]
    rfl
  plain w hw := by
    obtain ⟨j, _, hj⟩ := List.mem_map.mp hw
    cases hj

/-- Each join names its table by its alias. -/
theorem names_joinPieces (q : IdentityQuery) :
    (q.joins.map q.joinPiece).flatMap Piece.names = q.joins.map LookupJoin.joinAlias := by
  rw [List.flatMap_map, List.map_eq_flatMap]
  rfl

/-- A join mentions its own key and a column of the query's table. -/
theorem columns_joinPiece {j : LookupJoin} (hj : j ∈ q.joins) :
    ∀ c ∈ (q.joinPiece j).columns, c.table ∈ q.names := by
  refine List.forall_mem_cons.mpr ⟨?_, List.forall_mem_singleton.mpr table_mem_names⟩
  exact List.mem_cons_of_mem _ (List.mem_map_of_mem hj)

/-- The text of a query is made of pieces that name its table and its joins, in order, and mention
    only columns of these. -/
theorem exists_cut (hmatched : q.matched ≠ [])
    (hcomponents : ∀ s ∈ q.components, (q.columnName s).table ∈ q.names) :
    ∃ pieces, Cut q.sql pieces ∧ pieces.flatMap Piece.names = q.names
      ∧ (∀ p ∈ pieces, ∀ c ∈ p.columns, c.table ∈ q.names)
      ∧ ∀ j ∈ q.joins, q.joinPiece j ∈ pieces := by
  obtain ⟨before, hbefore, hselected⟩ := mentions_selected hcomponents
  obtain ⟨after, hafter, hcompared⟩ := mentions_clause hcomponents
  have hsource : Cut (" FROM " ++ Identifier.quote q.table) [.source q.table] :=
    .single (.source q.table) nofun
  have hnone {pieces : List Piece} (h : ∀ p ∈ pieces, p.names = []
      ∧ ∀ c ∈ p.columns, c.table ∈ q.names) : pieces.flatMap Piece.names = [] :=
    List.flatMap_eq_nil_iff.mpr fun p hp => (h p hp).1
  refine ⟨before ++ [.source q.table] ++ q.joins.map q.joinPiece ++ after, ?_, ?_, ?_, ?_⟩
  · rw [sql_eq_selected hmatched]
    exact ((hbefore.append hsource).append q.cut_joins).append hafter
  · rw [List.flatMap_append, List.flatMap_append, List.flatMap_append, hnone hselected,
      hnone hcompared, names_joinPieces, List.append_nil]
    rfl
  · intro p hp
    simp only [List.mem_append, or_assoc] at hp
    rcases hp with hbefore | hsource | hjoin | hafter
    · exact (hselected p hbefore).2
    · rw [List.mem_singleton.mp hsource]
      exact nofun
    · obtain ⟨j, hj, rfl⟩ := List.mem_map.mp hjoin
      exact columns_joinPiece hj
    · exact (hcompared p hafter).2
  · intro j hj
    exact List.mem_append_left _ (List.mem_append_right _ (List.mem_map_of_mem hj))

end IdentityQuery

/-! ## §3. Names of joins. -/

section Names

variable {ty : RecordType} {m : TableMetadata}

/-- Joins are named by their positions. -/
theorem joinAliases_eq (hm : Metadata.ofType ty = .ok m) :
    m.lookupJoins.map LookupJoin.joinAlias
      = (List.range m.lookupJoins.length).map fun i => "j" ++ toString i := by
  refine List.ext_getElem (by simp) fun i hi _ => ?_
  have hlt : i < m.lookupJoins.length := by simpa using hi
  rw [List.getElem_map, List.getElem_map, List.getElem_range]
  exact (Metadata.lookups_of_ofType hm).joinAlias i _ (List.getElem?_eq_getElem hlt)

/-- The names of a query are distinct unless its table has the name of one of its joins. -/
theorem nodup_names_iff (hm : Metadata.ofType ty = .ok m) :
    (m.table :: m.lookupJoins.map LookupJoin.joinAlias).Nodup
      ↔ ∀ i < m.lookupJoins.length, m.table ≠ "j" ++ toString i := by
  have hinjective : Function.Injective fun i : Nat => "j" ++ toString i := fun i k h =>
    Nat.repr_injective ((String.append_right_inj "j").mp h)
  rw [joinAliases_eq hm, List.nodup_cons, and_iff_left (List.nodup_range.map hinjective)]
  constructor
  · intro h i hi heq
    exact h (List.mem_map.mpr ⟨i, List.mem_range.mpr hi, heq.symm⟩)
  · intro h hmem
    obtain ⟨i, hi, heq⟩ := List.mem_map.mp hmem
    exact h i (List.mem_range.mp hi) heq.symm

/-! ## §4. Where components are read. -/

/-- The column in which a component of the lookup key is read: the field's own, or that of a related
    lookup, in the table that the lookup names, where its key is the column that refers to it. -/
inductive ReadFrom (table : String) (pieces : List Piece) (f : FieldDecl RecordType) :
    ColumnName → Prop where
  | own {column : String} (hrelated : f.related = none) (hcolumn : f.column = some column) :
      ReadFrom table pieces f ⟨table, column⟩
  | related {r : RelatedLookup} {name : String} (hrelated : f.related = some r)
      (hjoined : .joined r.table name ⟨name, r.key⟩ ⟨table, r.via⟩ ∈ pieces) :
      ReadFrom table pieces f ⟨name, r.column⟩

/-- A related lookup is read in a join of its table, by its key and the column that refers to it. -/
theorem ReadFrom.joined_of_related {table : String} {pieces : List Piece}
    {f : FieldDecl RecordType} {c : ColumnName} (h : ReadFrom table pieces f c) {r : RelatedLookup}
    (hrelated : f.related = some r) :
    c.name = r.column ∧ .joined r.table c.table ⟨c.table, r.key⟩ ⟨table, r.via⟩ ∈ pieces := by
  cases h with
  | own hnone _ =>
    rw [hnone] at hrelated
    cases hrelated
  | related hother hjoined =>
    rw [hother] at hrelated
    cases hrelated
    exact ⟨rfl, hjoined⟩

variable {keys : List Value} {lookups : List String} {tenant : Value} {q : IdentityQuery}

/-- The components of the query of a type are read in tables that it names. -/
theorem column_mem_names (hm : Metadata.ofType ty = .ok m)
    (hq : identityQuery? m keys lookups tenant = some q) :
    ∀ s ∈ q.components, (q.columnName s).table ∈ q.names := by
  obtain ⟨_, _, _, rfl⟩ := of_identityQuery? hq
  intro s hs
  obtain ⟨l, hl, rfl⟩ := List.mem_map.mp hs
  cases hsource : l.source with
  | column name => exact List.mem_cons_self
  | related join column =>
    obtain ⟨hlt, _⟩ := (Metadata.lookups_of_ofType hm).related l hl join column hsource
    have hget : m.lookupJoins[join]? = some m.lookupJoins[join] := List.getElem?_eq_getElem hlt
    show ((m.lookupJoins[join]?.map LookupJoin.joinAlias).getD "") ∈ _
    rw [hget]
    exact List.mem_cons_of_mem _ (List.mem_map_of_mem (List.getElem_mem hlt))

/-- The identity query of a type names its table and its joins, and every column that it mentions is
    in one of these. The names are distinct, so that each stands for one table, unless the table
    itself has the name of one of the joins. Each component of the lookup key is read where its field
    declares, in order of declaration. -/
theorem query_names_tables (hm : Metadata.ofType ty = .ok m)
    (hq : identityQuery? m keys lookups tenant = some q) :
    ∃ pieces, Cut q.sql pieces
      ∧ pieces.flatMap Piece.names = q.names
      ∧ (q.names.Nodup ↔ ∀ i < m.lookupJoins.length, m.table ≠ "j" ++ toString i)
      ∧ (∀ p ∈ pieces, ∀ c ∈ p.columns, c.table ∈ q.names)
      ∧ q.keyExpression = (if q.components.isEmpty then none
          else some (LookupKey.sql ((q.components.map q.columnName).map ColumnName.quoted)))
      ∧ List.Forall₂ (ReadFrom m.table pieces) (ty.fields.filter FieldDecl.lookup)
          (q.components.map q.columnName) := by
  have hcomponents := column_mem_names hm hq
  obtain ⟨hmatched, key, _, rfl⟩ := of_identityQuery? hq
  obtain ⟨pieces, hcut, hnames, hcolumns, hjoins⟩ := IdentityQuery.exists_cut hmatched hcomponents
  refine ⟨pieces, hcut, hnames, nodup_names_iff hm, hcolumns, ?_, ?_⟩
  · rw [← IdentityQuery.map_componentColumn]
    rfl
  · rw [List.map_map, List.forall₂_map_right_iff]
    refine (Metadata.exact_of_ofType hm).reads.imp fun f l hreads => ?_
    cases hreads with
    | column hrelated hcolumn => exact .own hrelated hcolumn
    | @related r i j hrelated hjoin htarget =>
      obtain ⟨htable, hkey, hvia⟩ := (Metadata.joinTarget_eq_iff j r).mp htarget
      have hpiece := hjoins j (List.mem_of_getElem? hjoin)
      rw [IdentityQuery.joinPiece, htable, hkey, hvia] at hpiece
      have hjoin : m.lookupJoins[i]? = some j := hjoin
      show ReadFrom _ _ _ ⟨(m.lookupJoins[i]?.map LookupJoin.joinAlias).getD "", r.column⟩
      rw [hjoin]
      exact .related hrelated hpiece

/-- The query of invoices names their table and the one join, in which it reads the account. -/
theorem query_names_tables_invoice :
    let q : IdentityQuery := ⟨"invoices", "id", [.related 0 "name", .column "number"],
      [⟨"j0", "accounts", "id", "account_id"⟩], [.bigInt 5], ["4:acme1:7"],
      some ("tenant_id", .bigInt 7)⟩
    Metadata.ofType Example.invoice = .ok Example.invoiceMetadata
    ∧ identityQuery? Example.invoiceMetadata [.bigInt 5] ["4:acme1:7"] (.bigInt 7) = some q
    ∧ ∃ pieces, Cut q.sql pieces ∧ pieces.flatMap Piece.names = ["invoices", "j0"]
      ∧ q.names.Nodup
      ∧ .joined "accounts" "j0" ⟨"j0", "id"⟩ ⟨"invoices", "account_id"⟩ ∈ pieces := by
  intro q
  have hq : identityQuery? Example.invoiceMetadata [.bigInt 5] ["4:acme1:7"] (.bigInt 7) = some q :=
    rfl
  obtain ⟨pieces, hcut, hnames, hnodup, _, _, hread⟩ :=
    query_names_tables Example.invoice_metadata hq
  refine ⟨Example.invoice_metadata, hq, pieces, hcut, hnames, hnodup.mpr (by decide), ?_⟩
  cases hread with
  | cons haccount _ => exact (haccount.joined_of_related rfl).2

/-- Were invoices kept in a table j0, their query would give its name to the accounts as well. -/
theorem not_query_names_tables :
    let ty := { Example.invoice with table := some "j0" }
    let m := { Example.invoiceMetadata with table := "j0" }
    Metadata.ofType ty = .ok m
    ∧ ∃ q, identityQuery? m [.bigInt 5] [] (.bigInt 7) = some q
      ∧ q.opening = "SELECT \"j0\".\"id\" AS \"__pk\", "
          ++ LookupKey.sql ["\"j0\".\"name\"", "\"j0\".\"number\""]
          ++ " AS \"__lookup\" FROM \"j0\" LEFT JOIN \"accounts\" AS \"j0\" ON "
          ++ "\"j0\".\"id\" = \"j0\".\"account_id\""
      ∧ ¬ q.names.Nodup := by
  refine ⟨rfl, _, rfl, ?_, ?_⟩
  · decide +kernel
  · decide

end Names

end TenantTree
