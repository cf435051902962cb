/-
  TenantTree.Proofs.Secrecy — what an encrypted column stores.

  An encrypted column stores null or a sealed text, but for one way out: a column that holds
  documents as well stores a value that is no document as it is (`Seals`, §1). Whatever a statement
  writes into an encrypted column is what the codec makes of a value that a record, the context or
  the clock supplies (§2, §3), so it is hidden just when that value does not take this way out
  (`perform_hides`, §4).
-/
import TenantTree.Example.Widgets
import TenantTree.Proofs.Tenancy

namespace TenantTree

/-! ## §1. What the codec makes of a value. -/

/-- Whether a value is a document, or nothing. -/
def Value.isDocument : Value → Bool
  | .null | .json _ => true
  | _ => false

namespace ColumnCodec

variable {codec : ColumnCodec} {table : String} {column : ColumnMeta} {v stored : Value}

/-- A stored value that does not show what it stands for: null, or a sealed text. -/
def Hides (codec : ColumnCodec) (stored : Value) : Prop :=
  stored = .null ∨ ∃ plain sealed, codec.lock plain = .ok sealed ∧ stored = .text sealed

/-- What an encrypted column stores for a value. -/
inductive Seals (codec : ColumnCodec) (column : ColumnMeta) : Value → Value → Prop where
  /-- Nothing stays nothing. -/
  | null (hplain : column.jsonb = false) : Seals codec column .null .null
  /-- A text is sealed. -/
  | text {s sealed : String} (hplain : column.jsonb = false)
      (h : codec.lock (Text.utf8 s) = .ok sealed) : Seals codec column (.text s) (.text sealed)
  /-- A document is sealed as its text, unless it is empty. -/
  | document {j : Json} {sealed : String} (hjsonb : column.jsonb = true)
      (hsome : (j.isNull || j.isEmptyArray) = false)
      (h : codec.lock (Text.utf8 j.text) = .ok sealed) : Seals codec column (.json j) (.text sealed)
  /-- A column of documents stores anything else in the clear. -/
  | clear {v : Value} (hjsonb : column.jsonb = true) (hv : v.isDocument = false) :
      Seals codec column v v

/-- Where locking in a column succeeds, the bytes are locked. -/
theorem inColumn_lock_ok {plain : List UInt8} {found : Option Value}
    (h : ((inColumn table column (codec.lock plain)).map fun s => some (.text s)) = .ok found) :
    ∃ sealed, codec.lock plain = .ok sealed ∧ found = some (.text sealed) := by
  cases hlock : codec.lock plain with
  | error fault =>
    rw [hlock] at h
    cases h
  | ok sealed =>
    rw [hlock] at h
    cases h
    exact ⟨sealed, rfl, rfl⟩

/-- What an encrypted column stores is what `Seals` says, and nothing else. -/
theorem encode_encrypted_iff (hencrypted : column.encrypted = true) :
    codec.encode table column v = .ok (some stored) ↔ Seals codec column v stored := by
  unfold encode
  constructor
  · intro h
    cases hjsonb : column.jsonb with
    | true =>
      rw [hjsonb, if_pos rfl] at h
      unfold encodeDocument at h
      split at h
      · cases h
      next j =>
        split at h
        · cases h
        next hsome =>
          obtain ⟨sealed, hlock, hfound⟩ := inColumn_lock_ok h
          cases hfound
          exact .document hjsonb (by simpa using hsome) hlock
      next other hnull hjson =>
        cases h
        refine .clear hjsonb ?_
        cases v with
        | null => exact absurd rfl hnull
        | json j => exact absurd rfl (hjson j)
        | _ => rfl
    | false =>
      rw [hjsonb, if_neg Bool.false_ne_true, if_pos hencrypted] at h
      split at h
      · cases h
        exact .null hjsonb
      next s =>
        obtain ⟨sealed, hlock, hfound⟩ := inColumn_lock_ok h
        cases hfound
        exact .text hjsonb hlock
      · cases h
  · intro h
    cases h with
    | null hplain => simp [hplain, hencrypted]
    | text hplain hlock => simp [hplain, hencrypted, hlock, inColumn, Except.map]
    | document hjsonb hsome hlock =>
      simp [hjsonb, hencrypted, encodeDocument, hsome, hlock, inColumn, Except.map]
    | clear hjsonb hv =>
      rw [hjsonb, if_pos rfl]
      cases v with
      | null | json => cases hv
      | _ => rfl

/-- What is stored is hidden, unless a column of documents stores something else that is not itself
    hidden. -/
theorem Seals.hides_iff (h : Seals codec column v stored) :
    codec.Hides stored ↔ (column.jsonb = true → v.isDocument = true ∨ codec.Hides v) := by
  have hsealed {plain : List UInt8} {sealed : String} (hlock : codec.lock plain = .ok sealed) :
      codec.Hides (.text sealed) := .inr ⟨plain, sealed, hlock, rfl⟩
  cases h with
  | null hplain => exact ⟨fun _ _ => .inl rfl, fun _ => .inl rfl⟩
  | text hplain hlock => simp [hplain, hsealed hlock]
  | document hjsonb hsome hlock => exact ⟨fun _ _ => .inl rfl, fun _ => hsealed hlock⟩
  | clear hjsonb hv => simp [hjsonb, hv]

end ColumnCodec

/-! ## §2. Where a value comes from. -/

/-- A statement writes a value into a column: a row of an insert has it there, or an update assigns
    it. -/
def Command.Writes (column : String) (v : Value) : Command → Prop
  | insert c => ∃ row ∈ c.rows, ∃ i : Nat,
      c.columns[i]? = some column ∧ row[i]? = some (some v)
  | update _ assignments _ => (column, v) ∈ assignments
  | identity _ | select _ _ _ | delete _ _ => False

namespace Deployer

open Work

variable {σ : Type} {d : Deployer σ} {ty : RecordType} {m : TableMetadata} {column : ColumnMeta}

/-- What a column is planned to hold comes from a record's accessor, or from the context or the
    clock where its role is the tenant or a stamp. -/
inductive Supplies (d : Deployer σ) (ty : RecordType) (column : ColumnMeta) : Value → Prop where
  /-- The record's field. -/
  | record {r : Record} {v : Value} (h : r.get ty column.field = .ok v) : Supplies d ty column v
  /-- The tenant. -/
  | tenant (h : column.role = .tenantKey) : Supplies d ty column d.context.tenant
  /-- The actor. -/
  | actor {role : AuditRole} (h : column.role = .audit role) (hactor : role.stampsActor = true) :
      Supplies d ty column d.context.actor
  /-- The time. -/
  | clock {role : AuditRole} (h : column.role = .audit role) (htime : role.stampsActor = false) :
      Supplies d ty column d.now

/-- What a change writes into a column, the key of an updated row apart, is supplied. -/
theorem supplies_of_cell (hm : Metadata.ofType ty = .ok m) {forced : List String} {index : Nat}
    {existing : Option Value} {r : Record} {change : Change}
    (hchange : (d.planInput forced).change ty m index existing r = .ok (change, []))
    (hcolumn : column ∈ m.columns) {v : Value}
    (hcell : (d.planInput forced).cell ty change.kind change.primaryKey r column = .ok (.write v))
    (hkey : change.kind = .insert ∨ column.role ≠ .primaryKey) : d.Supplies ty column v := by
  unfold PlanInput.cell at hcell
  cases hrole : column.role with
  | primaryKey =>
    -- a new row gets the key that its record carries
    rw [hrole] at hcell hkey
    obtain ⟨_, hcarried⟩ := carried_of_insert hchange (hkey.resolve_right (by simp))
    have hpk := (Metadata.rooted_of_ofType hm).primaryKey column hcolumn hrole
    dsimp only at hpk
    unfold Record.primaryKey at hcarried
    rw [hpk] at hcarried
    obtain ⟨held, hheld, hsupplied⟩ := Outcome.ok_of_map hcarried
    cases hkeyed : change.primaryKey with
    | none =>
      rw [hkeyed] at hcell
      cases hcell
    | some found =>
      rw [hkeyed] at hcell hsupplied
      cases hcell
      obtain ⟨rfl, _⟩ := Value.supplied?_eq_some.mp hsupplied
      exact .record hheld
  | tenantKey =>
    rw [hrole] at hcell
    cases hcell
    exact .tenant hrole
  | audit role =>
    rw [hrole] at hcell
    dsimp only at hcell
    split at hcell
    · cases hcell
    · cases hcell
      unfold PlanInput.stamp
      split
      next hactor => exact .actor hrole hactor
      next htime => exact .clock hrole (by simpa using htime)
  | data =>
    rw [hrole] at hcell
    dsimp only at hcell
    have hpresent : (d.planInput forced).dataCell ty change.kind r column ≠ .ok .missing := by
      rw [hcell]
      exact nofun
    obtain ⟨_, hheld, _⟩ := (dataCell_eq_write hpresent).mp hcell
    exact .record hheld

/-! ## §3. What the statements of a type write. -/

/-- Whatever a statement writes into a column is what the codec makes of a supplied value. -/
theorem Issued.supplied (hm : Metadata.ofType ty = .ok m) {c : Command} (h : d.Issued ty m c)
    (hcolumn : column ∈ m.columns) {stored : Value} (hwrites : c.Writes column.column stored) :
    ∃ v, d.Supplies ty column v ∧ d.codec.encode m.table column v = .ok (some stored) := by
  -- a cell of a planned change is that of the one column with its name
  have hcells {change : Change} (hplanned : d.Planned ty m change)
      (hcell : (column.column, stored) ∈ change.cells)
      (hkey : change.kind = .insert ∨ column.role ≠ .primaryKey) :
      ∃ v, d.Supplies ty column v ∧ d.codec.encode m.table column v = .ok (some stored) := by
    obtain ⟨forced, index, existing, r, hchange⟩ := hplanned
    obtain ⟨other, hother, hname, v, hwrite, hstored⟩ :=
      column_of_mem_cells (cells_of_change hchange) _ hcell
    obtain rfl : other = column := List.inj_on_of_nodup_map
      (Metadata.sound_of_ofType hm).distinct hother hcolumn hname
    exact ⟨v, supplies_of_cell hm hchange hother hwrite hkey, hstored⟩
  cases h with
  | identity => exact hwrites.elim
  | @insert changes hne hplanned =>
    obtain ⟨row, hrow, i, hname, hcell⟩ := hwrites
    obtain ⟨change, hchange, rfl⟩ := List.mem_map.mp hrow
    obtain ⟨hplan, hkind⟩ := hplanned change hchange
    have hname' : (insertColumns m changes)[i]? = some column.column := hname
    rw [List.getElem?_map, hname', Option.map_some, Option.some.injEq] at hcell
    obtain ⟨before, after, hsplit, _⟩ := List.lookup_eq_some_iff.mp hcell
    exact hcells hplan (hsplit ▸ by simp) (.inl hkind)
  | @update change _ hplanned hcommand =>
    obtain ⟨pk, key, hpk, rfl⟩ := of_updateCommand? hcommand
    obtain ⟨hmem, hother⟩ := List.mem_filter.mp hwrites
    refine hcells hplanned.1 hmem (.inr fun hrole => ?_)
    -- the primary key is not among the assignments
    have hkey := (Metadata.rooted_of_ofType hm).primaryKey column hcolumn hrole
    rw [hpk] at hkey
    cases hkey
    simp at hother
  | findOrphans => exact hwrites.elim
  | deleteOrphans => exact hwrites.elim
  | filter h =>
    obtain ⟨_, rfl⟩ := of_filterDelete h
    exact hwrites.elim

/-! ## §4. Whole calls. -/

/-- An encrypted column is hidden, whatever is called, with whatever records and however the store
    answers, but for one way out. The codec gives an error, nothing, null or a sealed text for every
    value just when the column holds no documents, or the value is one (or is itself hidden). What a
    statement writes into an encrypted column of a type of the tree is what the codec makes of a
    value that a record, the context or the clock supplies, and it is hidden just when that value
    does not take this way out. -/
theorem perform_hides (d : Deployer σ) (ty : RecordType) (request : Request)
    (w : Workbench σ) :
    (∀ table column v, column.encrypted = true →
      ((∀ stored, d.codec.encode table column v = .ok (some stored) → d.codec.Hides stored)
        ↔ (column.jsonb = true → v.isDocument = true ∨ d.codec.Hides v)))
    ∧ ∃ added, (d.perform ty request w).2.calls = w.calls ++ added ∧
      ∀ call ∈ added, ∀ c, call.command? = some c →
        ∃ t m, ty.Reaches t ∧ Metadata.ofType t = .ok m ∧ c.table = m.table ∧
          ∀ column ∈ m.columns, column.encrypted = true →
            ∀ stored, c.Writes column.column stored →
              ∃ v, d.Supplies t column v ∧ d.codec.Seals column v stored
                ∧ (d.codec.Hides stored
                  ↔ (column.jsonb = true → v.isDocument = true ∨ d.codec.Hides v)) := by
  refine ⟨?_, ?_⟩
  · intro table column v hencrypted
    refine ⟨fun hall hjsonb => ?_, fun hdocument stored hstored => ?_⟩
    · cases hv : v.isDocument with
      | true => exact .inl rfl
      | false =>
        exact .inr (hall v ((ColumnCodec.encode_encrypted_iff hencrypted).mpr (.clear hjsonb hv)))
    · have hseals := (ColumnCodec.encode_encrypted_iff hencrypted).mp hstored
      exact hseals.hides_iff.mpr hdocument
  · obtain ⟨added, hcalls, hadded⟩ := perform_keeps (issuing d) ty request w
    refine ⟨added, hcalls, fun call hcall c hc => ?_⟩
    obtain ⟨t, m, hreach, hm, hissued⟩ := hadded call hcall c hc
    refine ⟨t, m, hreach, hm, hissued.table_eq, fun column hcolumn hencrypted stored hwrites => ?_⟩
    obtain ⟨v, hsupplied, hstored⟩ := hissued.supplied hm hcolumn hwrites
    have hseals := (ColumnCodec.encode_encrypted_iff hencrypted).mp hstored
    exact ⟨v, hsupplied, hseals, hseals.hides_iff⟩

/-- A text that the marked mask seals under two bytes begins with the symbol of the marker. -/
theorem lock_sealing {plain : List UInt8} {text : String}
    (h : Example.sealing.codec.lock plain = .ok text) : text.toList.head? = some 'p' := by
  obtain ⟨sealed, hsealed, rfl⟩ := Outcome.ok_of_map h
  have hmarked : ∃ rest, sealed = Cipher.marker :: rest := by
    dsimp only [Example.sealing, Cipher.marked, List.isEmpty_cons] at hsealed
    split at hsealed
    · cases hsealed
    · split at hsealed
      · cases hsealed
      · cases hsealed
        exact ⟨_, rfl⟩
  obtain ⟨rest, rfl⟩ := hmarked
  rw [String.toList_ofList]
  match rest with
  | [] => rfl
  | [_] => rfl
  | _ :: _ :: _ => rfl

/-- Whether a call inserts one note, with these texts for its body and its author. -/
def insertsNote (body author : String) : Call → Bool
  | .query (.insert ⟨_, [_, "body", "created_by"], [[_, some (.text b), some (.text a)]], _⟩) =>
    decide (b = body ∧ a = author)
  | _ => false

theorem writes_of_insertsNote {body author : String} {call : Call}
    (h : insertsNote body author call = true) :
    ∃ c, call = .query c ∧ c.Writes "body" (.text body) ∧ c.Writes "created_by" (.text author) := by
  unfold insertsNote at h
  split at h
  next =>
    obtain ⟨rfl, rfl⟩ := of_decide_eq_true h
    exact ⟨_, rfl, ⟨_, List.mem_singleton.mpr rfl, 1, rfl, rfl⟩,
      ⟨_, List.mem_singleton.mpr rfl, 2, rfl, rfl⟩⟩
  next => cases h

/-- The author of a note is stamped in the clear into an encrypted column, where its body is
    sealed. -/
theorem not_hides_stamp :
    let script : Script := { Script.empty with queries := [.ok [⟨["id"], [.bigInt 11]⟩]] }
    let run := Example.sealing.perform Example.note .create
      (Example.workbench script [⟨[("body", .json (.string "hush"))], none, []⟩])
    (∃ m, Metadata.ofType Example.note = .ok m
        ∧ ∃ column ∈ m.columns, column.column = "created_by" ∧ column.encrypted = true)
      ∧ run.1 = .ok ()
      ∧ ∃ c, run.2.calls[1]? = some (Call.query c)
        ∧ c.Writes "body" (.text "pSKXdYxo3Q==") ∧ c.Writes "created_by" (.text "tester")
        ∧ Example.sealing.codec.Hides (.text "pSKXdYxo3Q==")
        ∧ ¬ Example.sealing.codec.Hides (.text "tester") := by
  intro script run
  have hsecond : run.2.calls[1]?.any (insertsNote "pSKXdYxo3Q==" "tester") = true := by
    decide +kernel
  obtain ⟨call, hcall, hinserts⟩ := (Option.any_eq_true _ _).mp hsecond
  obtain ⟨c, rfl, hbody, hauthor⟩ := writes_of_insertsNote hinserts
  refine ⟨⟨_, rfl, _, List.mem_of_getElem? (i := 3) rfl, rfl, rfl⟩, by decide +kernel, c, hcall,
    hbody, hauthor, ?_, ?_⟩
  · exact .inr ⟨Text.utf8 (Json.string "hush").text, "pSKXdYxo3Q==", by decide +kernel, rfl⟩
  · rintro (hnull | ⟨plain, text, hlock, htext⟩)
    · cases hnull
    · cases htext
      exact absurd (lock_sealing hlock) (by decide)

end Deployer

end TenantTree
