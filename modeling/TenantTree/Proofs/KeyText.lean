/-
  TenantTree.Proofs.KeyText — a key is determined by its text.

  Hexadecimal digits write one byte string only, and the dashed layout of a UUID keeps all of its
  digits (§1). So among values of one kind a text stands for one value, and only null and the
  default marker have no text (§2). Wherever the engine compares primary keys of one kind by their
  texts it thus compares the keys: in the rows that an identity query answers, for the carried keys
  that name no row, and among the children that are kept (`keys_match_by_value`, §3).
-/
import Std.Data.String.ToInt
import TenantTree.Proofs.Document
import TenantTree.Proofs.Saving
import TenantTree.Proofs.Survival

namespace TenantTree

/-! ## §1. Hexadecimal digits. -/

namespace Text

/-- The digits of bytes read as these bytes. -/
theorem ofHex?_hex (bytes : List UInt8) : ofHex? (hex bytes) = some bytes := by
  induction bytes with
  | nil => rfl
  | cons b rest ih =>
    have hb := b.toNat_lt
    have hcons : hex (b :: rest)
        = hexDigit (b.toNat / 16) :: hexDigit (b.toNat % 16) :: hex rest := rfl
    rw [hcons, ofHex?, Json.hexValue?_hexDigit _ (by omega), Json.hexValue?_hexDigit _ (by omega),
      ih]
    simp only [Option.bind_eq_bind, Option.bind_some, Option.pure_def, Option.some.injEq,
      List.cons.injEq, and_true]
    rw [show b.toNat / 16 * 16 + b.toNat % 16 = b.toNat by omega, UInt8.ofNat_toNat]

/-- Different bytes have different digits. -/
theorem hex_injective : Function.Injective hex := by
  intro bytes others h
  have hread := ofHex?_hex bytes
  rw [h, ofHex?_hex] at hread
  exact (Option.some.inj hread).symm

end Text

/-- No digit of bytes is a dash. -/
theorem Text.ne_dash_of_mem_hex {bytes : List UInt8} {c : Char} (h : c ∈ Text.hex bytes) :
    c ≠ '-' := by
  have hdigit : ∀ n < 16, Text.hexDigit n ≠ '-' := by decide
  obtain ⟨b, _, hc⟩ := List.mem_flatMap.mp h
  have hb := b.toNat_lt
  rcases List.mem_pair.mp hc with rfl | rfl
  · exact hdigit _ (by omega)
  · exact hdigit _ (by omega)

/-- A text cut into the five groups of a UUID is the groups one after the other. -/
theorem Uuid.groups_append (cs : List Char) :
    cs.take 8 ++ (cs.drop 8).take 4 ++ (cs.drop 12).take 4 ++ (cs.drop 16).take 4 ++ cs.drop 20
      = cs := by
  have hjoin (n : Nat) : (cs.drop n).take 4 ++ cs.drop (n + 4) = cs.drop n := by
    rw [← List.drop_drop, List.take_append_drop]
  rw [List.append_assoc, hjoin 16, List.append_assoc, hjoin 12, List.append_assoc, hjoin 8,
    List.take_append_drop]

/-- Without its dashes, the text of a UUID is the digits of its bytes. -/
theorem Uuid.filter_text (u : Uuid) :
    u.text.toList.filter (· != '-') = Text.hex u.bytes := by
  have hdigits {cs : List Char} (hcs : cs ⊆ Text.hex u.bytes) : cs.filter (· != '-') = cs := by
    refine List.filter_eq_self.mpr fun c hc => ?_
    exact bne_iff_ne.mpr (Text.ne_dash_of_mem_hex (hcs hc))
  have hdash : ['-'].filter (· != '-') = [] := rfl
  have hgroup (n : Nat) : ((Text.hex u.bytes).drop n).take 4 ⊆ Text.hex u.bytes :=
    ((List.take_sublist ..).trans (List.drop_sublist ..)).subset
  unfold Uuid.text
  simp only [String.toList_ofList, List.filter_append, hdash, List.append_nil,
    hdigits (List.take_subset _ _), hdigits (hgroup _), hdigits (List.drop_subset _ _)]
  exact groups_append _

/-- Different UUIDs have different texts. -/
theorem Uuid.text_injective : Function.Injective Uuid.text := by
  intro u v h
  have hhex : Text.hex u.bytes = Text.hex v.bytes := by rw [← filter_text, h, filter_text]
  cases u
  cases v
  cases Text.hex_injective hhex
  rfl

/-! ## §2. Texts of values. -/

namespace Value

/-- Two values of one kind, of the kinds that a primary key may have. -/
inductive SameKind : Value → Value → Prop where
  | bool (a b : Bool) : SameKind (.bool a) (.bool b)
  | smallInt (a b : Int16) : SameKind (.smallInt a) (.smallInt b)
  | int (a b : Int32) : SameKind (.int a) (.int b)
  | bigInt (a b : Int64) : SameKind (.bigInt a) (.bigInt b)
  | timestampTz (a b : Int64) : SameKind (.timestampTz a) (.timestampTz b)
  | text (a b : String) : SameKind (.text a) (.text b)
  | decimal (a b : String) : SameKind (.decimal a) (.decimal b)
  | bytes (a b : List UInt8) : SameKind (.bytes a) (.bytes b)
  | uuid (a b : Uuid) : SameKind (.uuid a) (.uuid b)

variable {v w : Value}

/-- Whole numbers of one text are the same. -/
theorem integer_of_toText {n k : Int} (hv : v.integer? = some n) (hw : w.integer? = some k)
    (h : v.toText = w.toText) : n = k := by
  rw [(text_of_integer hv).1, (text_of_integer hw).1] at h
  exact Int.repr_inj.mp (Option.some.inj h)

/-- Values of one kind with the same text are the same. -/
theorem SameKind.eq_of_toText (hkind : v.SameKind w) (h : v.toText = w.toText) : v = w := by
  cases hkind with
  | bool a b =>
    rw [toText, toText] at h
    cases a <;> cases b <;> first | rfl | exact absurd h (by decide)
  | smallInt a b => rw [Int16.toInt_inj.mp (integer_of_toText rfl rfl h)]
  | int a b => rw [Int32.toInt_inj.mp (integer_of_toText rfl rfl h)]
  | bigInt a b => rw [Int64.toInt_inj.mp (integer_of_toText rfl rfl h)]
  | timestampTz a b => rw [Int64.toInt_inj.mp (integer_of_toText rfl rfl h)]
  | text a b =>
    rw [toText, toText] at h
    rw [Option.some.inj h]
  | decimal a b =>
    rw [toText, toText] at h
    rw [Option.some.inj h]
  | bytes a b =>
    rw [toText, toText, Option.some.injEq, String.ofList_inj] at h
    rw [Text.hex_injective (List.append_cancel_left h)]
  | uuid a b =>
    rw [toText, toText] at h
    rw [Uuid.text_injective (Option.some.inj h)]

theorem SameKind.toText_eq_iff (hkind : v.SameKind w) : v.toText = w.toText ↔ v = w :=
  ⟨hkind.eq_of_toText, congrArg toText⟩

/-- A value of such a kind has a text. -/
theorem SameKind.exists_text (hkind : v.SameKind w) : ∃ text, v.toText = some text := by
  cases hkind <;> exact ⟨_, by rw [toText]⟩

/-- Only null and the default marker have no text. -/
theorem toText_eq_none_iff : v.toText = none ↔ v = .null ∨ v = .default := by
  cases v <;> simp [toText]

/-- Of the values that a primary key may have, only the empty text and the empty decimal have an
    empty text. -/
theorem SameKind.toText_eq_empty_iff (hkind : v.SameKind w) :
    v.toText = some "" ↔ v = .text "" ∨ v = .decimal "" := by
  have hinteger {u : Value} {n : Int} (hu : u.integer? = some n) : u.toText ≠ some "" := by
    intro h
    rw [(text_of_integer hu).1, Option.some.injEq] at h
    obtain ⟨c, cs, hprint, _⟩ := Json.head_integer n
    have hdigits : (toString n).toList = c :: cs := hprint
    rw [h] at hdigits
    cases hdigits
  cases hkind with
  | bool a b => cases a <;> simp [toText]
  | smallInt a b => simpa using hinteger (u := .smallInt a) rfl
  | int a b => simpa using hinteger (u := .int a) rfl
  | bigInt a b => simpa using hinteger (u := .bigInt a) rfl
  | timestampTz a b => simpa using hinteger (u := .timestampTz a) rfl
  | text a b => simp [toText]
  | decimal a b => simp [toText]
  | bytes a b => simp [toText]
  | uuid a b => simp [toText, Uuid.text]

end Value

/-! ## §3. Matching keys. -/

/-- Among rows with primary keys of the kind of a key, the key finds a row that has it, and no
    other. -/
theorem FoundRow.byKey?_eq_some_iff {sql : String} {rows : List Row} {found : List FoundRow}
    (hfound : ofRows sql rows = .ok found) {key : Value} (hkey : key.SameKind key)
    (hkind : ∀ row ∈ rows, ∀ v, row.identityKey? = some v → v.toText ≠ none → key.SameKind v)
    {v : Value} :
    byKey? found key = some v ↔ v = key ∧ ∃ row ∈ rows, row.identityKey? = some key := by
  obtain ⟨text, htext⟩ := hkey.exists_text
  -- a row that is found by the text has the key
  have hrow {f : FoundRow} (hf : f ∈ found) (hsame : f.keyText = text) :
      f.key = key ∧ ∃ row ∈ rows, row.identityKey? = some key := by
    obtain ⟨hread, row, hmem, hanswered⟩ := of_mem_ofRows hfound hf
    have hkinds := hkind row hmem f.key hanswered (by rw [hread]; nofun)
    have heq : key = f.key := hkinds.eq_of_toText (by rw [htext, hread, hsame])
    exact ⟨heq.symm, row, hmem, by rw [heq]; exact hanswered⟩
  rw [byKey?, htext, Option.bind_some]
  constructor
  · intro h
    obtain ⟨f, hf, rfl⟩ := Option.map_eq_some_iff.mp h
    exact hrow (List.mem_reverse.mp (List.mem_of_find?_eq_some hf))
      (by simpa using List.find?_some hf)
  · rintro ⟨rfl, row, hmem, hanswered⟩
    obtain ⟨f, hf, hsame⟩ := of_ofRows hfound hmem hanswered htext
    cases hfind : found.reverse.find? fun f => f.keyText == text with
    | none =>
      have hother := List.find?_eq_none.mp hfind f (List.mem_reverse.mpr hf)
      exact absurd (beq_iff_eq.mpr hsame) hother
    | some g =>
      have hg := hrow (List.mem_reverse.mp (List.mem_of_find?_eq_some hfind))
        (by simpa using List.find?_some hfind)
      rw [Option.map_some, hg.1]

/-- Where carried keys are of the kind of what was found for them, the unresolved ones are those for
    which another key was found, or none. -/
theorem Resolution.mem_unresolvedSupplied_iff {r : Resolution}
    (hkind : ∀ (i : Nat) (key found : Value), r.supplied[i]? = some (some key) →
      r.existing[i]? = some (some found) → key.SameKind found) {i : Nat} {key : Value} :
    (i, key) ∈ r.unresolvedSupplied
      ↔ r.supplied[i]? = some (some key)
        ∧ ∃ existing, r.existing[i]? = some existing ∧ existing ≠ some key := by
  unfold unresolvedSupplied
  rw [List.mem_filterMap]
  constructor
  · rintro ⟨⟨⟨supplied, existing⟩, j⟩, hmem, hkey⟩
    obtain ⟨_, hunresolved, heq⟩ := Option.map_eq_some_iff.mp hkey
    cases heq
    obtain ⟨rfl, hother⟩ := unresolved?_eq_some.mp hunresolved
    obtain ⟨hsupplied, hexisting⟩ := List.getElem?_zip_eq_some.mp
      (List.mem_zipIdx_iff_getElem?.mp hmem)
    refine ⟨hsupplied, existing, hexisting, ?_⟩
    rintro rfl
    exact hother key rfl rfl
  · rintro ⟨hsupplied, existing, hexisting, hne⟩
    have hmem : ((some key, existing), i) ∈ (r.supplied.zip r.existing).zipIdx :=
      List.mem_zipIdx_iff_getElem?.mpr (List.getElem?_zip_eq_some.mpr ⟨hsupplied, hexisting⟩)
    refine ⟨_, hmem, Option.map_eq_some_iff.mpr ⟨key, unresolved?_eq_some.mpr ⟨rfl, ?_⟩, rfl⟩⟩
    rintro found rfl hsame
    exact hne (congrArg some ((hkind i key found hsupplied hexisting).eq_of_toText hsame.symm).symm)

/-- What is kept are the carried keys of children that have a text, with the links of their
    parents. -/
theorem mem_keptChildren_iff {ty : RecordType} {child : TableMetadata} {owner text : String} :
    ∀ {entries : List (List Value × Record)} {kept : List KeptChild},
      keptChildren ty child entries = .ok kept →
        ((owner, text) ∈ kept ↔ ∃ links r v, (links, r) ∈ entries ∧ LookupKey.ofTuple links = owner
          ∧ r.primaryKey ty child = .ok (some v) ∧ v.toText = some text)
  | [], kept, h => by
    cases h
    simp
  | (links, r) :: rest, kept, h => by
    obtain ⟨key, hkey, h⟩ := Outcome.ok_of_bind h
    obtain ⟨others, hothers, h⟩ := Outcome.ok_of_bind h
    have hrest : (owner, text) ∈ others ↔ _ := mem_keptChildren_iff hothers
    -- the first child is kept if its key has a text
    have hkept : (owner, text) ∈ kept
        ↔ (LookupKey.ofTuple links = owner ∧ key.bind Value.toText = some text)
          ∨ (owner, text) ∈ others := by
      split at h
      next found hfound =>
        cases h
        rw [hfound]
        simp [eq_comm]
      next hnone =>
        cases h
        simp [hnone]
    rw [hkept, hrest]
    constructor
    · rintro (⟨howner, htext⟩ | ⟨links', r', v, hmem, hothers⟩)
      · obtain ⟨v, rfl, hv⟩ := Option.bind_eq_some_iff.mp htext
        exact ⟨links, r, v, List.mem_cons_self, howner, hkey, hv⟩
      · exact ⟨links', r', v, List.mem_cons_of_mem _ hmem, hothers⟩
    · rintro ⟨links', r', v, hmem, howner, hv, htext⟩
      rcases List.mem_cons.mp hmem with heq | hmem
      · cases heq
        rw [hkey] at hv
        cases hv
        exact .inl ⟨howner, htext⟩
      · exact .inr ⟨links', r', v, hmem, howner, hv, htext⟩

/-- Where an answered row has a key of the kind of those that the children carry, it is an orphan
    just when it is an owner's and no child with its links carries its key. -/
theorem orphanKey?_eq_some_iff {ty : RecordType} {child : TableMetadata}
    {entries : List (List Value × Record)} {kept : List KeptChild}
    (hkept : keptChildren ty child entries = .ok kept) {row : Row} {id : Value}
    (hrow : row.get? 0 = some id) (hid : id.SameKind id)
    (hkind : ∀ links r v, (links, r) ∈ entries → r.primaryKey ty child = .ok (some v) →
      id.SameKind v) {count : Nat} {owners : List String} :
    orphanKey? count owners kept row = some id
      ↔ LookupKey.ofTuple (row.linkColumns count) ∈ owners
        ∧ ∀ links r, (links, r) ∈ entries →
          LookupKey.ofTuple links = LookupKey.ofTuple (row.linkColumns count) →
            r.primaryKey ty child ≠ .ok (some id) := by
  have hnull : id.isNull = false := by cases hid <;> rfl
  -- a kept text is that of the row's key just when a child carries the key
  have hcarried : (id.toText.any fun text =>
      kept.contains (LookupKey.ofTuple (row.linkColumns count), text)) = true
        ↔ ∃ links r, (links, r) ∈ entries
          ∧ LookupKey.ofTuple links = LookupKey.ofTuple (row.linkColumns count)
          ∧ r.primaryKey ty child = .ok (some id) := by
    simp only [Option.any_eq_true, List.contains_iff_mem, mem_keptChildren_iff hkept]
    constructor
    · rintro ⟨text, htext, links, r, v, hmem, howner, hv, hvtext⟩
      have heq : id = v := (hkind links r v hmem hv).eq_of_toText (htext.trans hvtext.symm)
      exact ⟨links, r, hmem, howner, heq ▸ hv⟩
    · rintro ⟨links, r, hmem, howner, hv⟩
      obtain ⟨text, htext⟩ := hid.exists_text
      exact ⟨text, htext, links, r, id, hmem, howner, hv, htext⟩
  rw [orphanKey?_of_key hrow hnull]
  split
  next howned =>
    rw [List.contains_iff_mem] at howned
    split
    next hkeep =>
      obtain ⟨links, r, hmem, howner, hv⟩ := hcarried.mp hkeep
      refine ⟨nofun, fun h => absurd hv (h.2 links r hmem howner)⟩
    next hgone =>
      refine ⟨fun _ => ⟨howned, fun links r hmem howner hv => ?_⟩, fun _ => rfl⟩
      exact hgone (hcarried.mpr ⟨links, r, hmem, howner, hv⟩)
  next hother =>
    rw [List.contains_iff_mem] at hother
    exact ⟨nofun, fun h => absurd h.1 hother⟩

/-- Among values of one kind, of those that a primary key may have, a text stands for one value.
    Only null and the default marker have no text, and only the empty text and the empty decimal an
    empty one. So wherever primary keys of one kind are matched by their texts, they are matched by
    themselves: a carried key finds itself among the answered rows if one of them has it, and
    nothing otherwise; a carried key is unresolved if another key was found, or none; and a row is
    an orphan of an owner if no child with its links carries its key. -/
theorem keys_match_by_value :
    (∀ v w : Value, v.SameKind w → (v.toText = w.toText ↔ v = w))
      ∧ (∀ v : Value, v.toText = none ↔ v = .null ∨ v = .default)
      ∧ (∀ v : Value, v.SameKind v → (v.toText = some "" ↔ v = .text "" ∨ v = .decimal ""))
      ∧ (∀ (sql : String) (rows : List Row) (found : List FoundRow) (key : Value),
          FoundRow.ofRows sql rows = .ok found → key.SameKind key →
          (∀ row ∈ rows, ∀ v, row.identityKey? = some v → v.toText ≠ none → key.SameKind v) →
            ∀ v, FoundRow.byKey? found key = some v
              ↔ v = key ∧ ∃ row ∈ rows, row.identityKey? = some key)
      ∧ (∀ r : Resolution,
          (∀ (i : Nat) (key found : Value), r.supplied[i]? = some (some key) →
            r.existing[i]? = some (some found) → key.SameKind found) →
            ∀ i key, (i, key) ∈ r.unresolvedSupplied ↔ r.supplied[i]? = some (some key)
              ∧ ∃ existing, r.existing[i]? = some existing ∧ existing ≠ some key)
      ∧ ∀ (ty : RecordType) (child : TableMetadata) (entries : List (List Value × Record))
          (kept : List KeptChild) (row : Row) (id : Value),
          keptChildren ty child entries = .ok kept → row.get? 0 = some id → id.SameKind id →
          (∀ links r v, (links, r) ∈ entries → r.primaryKey ty child = .ok (some v) →
            id.SameKind v) →
            ∀ count owners, orphanKey? count owners kept row = some id
              ↔ LookupKey.ofTuple (row.linkColumns count) ∈ owners
                ∧ ∀ links r, (links, r) ∈ entries →
                  LookupKey.ofTuple links = LookupKey.ofTuple (row.linkColumns count) →
                    r.primaryKey ty child ≠ .ok (some id) := by
  refine ⟨fun v w hkind => hkind.toText_eq_iff, fun v => Value.toText_eq_none_iff,
    fun v hkind => hkind.toText_eq_empty_iff, ?_, ?_, ?_⟩
  · intro sql rows found key hfound hkey hkind v
    exact FoundRow.byKey?_eq_some_iff hfound hkey hkind
  · intro r hkind i key
    exact Resolution.mem_unresolvedSupplied_iff hkind
  · intro ty child entries kept row id hkept hrow hid hkind count owners
    exact orphanKey?_eq_some_iff hkept hrow hid hkind

/-- Of the rows 4 and 5 a record that carries the key 5 is found, and one that carries -5 is not.
    A record that was found by its lookup key is resolved to its own row only if that has the key
    which it carries. Of the rows 12 and 13 of a widget's parts the second is an orphan, when the
    first is a child's. -/
theorem keys_match_by_value_five :
    let answered (id : Int64) : Row := ⟨["__pk"], [.bigInt id]⟩
    let found : List FoundRow := [⟨.bigInt 4, "4", none⟩, ⟨.bigInt 5, "5", none⟩]
    let r : Resolution :=
      ⟨[some (.bigInt 5), some (.bigInt 5)], [some (.bigInt 5), some (.bigInt (-5))]⟩
    let owner := LookupKey.ofTuple [.bigInt 5]
    let part (id : Int64) : Row := ⟨["id", "widget_id"], [.bigInt id, .bigInt 5]⟩
    FoundRow.ofRows "" [answered 4, answered 5] = .ok found
      ∧ FoundRow.byKey? found (.bigInt 5) = some (.bigInt 5)
      ∧ FoundRow.byKey? found (.bigInt (-5)) = none
      ∧ (0, .bigInt 5) ∉ r.unresolvedSupplied ∧ (1, .bigInt (-5)) ∈ r.unresolvedSupplied
      ∧ keptChildren Example.part Example.partMetadata
          [([.bigInt 5], ⟨[("id", .bigInt 12)], none, []⟩)] = .ok [(owner, "12")]
      ∧ orphanKey? 1 [owner] [(owner, "12")] (part 12) ≠ some (.bigInt 12)
      ∧ orphanKey? 1 [owner] [(owner, "12")] (part 13) = some (.bigInt 13) := by
  intro answered found r owner part
  have hfound : FoundRow.ofRows "" [answered 4, answered 5] = .ok found := rfl
  have hrows (n : Int64) : ∀ row ∈ [answered 4, answered 5], ∀ v, row.identityKey? = some v →
      v.toText ≠ none → (Value.bigInt n).SameKind v := by
    intro row hrow v hv _
    rcases List.mem_pair.mp hrow with rfl | rfl <;> cases hv <;> exact .bigInt _ _
  have hmatches (n : Int64) (v : Value) := keys_match_by_value.2.2.2.1 "" _ found (.bigInt n) hfound
    (.bigInt n n) (hrows n) v
  have hkind : ∀ (i : Nat) (key found : Value), r.supplied[i]? = some (some key) →
      r.existing[i]? = some (some found) → key.SameKind found := by
    intro i key found hkey hfound
    match i with
    | 0 | 1 =>
      cases hkey
      cases hfound
      exact .bigInt _ _
    | _ + 2 => cases hkey
  have hmatched := keys_match_by_value.2.2.2.2.1 r hkind
  have hkept : keptChildren Example.part Example.partMetadata
      [([.bigInt 5], ⟨[("id", .bigInt 12)], none, []⟩)] = .ok [(owner, "12")] := by decide +kernel
  have hcarried (n : Int64) : ∀ links c v,
      (links, c) ∈ [([Value.bigInt 5], (⟨[("id", .bigInt 12)], none, []⟩ : Record))] →
        c.primaryKey Example.part Example.partMetadata = .ok (some v) →
          (Value.bigInt n).SameKind v := by
    intro links c v hmem hv
    cases List.mem_singleton.mp hmem
    cases hv
    exact .bigInt _ _
  have horphan (n : Int64) := keys_match_by_value.2.2.2.2.2 Example.part Example.partMetadata _ _
    (part n) (.bigInt n) hkept rfl (.bigInt n n) (hcarried n) 1 [owner]
  refine ⟨hfound, ?five, ?minusFive, ?own, ?other, hkept, ?kept, ?orphan⟩
  case five => exact (hmatches 5 _).mpr ⟨rfl, answered 5, by simp, rfl⟩
  case minusFive =>
    rw [Option.eq_none_iff_forall_ne_some]
    intro v hv
    obtain ⟨_, row, hrow, hkey⟩ := (hmatches (-5) v).mp hv
    rcases List.mem_pair.mp hrow with rfl | rfl <;> cases hkey
  case own =>
    intro hmem
    obtain ⟨_, _, hexisting, hne⟩ := (hmatched 0 _).mp hmem
    cases hexisting
    exact hne rfl
  case other =>
    refine (hmatched 1 _).mpr ⟨rfl, _, rfl, fun h => ?_⟩
    cases h
  case kept =>
    intro hpicked
    exact ((horphan 12).mp hpicked).2 _ _ (List.mem_singleton.mpr rfl) rfl rfl
  case orphan =>
    refine (horphan 13).mpr ⟨List.mem_singleton.mpr rfl, fun links c hmem _ hcarries => ?_⟩
    cases List.mem_singleton.mp hmem
    cases hcarries

end TenantTree
