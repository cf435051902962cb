/-
  TenantTree.Proofs.Codec — what a column stores for a value, and what it gives back.

  A sealed document reads back from its text (§1). Decoding undoes encoding, for whatever a column
  stores at all (§2): a column stores nothing just for what it skips, and what it stores for a value
  of its field's domain decodes to that value. Without a key an encrypted column refuses whatever it
  would seal or open (§3); the two together are `gives_back_or_refuses` (§4).
-/
import TenantTree.Proofs.Bytes
import TenantTree.Proofs.Document
import TenantTree.Proofs.Secrecy

namespace TenantTree

/-! ## §1. Documents. -/

/-- A document that a sealed text can hold: in canonical form, without a number that is no integer,
    nested no deeper than a reader follows. -/
structure Json.Readable (j : Json) : Prop where
  /-- Its text reads back. -/
  legible : j.Legible Json.depthLimit
  /-- Its members are in order, each key once. -/
  canonical : j.canonical = j

/-- The text of a readable document reads as that document. -/
theorem Json.Readable.parse_text {j : Json} (h : j.Readable) : Json.parse j.text = .ok j := by
  rw [Json.parse_text h.legible, h.canonical]

/-- The bytes of a text are read as the text is. -/
theorem Json.parseBytes_utf8 (s : String) : Json.parseBytes (Text.utf8 s) = Json.parse s := by
  rw [parseBytes, Text.ofUtf8?_utf8]

/-- Other bytes are refused where they stand, or in a string where it ends. -/
example : Json.parseBytes [0xff] = .error "expected value at line 1 column 1" := by rfl

example : Json.parseBytes [0x22, 0xff, 0x22]
    = .error "invalid unicode code point at line 1 column 3" := by rfl

/-! ## §2. Columns. -/

/-- Whether a column stores nothing for a value: a document column does so for null and for an
    empty sequence. -/
def ColumnMeta.skips (column : ColumnMeta) : Value → Bool
  | .null => column.jsonb
  | .json j => column.jsonb && (j.isNull || j.isEmptyArray)
  | _ => false

/-- A document column skips null, the null document and the empty sequence, and no other column
    skips anything. -/
theorem ColumnMeta.skips_iff {column : ColumnMeta} {v : Value} :
    column.skips v = true
      ↔ column.jsonb = true ∧ (v = .null ∨ v = .json .null ∨ v = .json (.array [])) := by
  unfold ColumnMeta.skips
  split
  · simp
  next j =>
    have hempty : (j.isNull || j.isEmptyArray) = true ↔ j = .null ∨ j = .array [] := by
      rw [Bool.or_eq_true]
      unfold Json.isNull Json.isEmptyArray
      split <;> split <;> simp_all
    simp [hempty]
  next hnull hjson =>
    have hdocument : ¬ (v = .null ∨ v = .json .null ∨ v = .json (.array [])) := by
      rintro (rfl | rfl | rfl)
      · exact hnull rfl
      · exact hjson _ rfl
      · exact hjson _ rfl
    simp [hdocument]

/-- What the field of a column holds: nothing; a document in a document column, which is readable if
    it is sealed; a text in another encrypted column; and anything in a plain one. -/
inductive ColumnMeta.Holds (column : ColumnMeta) : Value → Prop where
  | nothing : Holds column .null
  | document {j : Json} (hjsonb : column.jsonb = true)
      (hreadable : column.encrypted = true → j.Readable) : Holds column (.json j)
  | text {s : String} (hjsonb : column.jsonb = false) : Holds column (.text s)
  | plain {v : Value} (hjsonb : column.jsonb = false) (hencrypted : column.encrypted = false) :
      Holds column v

namespace ColumnCodec

/-- The cipher opens under the key what it seals under it. -/
def Opens (codec : ColumnCodec) : Prop :=
  ∀ key, codec.key = some key → ∀ plain sealed, codec.cipher.encrypt plain key = .ok sealed →
    codec.cipher.decrypt sealed key = .ok plain

variable {codec : ColumnCodec} {table : String} {column : ColumnMeta} {v stored : Value}

/-- Bytes that are locked can be unlocked. -/
theorem unlock_of_lock (hopens : codec.Opens) {plain : List UInt8} {sealed : String}
    (h : codec.lock plain = .ok sealed) : codec.unlock sealed = .ok plain := by
  unfold lock at h
  unfold unlock
  cases hkey : codec.key with
  | none =>
    rw [hkey] at h
    cases h
  | some key =>
    rw [hkey] at h
    obtain ⟨text, htext, hsealed⟩ := Outcome.ok_of_map h
    dsimp only
    rw [← hsealed, String.toList_ofList, Text.Base64.decode?_encode]
    exact hopens key hkey plain text htext

/-- A column stores nothing just for what it skips. -/
theorem encode_eq_none_iff : codec.encode table column v = .ok none ↔ column.skips v = true := by
  constructor
  · intro h
    unfold encode at h
    split at h
    next hjsonb =>
      unfold encodeDocument at h
      split at h
      · exact hjsonb
      next j =>
        split at h
        next hempty => simp [ColumnMeta.skips, hjsonb, hempty]
        next =>
          split at h
          · obtain ⟨_, _, hsome⟩ := inColumn_lock_ok h
            cases hsome
          · cases h
      · cases h
    next =>
      split at h
      · split at h
        · cases h
        · obtain ⟨_, _, hsome⟩ := inColumn_lock_ok h
          cases hsome
        · cases h
      · cases h
  · intro h
    unfold ColumnMeta.skips at h
    split at h
    · unfold encode
      rw [if_pos h]
      rfl
    · rw [Bool.and_eq_true] at h
      unfold encode
      rw [if_pos h.1, encodeDocument, if_pos h.2]
    · cases h

/-- A text that an encrypted column stores is opened. -/
theorem decode_text (hencrypted : column.encrypted = true) (s : String) :
    codec.decode table column (.text s) = codec.decodeSealed table column (.text s) := by
  have hsome : ¬ (Value.text s).isNull = true := Bool.false_ne_true
  rw [decode, if_neg hsome, if_pos hencrypted]

/-- What a column stores decodes to the value it was stored for, where a document column holds a
    document, which is readable if it is sealed. -/
theorem decode_of_encode (hopens : codec.Opens)
    (hdocument : column.jsonb = true → ∃ j, v = .json j ∧ (column.encrypted = true → j.Readable))
    (h : codec.encode table column v = .ok (some stored)) :
    codec.decode table column stored = .ok v := by
  cases hencrypted : column.encrypted with
  | true =>
    -- a text that seals the value is unlocked, and then read
    have hsealed {plain : List UInt8} {sealed : String} (hlock : codec.lock plain = .ok sealed) :
        codec.decode table column (.text sealed)
          = if column.jsonb then ofDocument table column (Json.parseBytes plain)
            else (Text.ofUtf8? plain).elim (failure table column .utf8) fun s => .ok (.text s) := by
      rw [decode_text hencrypted, decodeSealed, unlock_of_lock hopens hlock]
      show (if column.jsonb then _ else _) = _
      cases Text.ofUtf8? plain <;> rfl
    cases encode_encrypted_iff hencrypted |>.mp h with
    | null hplain => rfl
    | @text s sealed hplain hlock =>
      rw [hsealed hlock, hplain, Text.ofUtf8?_utf8]
      rfl
    | @document j sealed hjsonb hsome hlock =>
      obtain ⟨_, hj, hreadable⟩ := hdocument hjsonb
      cases hj
      rw [hsealed hlock, hjsonb, if_pos rfl, Json.parseBytes_utf8,
        (hreadable hencrypted).parse_text]
      rfl
    | clear hjsonb hv =>
      obtain ⟨_, rfl, _⟩ := hdocument hjsonb
      cases hv
  | false =>
    unfold encode at h
    unfold decode
    rw [hencrypted] at h ⊢
    cases hjsonb : column.jsonb with
    | true =>
      obtain ⟨j, rfl, _⟩ := hdocument hjsonb
      rw [hjsonb, if_pos rfl, encodeDocument, hencrypted] at h
      split at h
      · cases h
      · cases h
        rfl
    | false =>
      rw [hjsonb] at h
      cases h
      cases v <;> rfl

/-! ## §3. Keys. -/

/-- Whatever is to be sealed can be. -/
def Locks (codec : ColumnCodec) : Prop := ∀ plain, ∃ sealed, codec.lock plain = .ok sealed

/-- A column with nothing to seal stores every value of its field's domain, and one with something
    to seal does so where it can be sealed. -/
theorem encode_ok (hlocks : column.encrypted = true → codec.Locks) (hv : column.Holds v) :
    ∃ found, codec.encode table column v = .ok found := by
  unfold encode
  cases hjsonb : column.jsonb with
  | true =>
    rw [if_pos rfl]
    unfold encodeDocument
    split
    · exact ⟨none, rfl⟩
    next j =>
      split_ifs with hempty hencrypted
      · exact ⟨none, rfl⟩
      · obtain ⟨sealed, hsealed⟩ := hlocks hencrypted (Text.utf8 j.text)
        rw [hsealed]
        exact ⟨_, rfl⟩
      · exact ⟨_, rfl⟩
    · exact ⟨_, rfl⟩
  | false =>
    rw [if_neg Bool.false_ne_true]
    split_ifs with hencrypted
    · cases hv with
      | nothing => exact ⟨_, rfl⟩
      | document hdocument => cases hdocument.symm.trans hjsonb
      | @text s =>
        obtain ⟨sealed, hsealed⟩ := hlocks hencrypted (Text.utf8 s)
        dsimp only
        rw [hsealed]
        exact ⟨_, rfl⟩
      | plain _ hplain => cases hplain.symm.trans hencrypted
    · exact ⟨_, rfl⟩

/-- The refusal of an encrypted column for want of a key. -/
theorem encode_missingKey (hkey : codec.key = none) (hencrypted : column.encrypted = true)
    (hv : column.Holds v) (hsome : v ≠ .null) (hskips : column.skips v = false) :
    codec.encode table column v = failure table column .missingKey := by
  have hlock (plain : List UInt8) : codec.lock plain = .error .missingKey := by
    unfold lock
    rw [hkey]
  unfold encode
  cases hv with
  | nothing => exact absurd rfl hsome
  | @document j hjsonb =>
    have hempty : ¬ (j.isNull || j.isEmptyArray) = true := by
      simpa [ColumnMeta.skips, hjsonb] using hskips
    rw [if_pos hjsonb, encodeDocument, if_neg hempty, if_pos hencrypted, hlock]
    rfl
  | text hjsonb =>
    rw [hjsonb, if_neg Bool.false_ne_true, if_pos hencrypted]
    dsimp only
    rw [hlock]
    rfl
  | plain _ hplain => cases hplain.symm.trans hencrypted

/-- Without a key an encrypted column refuses a stored text for want of it. -/
theorem decode_missingKey (hkey : codec.key = none) (hencrypted : column.encrypted = true)
    (s : String) : codec.decode table column (.text s) = failure table column .missingKey := by
  have hunlock : codec.unlock s = .error .missingKey := by
    unfold unlock
    rw [hkey]
  rw [decode_text hencrypted, decodeSealed, hunlock]
  rfl

/-- An encrypted column refuses whatever else is stored in it, null apart, with a key or without. -/
theorem decode_notText (hencrypted : column.encrypted = true) (hsome : stored ≠ .null)
    (htext : ∀ s, stored ≠ .text s) :
    codec.decode table column stored = failure table column (.notText stored.typeName) := by
  unfold decode
  rw [if_pos hencrypted]
  cases stored with
  | null => exact absurd rfl hsome
  | text s => exact absurd rfl (htext s)
  | _ => rfl

end ColumnCodec

/-! ## §4. What is given back. -/

/-- A mask that is added twice is gone. -/
theorem Cipher.addKey_addKey (key text : List UInt8) : addKey key (addKey key text) = text := by
  unfold addKey
  rw [List.mapIdx_mapIdx]
  refine List.ext_getElem (by simp) fun i _ _ => ?_
  rw [List.getElem_mapIdx, Function.comp_apply, UInt8.xor_assoc, UInt8.xor_self, UInt8.xor_zero]

/-- The marked mask opens what it seals. -/
theorem ColumnCodec.opens_marked (key : Option (List UInt8)) :
    ColumnCodec.Opens ⟨Cipher.marked, key⟩ := by
  intro key _ plain sealed h
  unfold Cipher.marked at h ⊢
  dsimp only at h ⊢
  split at h
  · cases h
  next hsome =>
    split at h
    · cases h
    · cases h
      rw [if_neg hsome]
      dsimp only
      rw [if_pos rfl, Cipher.addKey_addKey]

namespace ColumnCodec

variable {codec : ColumnCodec} {column : ColumnMeta} {v : Value}

/-- A column stores nothing just for an empty document, or for null where it holds documents, and
    gives back whatever else it stores. Every value of the domain can be stored, unless something is
    to be sealed that cannot be. An encrypted column without a key refuses, for want of it, all
    values but null and those for which it stores nothing, and all stored texts; it refuses anything
    else that may be stored, null apart, as no text. -/
theorem gives_back_or_refuses (hopens : codec.Opens) (hv : column.Holds v) (table : String) :
    (codec.encode table column v = .ok none
        ↔ column.jsonb = true ∧ (v = .null ∨ v = .json .null ∨ v = .json (.array [])))
      ∧ (∀ stored, codec.encode table column v = .ok (some stored) →
          codec.decode table column stored = .ok v)
      ∧ ((column.encrypted = true → codec.Locks) →
          ∃ found, codec.encode table column v = .ok found)
      ∧ (column.encrypted = true → codec.key = none →
          (v ≠ .null → codec.encode table column v ≠ .ok none →
            codec.encode table column v
              = .error (.codec ⟨table, column.column, .missingKey⟩))
          ∧ (∀ s, codec.decode table column (.text s)
              = .error (.codec ⟨table, column.column, .missingKey⟩))
          ∧ ∀ stored, stored ≠ .null → (∀ s, stored ≠ .text s) →
              codec.decode table column stored
                = .error (.codec ⟨table, column.column, .notText stored.typeName⟩)) := by
  refine ⟨?_, fun stored hstored => ?_, fun hlocks => encode_ok hlocks hv,
    fun hencrypted hkey => ⟨fun hsome hstores => ?_, decode_missingKey hkey hencrypted,
      fun _ => decode_notText hencrypted⟩⟩
  · rw [encode_eq_none_iff, ColumnMeta.skips_iff]
  · refine decode_of_encode hopens (fun hjsonb => ?_) hstored
    cases hv with
    | nothing =>
      -- a document column stores nothing for null
      have hnone : codec.encode table column .null = .ok none :=
        encode_eq_none_iff.mpr (ColumnMeta.skips_iff.mpr ⟨hjsonb, .inl rfl⟩)
      cases hnone.symm.trans hstored
    | document _ hreadable => exact ⟨_, rfl, hreadable⟩
    | text hplain => cases hplain.symm.trans hjsonb
    | plain hplain => cases hplain.symm.trans hjsonb
  · refine encode_missingKey hkey hencrypted hv hsome ?_
    rw [← Bool.not_eq_true]
    exact fun hskips => hstores (encode_eq_none_iff.mpr hskips)

/-- A document with a nested sequence is sealed under a key, and opened again. -/
theorem gives_back_sealed_document :
    let codec : ColumnCodec := ⟨Cipher.marked, some [1, 2, 3]⟩
    let column : ColumnMeta := ⟨"payload", "payload", .data, false, true, true, none⟩
    let v : Value := .json (.object [("k", .array [.string "é\"", .number (.int (-3))])])
    codec.Opens ∧ column.Holds v
      ∧ ∃ sealed, codec.encode "vault" column v = .ok (some (.text sealed))
        ∧ codec.decode "vault" column (.text sealed) = .ok v := by
  intro codec column v
  have hv : column.Holds v := by
    refine .document rfl fun _ => ⟨.object fun member hmember => ?_, rfl⟩
    rw [List.mem_singleton.mp hmember]
    refine .array fun item hitem => ?_
    rcases List.mem_cons.mp hitem with rfl | hitem
    · exact .string _ _
    · rw [List.mem_singleton.mp hitem]
      exact .integer _ ⟨by decide, by decide⟩
  obtain ⟨sealed, hsealed⟩ :
      ∃ sealed, codec.encode "vault" column v = .ok (some (.text sealed)) := ⟨_, rfl⟩
  have hopens : codec.Opens := opens_marked _
  obtain ⟨_, hgiven, _⟩ := gives_back_or_refuses hopens hv "vault"
  exact ⟨hopens, hv, sealed, hsealed, hgiven _ hsealed⟩

/-- Without a key an encrypted column of documents does not refuse the empty sequence, which is no
    null, since it stores nothing for it; and a stored number is refused as no text. -/
theorem stores_nothing_without_key :
    let codec : ColumnCodec := ⟨Cipher.marked, none⟩
    let column : ColumnMeta := ⟨"payload", "payload", .data, false, true, true, none⟩
    let empty : Value := .json (.array [])
    codec.Opens ∧ column.Holds empty ∧ empty ≠ .null
      ∧ codec.encode "vault" column empty = .ok none
      ∧ codec.encode "vault" column empty ≠ .error (.codec ⟨"vault", "payload", .missingKey⟩)
      ∧ codec.decode "vault" column (.bigInt 4)
        = .error (.codec ⟨"vault", "payload", .notText "BIGINT"⟩) := by
  intro codec column empty
  have hempty : column.Holds empty :=
    .document rfl fun _ => ⟨.array (List.forall_mem_nil _), rfl⟩
  exact ⟨opens_marked none, hempty, nofun, rfl, nofun, rfl⟩

end ColumnCodec

end TenantTree
