/-
  TenantTree.Codec — between what a field holds and what its column stores.

  A document column stores a JSON document and is left out where there is nothing to store; an
  encrypted column stores the base64 text of the sealed bytes, never the plain value.
-/
import TenantTree.Cipher.Basic
import TenantTree.Metadata.Basic
import TenantTree.Record
import TenantTree.Row
import TenantTree.Text.Base64

namespace TenantTree

/-- A cipher and the key to use it with, if there is one. -/
structure ColumnCodec where
  cipher : Cipher
  key : Option (List UInt8)

namespace ColumnCodec

/-! ## §1. Sealed texts. -/

/-- Bytes sealed, as base64 text. -/
def lock (codec : ColumnCodec) (plain : List UInt8) : Except CodecFault String :=
  match codec.key with
  | none => .error .missingKey
  | some key =>
    (codec.cipher.encrypt plain key).map fun text => String.ofList (Text.Base64.encode text)

/-- The bytes that a sealed text holds. -/
def unlock (codec : ColumnCodec) (stored : String) : Except CodecFault (List UInt8) :=
  match codec.key with
  | none => .error .missingKey
  | some key =>
    match Text.Base64.decode? stored.toList with
    | none => .error (.base64 (Text.Base64.diagnose (Text.utf8 stored)).message)
    | some text => codec.cipher.decrypt text key

/-! ## §2. Columns. -/

/-- A failure that belongs to a column. -/
def failure {α : Type} (table : String) (column : ColumnMeta) (fault : CodecFault) :
    Except Error α :=
  .error (.codec ⟨table, column.column, fault⟩)

/-- An outcome whose failure belongs to a column. -/
def inColumn {α : Type} (table : String) (column : ColumnMeta) (outcome : Except CodecFault α) :
    Except Error α :=
  match outcome with
  | .ok a => .ok a
  | .error fault => failure table column fault

/-- What a document column stores for a value; none when there is nothing to store. A value that is
    no document is stored as it is. -/
def encodeDocument (codec : ColumnCodec) (table : String) (column : ColumnMeta) :
    Value → Except Error (Option Value)
  | .null => .ok none
  | .json j =>
    if j.isNull || j.isEmptyArray then .ok none
    else if column.encrypted then
      (inColumn table column (codec.lock (Text.utf8 j.text))).map fun s => some (.text s)
    else .ok (some (.json j))
  | other => .ok (some other)

/-- What a column stores for a value; none when the column is to be left out. -/
def encode (codec : ColumnCodec) (table : String) (column : ColumnMeta) (v : Value) :
    Except Error (Option Value) :=
  if column.jsonb then encodeDocument codec table column v
  else if column.encrypted then
    match v with
    | .null => .ok (some .null)
    | .text s => (inColumn table column (codec.lock (Text.utf8 s))).map fun s => some (.text s)
    | other => failure table column (.unsupported other.typeName)
  else .ok (some v)

/-- The value for what is read as a document. -/
def ofDocument (table : String) (column : ColumnMeta) (outcome : Except String Json) :
    Except Error Value :=
  match outcome with
  | .ok j => .ok (.json j)
  | .error detail => failure table column (.json detail)

/-- The value of a field for what an encrypted column stores. -/
def decodeSealed (codec : ColumnCodec) (table : String) (column : ColumnMeta) :
    Value → Except Error Value
  | .text stored => do
    let plain ← inColumn table column (codec.unlock stored)
    if column.jsonb then ofDocument table column (Json.parseBytes plain)
    else
      match Text.ofUtf8? plain with
      | some s => return .text s
      | none => failure table column .utf8
  | other => failure table column (.notText other.typeName)

/-- The value of a field for what a document column stores. -/
def decodeDocument (table : String) (column : ColumnMeta) : Value → Except Error Value
  | .json j => .ok (.json j)
  | .text s => ofDocument table column (Json.parse s)
  | .bytes b => ofDocument table column (Json.parseBytes b)
  | other => failure table column (.json ("cannot read JSON from " ++ other.typeName))

/-- The value of a field for what its column stores. -/
def decode (codec : ColumnCodec) (table : String) (column : ColumnMeta) (v : Value) :
    Except Error Value :=
  if v.isNull then .ok .null
  else if column.encrypted then decodeSealed codec table column v
  else if column.jsonb then decodeDocument table column v
  else .ok v

/-! ## §3. Records and listings. -/

/-- A record with one column of a row taken over, when the row has it. -/
def hydrateColumn (codec : ColumnCodec) (ty : RecordType) (table : String) (row : Row)
    (column : ColumnMeta) (r : Record) : Except Error Record :=
  match row.getNamed? column.column with
  | none => .ok r
  | some stored => do
    let v ← codec.decode table column stored
    r.set ty column.field v

/-- A record with the columns of a row taken over, and the failure that ended it early, if any. -/
def hydrate (codec : ColumnCodec) (ty : RecordType) (table : String) (row : Row) :
    List ColumnMeta → Record → Record × Except Error Unit
  | [], r => (r, .ok ())
  | column :: rest, r =>
    match hydrateColumn codec ty table row column r with
    | .ok r => hydrate codec ty table row rest r
    | .error e => (r, .error e)

/-- The codec in a listing, its key hidden. -/
def listing (codec : ColumnCodec) : String :=
  let key := if codec.key.isSome then "Some(\"<redacted>\")" else "None"
  "ColumnCodec \x7b key: " ++ key ++ ", .. \x7d"

end ColumnCodec

end TenantTree
