/-
  TenantTree.Config — the settings of a deployer.

  Settings come from two named variables: the batch size as an unsigned 64-bit number, and the key
  as base64 of thirty-two bytes, blanks around either ignored. A batch size of zero counts as one.
-/
import TenantTree.Cipher.Basic
import TenantTree.Event
import TenantTree.Number.Reading
import TenantTree.Text.Base64
import TenantTree.Text.Blank
import TenantTree.Text.Bytes

namespace TenantTree

/-- The settings of a deployer. -/
structure DeployConfig where
  /-- The most rows of one insert, and the most orphans of one deletion. -/
  batchSize : Nat
  encryptionKey : Option (List UInt8)
  /-- Whether required fields are checked. -/
  validateRequired : Bool
  deriving DecidableEq, Repr

namespace DeployConfig

/-- A thousand rows, no key, required fields checked. -/
def standard : DeployConfig := ⟨1000, none, true⟩

/-- The settings with another batch size; zero counts as one. -/
def withBatchSize (c : DeployConfig) (size : Nat) : DeployConfig :=
  { c with batchSize := max size 1 }

/-- The number of rows that statements of a batch may have; never zero. -/
def chunkSize (c : DeployConfig) : Nat := max c.batchSize 1

/-- The variable that holds the batch size. -/
def batchSizeVariable : String := "TENANTRY_BATCH_SIZE"

/-- The variable that holds the key. -/
def keyVariable : String := "TENANTRY_ENCRYPTION_KEY"

/-- The unsigned 64-bit number that a text writes, an optional plus before its digits. -/
def readSize? (s : String) : Option Nat :=
  let digits := match s.toList with
    | '+' :: rest => rest
    | other => other
  if digits ≠ [] ∧ digits.all isDecimalDigit ∧ ofDigits digits < UInt64.size then
    some (ofDigits digits)
  else none

/-- The settings with the batch size that a variable holds. -/
def readBatchSize (c : DeployConfig) : Option String → Except Error DeployConfig
  | none => .ok c
  | some raw =>
    match readSize? (Text.trim raw) with
    | some size => .ok (c.withBatchSize size)
    | none => .error (.config (.batchSize batchSizeVariable raw))

/-- The settings with the key that a variable holds. -/
def readKey (c : DeployConfig) : Option String → Except Error DeployConfig
  | none => .ok c
  | some raw =>
    let text := Text.trim raw
    match Text.Base64.decode? text.toList with
    | none =>
      let fault := Text.Base64.diagnose (Text.utf8 text)
      .error (.config (.keyText keyVariable fault.message))
    | some key =>
      if key.length = Cipher.keyLength then .ok { c with encryptionKey := some key }
      else .error (.config (.keyLength keyVariable Cipher.keyLength key.length))

/-- The standard settings with what the variables hold. -/
def ofVariables (lookup : String → Option String) : Except Error DeployConfig := do
  let c ← readBatchSize standard (lookup batchSizeVariable)
  readKey c (lookup keyVariable)

/-- The event of settings that were read. -/
def readEvent (c : DeployConfig) : Event := .configured c.batchSize c.encryptionKey.isSome

/-- The settings in a listing, the key hidden. -/
def listing (c : DeployConfig) : String :=
  let key := if c.encryptionKey.isSome then "Some(\"<redacted>\")" else "None"
  "DeployConfig \x7b batch_size: " ++ toString c.batchSize ++ ", encryption_key: " ++ key
    ++ ", validate_required: " ++ (if c.validateRequired then "true" else "false") ++ " \x7d"

end DeployConfig

end TenantTree
