/-
  TenantTree.Cipher.Basic — ciphers for columns, and two of them.

  A cipher seals and opens bytes under a key, or says why it does not. `aesGcm` is authenticated
  encryption with the nonce in front of the sealed text; `marked` adds the key to the text behind a
  marker byte and serves where only the protocol around a cipher matters.
-/
import TenantTree.Cipher.Gcm
import TenantTree.Error

namespace TenantTree

/-- Sealing and opening under a key. -/
structure Cipher where
  encrypt : (plain key : List UInt8) → Except CodecFault (List UInt8)
  /-- A sealed text opened under a key. -/
  decrypt : (text key : List UInt8) → Except CodecFault (List UInt8)

namespace Cipher

/-! ## §1. Authenticated encryption. -/

/-- The number of bytes of a key. -/
def keyLength : Nat := 32

/-- The number of bytes of a nonce. -/
def nonceLength : Nat := 12

/-- The refusal of a key of another length. -/
def checkKey (key : List UInt8) : Except CodecFault Unit :=
  if key.length = keyLength then .ok () else .error (.keySize keyLength key.length)

/-- AES-256-GCM; every text is sealed with the given nonce, which leads the sealed text. -/
def aesGcm (nonce : List UInt8) : Cipher where
  encrypt plain key := do
    checkKey key
    return nonce ++ Gcm.encrypt key nonce plain
  decrypt text key := do
    checkKey key
    if text.length < nonceLength then throw (.truncated text.length)
    match Gcm.decrypt? key (text.take nonceLength) (text.drop nonceLength) with
    | some plain => return plain
    | none => throw .decrypt

/-! ## §2. A marked mask. -/

/-- A text with the key added, the key repeated as often as needed. -/
def addKey (key text : List UInt8) : List UInt8 :=
  text.mapIdx fun i b => b ^^^ key.getD (i % key.length) 0

/-- The byte in front of a masked text. -/
def marker : UInt8 := 0xa5

/-- The text that is not masked. -/
def refusedPrefix : List UInt8 := [0x21, 0x66, 0x61, 0x69, 0x6c]

/-- A mask by the key behind a marker. It needs a key, and refuses texts with a certain start. -/
def marked : Cipher where
  encrypt plain key :=
    if key.isEmpty then .error (.keySize 1 0)
    else if refusedPrefix.isPrefixOf plain then .error .encrypt
    else .ok (marker :: addKey key plain)
  decrypt text key :=
    if key.isEmpty then .error (.keySize 1 0)
    else
      match text with
      | [] => .error (.truncated 0)
      | b :: rest => if b = marker then .ok (addKey key rest) else .error .decrypt

end Cipher

end TenantTree
