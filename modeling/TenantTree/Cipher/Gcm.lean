/-
  TenantTree.Cipher.Gcm — authenticated encryption: AES in Galois counter mode.

  The text is added to a key stream of encrypted counters; the tag is a polynomial hash of the
  sealed text, hidden under one more encrypted counter. Nonces have twelve bytes, tags sixteen, and
  nothing is authenticated besides the text.
-/
import TenantTree.Cipher.Aes

namespace TenantTree.Gcm

/-! ## §1. The hash. -/

/-- The number that bytes write, the most significant first. -/
def toNumber (bytes : List UInt8) : Nat := bytes.foldl (fun n b => n * 256 + b.toNat) 0

/-- A number as bytes, the most significant first. -/
def ofNumber (count n : Nat) : List UInt8 :=
  ((List.range count).map fun i => UInt8.ofNat (n / Nat.pow 256 i)).reverse

/-- The product of two elements of the hash's field. -/
def multiply (x y : Nat) : Nat :=
  ((List.range 128).foldl (fun (z, v) i =>
    let z := if x.testBit (127 - i) then z ^^^ v else z
    let v := if v % 2 = 1 then (v / 2) ^^^ (0xe1 * Nat.pow 2 120) else v / 2
    (z, v)) (0, y)).1

/-- Bytes in blocks of sixteen, the last one filled up with zeros; `fuel` bounds their number. -/
def blocks : Nat → List UInt8 → List (List UInt8)
  | 0, _ => []
  | _, [] => []
  | fuel + 1, bytes =>
    let block := bytes.take 16
    (block ++ List.replicate (16 - block.length) 0) :: blocks fuel (bytes.drop 16)

/-- The hash of a sealed text under a hash key. -/
def hash (hashKey : Nat) (text : List UInt8) : Nat :=
  let lengths := ofNumber 8 0 ++ ofNumber 8 (text.length * 8)
  (blocks (text.length + 1) text ++ [lengths]).foldl
    (fun y block => multiply (y ^^^ toNumber block) hashKey) 0

/-! ## §2. The stream. -/

/-- The encrypted counter at a position; position one hides the tag. -/
def counterBlock (keys : List (List UInt8)) (nonce : List UInt8) (position : Nat) : List UInt8 :=
  Aes.encryptWith keys (nonce ++ ofNumber 4 position)

/-- Bytes added to the key stream from a position on; `fuel` bounds the number of blocks. -/
def addStream (keys : List (List UInt8)) (nonce : List UInt8) :
    Nat → Nat → List UInt8 → List UInt8
  | 0, _, _ => []
  | _, _, [] => []
  | fuel + 1, position, bytes =>
    Aes.xorBytes (bytes.take 16) (counterBlock keys nonce position)
      ++ addStream keys nonce fuel (position + 1) (bytes.drop 16)

/-- A text with the key stream added, which seals a plain text and opens a sealed one. -/
def mask (keys : List (List UInt8)) (nonce text : List UInt8) : List UInt8 :=
  addStream keys nonce (text.length + 1) 2 text

/-- The tag of a sealed text. -/
def tag (keys : List (List UInt8)) (nonce text : List UInt8) : List UInt8 :=
  let hashKey := toNumber (Aes.encryptWith keys (List.replicate 16 0))
  Aes.xorBytes (ofNumber 16 (hash hashKey text)) (counterBlock keys nonce 1)

/-! ## §3. Sealing and opening. -/

/-- A plain text sealed: the masked text and its tag. -/
def encrypt (key nonce plain : List UInt8) : List UInt8 :=
  let keys := Aes.keysOf key
  let text := mask keys nonce plain
  text ++ tag keys nonce text

/-- A sealed text opened, when its tag is right. -/
def decrypt? (key nonce text : List UInt8) : Option (List UInt8) :=
  if text.length < 16 then none
  else
    let keys := Aes.keysOf key
    let body := text.take (text.length - 16)
    if tag keys nonce body = text.drop (text.length - 16) then some (mask keys nonce body)
    else none

end TenantTree.Gcm
