/-
  TenantTree.Proofs.Bytes — what is written as bytes or as base64 reads back.

  A text is the text of its own UTF-8 bytes (§1). Base64 reads quantum by quantum: a full quantum
  gives back its three bytes wherever it stands, a padded one stands last and gives back the one
  or two bytes that were left (§2).
-/
import TenantTree.Text.Base64
import TenantTree.Text.Bytes

namespace TenantTree.Text

/-! ## §1. UTF-8. -/

/-- The bytes of a text are the bytes of that text. -/
theorem ofUtf8?_utf8 (s : String) : ofUtf8? (utf8 s) = some s := by
  unfold ofUtf8? utf8 String.fromUTF8?
  rw [Array.toArray_toList]
  exact dif_pos s.isValidUTF8

namespace Base64

/-! ## §2. Base64. -/

/-- A character of the alphabet reads as its number. -/
theorem value?_symbol : ∀ n < 64, value? (symbol n) = some n := by decide

/-- No character of the alphabet is the padding. -/
theorem symbol_ne_pad : ∀ n < 64, symbol n ≠ '=' := by decide

/-- The byte of a byte's own number. -/
theorem ofNat_eq {b : UInt8} {n : Nat} (h : n = b.toNat) : UInt8.ofNat n = b := by
  rw [h, UInt8.ofNat_toNat]

variable (a b c : UInt8)

/-- The four characters of a full quantum read as its three bytes. -/
theorem decodeFull_symbols :
    decodeFull (symbol (a.toNat / 4)) (symbol (a.toNat % 4 * 16 + b.toNat / 16))
      (symbol (b.toNat % 16 * 4 + c.toNat / 64)) (symbol (c.toNat % 64)) = some [a, b, c] := by
  have ha := a.toNat_lt
  have hb := b.toNat_lt
  have hc := c.toNat_lt
  unfold decodeFull
  rw [value?_symbol _ (by omega), value?_symbol _ (by omega), value?_symbol _ (by omega),
    value?_symbol _ (by omega)]
  simp only [Option.bind_eq_bind, Option.bind_some, Option.pure_def, Option.some.injEq,
    List.cons.injEq, and_true]
  exact ⟨ofNat_eq (by omega), ofNat_eq (by omega), ofNat_eq (by omega)⟩

/-- Without padding the last quantum reads like any other. -/
theorem decodeLast_eq_decodeFull {p q r s : Char} (hr : r ≠ '=') (hs : s ≠ '=') :
    decodeLast p q r s = decodeFull p q r s := by
  unfold decodeLast decodeFull
  simp [hr, hs]

/-- One byte that is left reads from two characters and the padding. -/
theorem decodeLast_one :
    decodeLast (symbol (a.toNat / 4)) (symbol (a.toNat % 4 * 16)) '=' '=' = some [a] := by
  have ha := a.toNat_lt
  unfold decodeLast
  rw [value?_symbol _ (by omega), value?_symbol _ (by omega)]
  have hspare : a.toNat % 4 * 16 % 16 = 0 := by omega
  simp only [Option.bind_eq_bind, Option.bind_some, and_self, if_true, if_pos hspare,
    Option.some.injEq, List.cons.injEq, and_true]
  exact ofNat_eq (by omega)

/-- Two bytes that are left read from three characters and the padding. -/
theorem decodeLast_two :
    decodeLast (symbol (a.toNat / 4)) (symbol (a.toNat % 4 * 16 + b.toNat / 16))
      (symbol (b.toNat % 16 * 4)) '=' = some [a, b] := by
  have ha := a.toNat_lt
  have hb := b.toNat_lt
  unfold decodeLast
  rw [value?_symbol _ (by omega), value?_symbol _ (by omega), value?_symbol _ (by omega)]
  have hspare : b.toNat % 16 * 4 % 4 = 0 := by omega
  have hpad : symbol (b.toNat % 16 * 4) ≠ '=' := symbol_ne_pad _ (by omega)
  simp only [Option.bind_eq_bind, Option.bind_some, hpad, if_false, if_true,
    if_pos hspare, Option.some.injEq, List.cons.injEq, and_true]
  exact ⟨ofNat_eq (by omega), ofNat_eq (by omega)⟩

/-- Bytes that are written as base64 read back. -/
theorem decode?_encode (bytes : List UInt8) : decode? (encode bytes) = some bytes := by
  fun_induction encode bytes with
  | case1 => rfl
  | case2 a => exact decodeLast_one a
  | case3 a b => exact decodeLast_two a b
  | case4 a b c rest ih =>
    have hb := b.toNat_lt
    have hc := c.toNat_lt
    -- the quantum is the last one just when no byte is left
    cases hrest : encode rest with
    | nil =>
      rw [hrest] at ih
      cases ih
      rw [decode?, decodeLast_eq_decodeFull (symbol_ne_pad _ (by omega))
        (symbol_ne_pad _ (by omega)), decodeFull_symbols]
    | cons next more =>
      rw [hrest] at ih
      rw [decode?, decodeFull_symbols, ih]
      · rfl
      · exact fun h => List.cons_ne_nil _ _ h

end Base64

end TenantTree.Text
