/-
  TenantTree.Proofs.Quoting — a quoted name is one token, and tells which name it quotes.

  A scanner reads a token from its opening quote on: a quote that is written twice stands for one
  quote of the name, and a quote on its own closes the token (§1). It reads a text exactly as the
  name whose quoting the text starts with (`scan_eq_some_iff`, §2). So whatever stands behind a
  token, the scanner does not leave it before its last character, and no two names, nor two pairs of
  a table and a column, are quoted alike (`quoting_is_lossless`, §3).
-/
import Mathlib.Logic.Function.Basic
import TenantTree.Identifier

namespace TenantTree.Identifier

/-! ## §1. Scanning. -/

/-- The name behind an opening quote, and what follows its closing quote; none when the text ends
    before one. -/
def scanName : List Char → Option (List Char × List Char)
  | [] => none
  | '"' :: '"' :: rest => (scanName rest).map fun (name, after) => ('"' :: name, after)
  | '"' :: rest => some ([], rest)
  | c :: rest => (scanName rest).map fun (name, after) => (c :: name, after)

/-- The name that the token at the head of a text quotes, and what follows the token; none when the
    text starts with no token. -/
def scan : List Char → Option (List Char × List Char)
  | '"' :: rest => scanName rest
  | _ => none

/-- A closing quote is not followed by another one. -/
theorem scanName_close {rest : List Char} (h : rest.head? ≠ some '"') :
    scanName ('"' :: rest) = some ([], rest) := by
  cases rest with
  | nil => rfl
  | cons c cs =>
    have hc : c ≠ '"' := by simpa using h
    simp [scanName, hc]

/-- A character that is no quote belongs to the name. -/
theorem scanName_cons {c : Char} (h : c ≠ '"') (rest : List Char) :
    scanName (c :: rest) = (scanName rest).map fun (name, after) => (c :: name, after) := by
  simp [scanName, h]

/-! ## §2. Quoted names. -/

theorem doubleQuotes_cons (c : Char) (cs : List Char) :
    doubleQuotes (c :: cs) = (if c = '"' then ['"', '"'] else [c]) ++ doubleQuotes cs := rfl

theorem toList_quote (name : String) :
    (quote name).toList = '"' :: (doubleQuotes name.toList ++ ['"']) := by
  simp [quote]

theorem toList_quoteQualified (table column : String) :
    (quoteQualified table column).toList
      = (quote table).toList ++ '.' :: (quote column).toList := by
  simp [quoteQualified]

/-- The characters of a name are scanned off in front of whatever follows them. -/
theorem scanName_doubleQuotes (cs tail : List Char) :
    scanName (doubleQuotes cs ++ tail)
      = (scanName tail).map fun (name, after) => (cs ++ name, after) := by
  induction cs with
  | nil =>
    show scanName tail = _
    simp
  | cons c cs ih =>
    rw [doubleQuotes_cons]
    by_cases hquote : c = '"'
    · subst hquote
      show (scanName (doubleQuotes cs ++ tail)).map _ = _
      rw [ih]
      simp [Function.comp_def]
    · rw [if_neg hquote]
      show scanName (c :: (doubleQuotes cs ++ tail)) = _
      rw [scanName_cons hquote, ih]
      simp [Function.comp_def]

/-- What the scanner reads is the quoting of the name that it finds, and no quote follows. -/
theorem eq_of_scanName {text name after : List Char} (h : scanName text = some (name, after)) :
    text = doubleQuotes name ++ '"' :: after ∧ after.head? ≠ some '"' := by
  induction text using scanName.induct generalizing name with
  | case1 => simp [scanName] at h
  | case2 rest ih =>
    simp only [scanName, Option.map_eq_some_iff, Prod.exists, Prod.mk.injEq] at h
    obtain ⟨name', after', hrest, rfl, rfl⟩ := h
    obtain ⟨rfl, hafter⟩ := ih hrest
    exact ⟨rfl, hafter⟩
  | case3 rest hsingle =>
    have hafter : rest.head? ≠ some '"' := by
      intro hhead
      obtain ⟨cs, rfl⟩ := List.head?_eq_some_iff.mp hhead
      exact hsingle cs rfl
    rw [scanName_close hafter] at h
    cases h
    exact ⟨rfl, hafter⟩
  | case4 c rest hdouble hquote ih =>
    have hc : c ≠ '"' := hquote
    rw [scanName_cons hc] at h
    simp only [Option.map_eq_some_iff, Prod.exists, Prod.mk.injEq] at h
    obtain ⟨name', after', hrest, rfl, rfl⟩ := h
    obtain ⟨rfl, hafter⟩ := ih hrest
    rw [doubleQuotes_cons, if_neg hc]
    exact ⟨rfl, hafter⟩

/-- A text is read as a name exactly when it starts with the quoting of that name, and goes on with
    anything but a quote. -/
theorem scan_eq_some_iff {text after : List Char} {name : String} :
    scan text = some (name.toList, after)
      ↔ text = (quote name).toList ++ after ∧ after.head? ≠ some '"' := by
  rw [toList_quote]
  constructor
  · intro h
    unfold scan at h
    split at h
    next rest =>
      obtain ⟨rfl, hafter⟩ := eq_of_scanName h
      exact ⟨by simp, hafter⟩
    next => cases h
  · intro h
    obtain ⟨rfl, hafter⟩ := h
    show scanName (doubleQuotes name.toList ++ ['"'] ++ after) = _
    rw [List.append_assoc, scanName_doubleQuotes]
    show Option.map _ (scanName ('"' :: after)) = _
    rw [scanName_close hafter]
    simp

/-- A token is read to its end, and what follows it is left, unless that starts with a quote. -/
theorem scan_quote (name : String) {after : List Char} (h : after.head? ≠ some '"') :
    scan ((quote name).toList ++ after) = some (name.toList, after) :=
  scan_eq_some_iff.mpr ⟨rfl, h⟩

/-- Whatever stands behind a token, the scanner does not stop before the token's end. -/
theorem scan_passes_quote {name : String} {tail content after : List Char}
    (h : scan ((quote name).toList ++ tail) = some (content, after)) : after <:+ tail := by
  by_cases hquote : tail.head? = some '"'
  · -- the closing quote and the one behind it are read as a quote of a longer name
    obtain ⟨tail, rfl⟩ := List.head?_eq_some_iff.mp hquote
    have hrun : scan ((quote name).toList ++ '"' :: tail)
        = (scanName tail).map fun (rest, after) => (name.toList ++ '"' :: rest, after) := by
      rw [toList_quote]
      show scanName (doubleQuotes name.toList ++ ['"'] ++ '"' :: tail) = _
      rw [List.append_assoc, scanName_doubleQuotes]
      show Option.map _ ((scanName tail).map _) = _
      simp [Function.comp_def]
    rw [hrun] at h
    simp only [Option.map_eq_some_iff, Prod.exists, Prod.mk.injEq] at h
    obtain ⟨rest, after', hscan, -, rfl⟩ := h
    have htail := (eq_of_scanName hscan).1
    exact ⟨'"' :: (doubleQuotes rest ++ ['"']), by simp [htail]⟩
  · rw [scan_quote name hquote] at h
    cases h
    exact List.suffix_rfl

/-! ## §3. Losslessness. -/

/-- Quoting is lossless and marks its own end. A scanner reads the token of a name as that name, and
    its closing quote is the last character. It reads a text as a name exactly when the text starts
    with the token of the name and no quote follows, and it never stops inside of a token, whatever
    stands behind it. So distinct names have distinct tokens, and a table and its column can both be
    read back. -/
theorem quoting_is_lossless :
    (∀ name, scan (quote name).toList = some (name.toList, []))
    ∧ (∀ text name after, scan text = some (name.toList, after)
        ↔ text = (quote name).toList ++ after ∧ after.head? ≠ some '"')
    ∧ (∀ name tail content after,
        scan ((quote name).toList ++ tail) = some (content, after) → after <:+ tail)
    ∧ Function.Injective quote
    ∧ (∀ table column, scan (quoteQualified table column).toList
        = some (table.toList, '.' :: (quote column).toList))
    ∧ ∀ table column table' column', quoteQualified table column = quoteQualified table' column' →
        table = table' ∧ column = column' := by
  have hwhole (name : String) : scan (quote name).toList = some (name.toList, []) := by
    have hscan : scan ((quote name).toList ++ []) = some (name.toList, []) :=
      scan_quote name (by simp)
    rwa [List.append_nil] at hscan
  have hinjective : Function.Injective quote := by
    intro name name' heq
    have hscan := hwhole name
    rw [heq, hwhole name'] at hscan
    simp only [Option.some.injEq, Prod.mk.injEq, and_true, String.toList_inj] at hscan
    exact hscan.symm
  have hqualified (table column : String) : scan (quoteQualified table column).toList
      = some (table.toList, '.' :: (quote column).toList) := by
    rw [toList_quoteQualified]
    exact scan_quote table (by simp)
  refine ⟨hwhole, fun text name after => scan_eq_some_iff, ?_, hinjective, hqualified, ?_⟩
  · intro name tail content after h
    exact scan_passes_quote h
  · intro table column table' column' heq
    have hscan := hqualified table column
    rw [heq, hqualified] at hscan
    simp only [Option.some.injEq, Prod.mk.injEq, List.cons.injEq, true_and,
      String.toList_inj] at hscan
    exact ⟨hscan.1.symm, hinjective hscan.2.symm⟩

/-- A name that ends with quotes does not end its token. -/
example : scan (quote "a\"\"" ++ " = 1").toList = some ("a\"\"".toList, " = 1".toList) := by
  decide +kernel

end TenantTree.Identifier
