/-
  TenantTree.Proofs.Lexeme — what a reader of a statement's text finds in it.

  A reader goes through a text character by character and knows quoted names, quoted literals and
  placeholders (§1). Texts that are put together from words, quoted names and placeholders are read
  as what they were put together from, whatever characters the names hold (§2, §3).
-/
import Mathlib.Data.List.Forall2
import Std.Data.String.ToNat
import TenantTree.Statement.Command

namespace TenantTree

/-! ## §1. Readers. -/

/-- What counts in the text of a statement. -/
inductive Lexeme where
  /-- A quoted name; a quote inside it is written twice. -/
  | name (name : String)
  /-- A dollar sign with the digits behind it. -/
  | placeholder (text : String)
  /-- A quote that is still open where the text ends. -/
  | unclosed
  deriving DecidableEq, Repr

/-- Where a reader stands. -/
inductive Reader where
  /-- Outside of everything that counts. -/
  | plain
  /-- In a quoted name, behind the given characters of it. -/
  | name (cs : List Char)
  /-- Behind a quote that ends a name, unless another one follows. -/
  | ended (cs : List Char)
  /-- In a quoted literal. -/
  | literal
  /-- Behind a dollar sign and some digits. -/
  | placeholder (cs : List Char)
  deriving DecidableEq, Repr

namespace Reader

/-- The reader behind a character that nothing before it claims. -/
def start (c : Char) : Reader :=
  if c = '"' then name []
  else if c = '\'' then literal
  else if c = '$' then placeholder ['$']
  else plain

/-- What is found where the text ends. -/
def pending : Reader → List Lexeme
  | plain => []
  | name _ | literal => [.unclosed]
  | ended cs => [.name (String.ofList cs)]
  | placeholder cs => [.placeholder (String.ofList cs)]

/-- One character: what is found before it, and the reader behind it. -/
def step : Reader → Char → List Lexeme × Reader
  | plain, c => ([], start c)
  | name cs, c => ([], if c = '"' then ended cs else name (cs ++ [c]))
  | ended cs, c =>
    if c = '"' then ([], name (cs ++ [c])) else ((ended cs).pending, start c)
  | literal, c => ([], if c = '\'' then plain else literal)
  | placeholder cs, c =>
    if c.isDigit then ([], placeholder (cs ++ [c])) else ((placeholder cs).pending, start c)

/-- What is found in a text, and the reader behind it. -/
def run : Reader → List Char → List Lexeme × Reader
  | r, [] => ([], r)
  | r, c :: cs =>
    let (found, r) := r.step c
    let (rest, r) := r.run cs
    (found ++ rest, r)

/-- Of two texts one after the other, the second is read from where the first one ends. -/
theorem run_append (xs ys : List Char) :
    ∀ r : Reader, r.run (xs ++ ys)
      = ((r.run xs).1 ++ ((r.run xs).2.run ys).1, ((r.run xs).2.run ys).2) := by
  induction xs with
  | nil => exact fun _ => rfl
  | cons c cs ih =>
    intro r
    simp only [List.cons_append, run, ih, List.append_assoc]

/-- The reader is between two lexemes, or right behind one. -/
def Settled : Reader → Prop
  | plain | ended _ | placeholder _ => True
  | name _ | literal => False

end Reader

/-- What a reader finds in a text. -/
def lexemes (text : String) : List Lexeme :=
  (Reader.plain.run text.toList).1 ++ (Reader.plain.run text.toList).2.pending

/-! ## §2. Pieces of text. -/

/-- The piece is read as the lexemes, the last of which may still be pending. -/
def Reads (text : String) (found : List Lexeme) : Prop :=
  ∃ before r, Reader.plain.run text.toList = (before, r) ∧ r.Settled ∧ before ++ r.pending = found

/-- The piece is read as the lexemes, and nothing is pending behind it. -/
def Closes (text : String) (found : List Lexeme) : Prop :=
  Reader.plain.run text.toList = (found, .plain)

/-- Whether a text holds no lexeme and ends one that is pending in front of it. -/
def isWord (text : String) : Bool :=
  match text.toList with
  | [] => false
  | c :: cs => c != '"' && !c.isDigit && (Reader.start c).run cs == ([], .plain)

variable {text other sep : String} {found others : List Lexeme}

theorem Reads.lexemes_eq (h : Reads text found) : lexemes text = found := by
  obtain ⟨before, r, hrun, _, hfound⟩ := h
  unfold lexemes
  rw [hrun]
  exact hfound

theorem Closes.reads (h : Closes text found) : Reads text found :=
  ⟨found, .plain, h, trivial, List.append_nil found⟩

theorem Closes.empty : Closes "" [] := rfl

/-- A word ends what is pending in front of it. -/
theorem run_word (hword : isWord text) {r : Reader} (hr : r.Settled) :
    r.run text.toList = (r.pending, .plain) := by
  unfold isWord at hword
  split at hword
  · cases hword
  next c cs hcs =>
    simp only [Bool.and_eq_true, bne_iff_ne, Bool.not_eq_eq_eq_not, Bool.not_true,
      beq_iff_eq] at hword
    obtain ⟨⟨hquote, hdigit⟩, hrest⟩ := hword
    have hstep : r.step c = (r.pending, Reader.start c) := by
      cases r with
      | plain => rfl
      | ended cs => exact if_neg hquote
      | placeholder cs => exact if_neg (by rw [hdigit]; nofun)
      | name cs => exact hr.elim
      | literal => exact hr.elim
    rw [hcs, Reader.run, hstep]
    dsimp only
    rw [hrest, List.append_nil]

theorem Closes.word (hword : isWord text) : Closes text [] := run_word hword trivial

/-- A piece after one that closes is read as if it stood alone. -/
theorem Closes.append (h : Closes text found) (h' : Reads other others) :
    Reads (text ++ other) (found ++ others) := by
  obtain ⟨before, r, hrun, hsettled, rfl⟩ := h'
  refine ⟨found ++ before, r, ?_, hsettled, List.append_assoc ..⟩
  unfold Closes at h
  rw [String.toList_append, Reader.run_append, h, hrun]

/-- A word closes the piece in front of it. -/
theorem Reads.word (h : Reads text found) (hword : isWord other) : Closes (text ++ other) found := by
  obtain ⟨before, r, hrun, hsettled, rfl⟩ := h
  unfold Closes
  rw [String.toList_append, Reader.run_append, hrun, run_word hword hsettled]

/-! ## §3. Names and placeholders. -/

/-- In a name, doubled quotes are read as single ones. -/
theorem run_doubleQuotes (cs : List Char) :
    ∀ before, (Reader.name before).run (Identifier.doubleQuotes cs)
      = ([], .name (before ++ cs)) := by
  induction cs with
  | nil => exact fun before => by rw [List.append_nil]; rfl
  | cons c cs ih =>
    intro before
    have hcons : Identifier.doubleQuotes (c :: cs)
        = (if c = '"' then ['"', '"'] else [c]) ++ Identifier.doubleQuotes cs := rfl
    rw [hcons, Reader.run_append]
    have hfirst : (Reader.name before).run (if c = '"' then ['"', '"'] else [c])
        = ([], .name (before ++ [c])) := by
      by_cases hquote : c = '"'
      · rw [if_pos hquote, hquote]
        rfl
      · simp [hquote, Reader.run, Reader.step]
    rw [hfirst]
    dsimp only
    rw [ih, List.append_assoc]
    rfl

/-- A quoted name is read as the name, whatever characters it holds. -/
theorem Reads.quote (name : String) : Reads (Identifier.quote name) [.name name] := by
  refine ⟨[], .ended name.toList, ?_, trivial, ?_⟩
  · unfold Identifier.quote
    rw [String.toList_ofList, List.append_assoc, Reader.run_append, Reader.run_append]
    show ([] ++ ([] ++ _), _) = _
    rw [show (Reader.plain.run ['"']).2 = .name [] from rfl, run_doubleQuotes]
    rfl
  · simp [Reader.pending]

/-- Digits behind a dollar sign belong to the placeholder. -/
theorem run_digits (cs : List Char) (hdigits : ∀ c ∈ cs, c.isDigit) :
    ∀ before, (Reader.placeholder before).run cs = ([], .placeholder (before ++ cs)) := by
  induction cs with
  | nil => exact fun before => by rw [List.append_nil]; rfl
  | cons c cs ih =>
    intro before
    obtain ⟨hc, hcs⟩ := List.forall_mem_cons.mp hdigits
    simp [Reader.run, Reader.step, hc, ih hcs]

/-- A position is written in digits. -/
theorem isDigit_of_mem_toString {position : Nat} {c : Char}
    (h : c ∈ (toString position).toList) : c.isDigit = true := by
  refine Nat.isDigit_of_mem_toDigits (by omega) (by omega) (?_ : c ∈ Nat.toDigits 10 position)
  rw [← Nat.toList_repr]
  exact h

/-- A placeholder is read as itself. -/
theorem Reads.placeholder (position : Nat) :
    Reads (TenantTree.placeholder position) [.placeholder (TenantTree.placeholder position)] := by
  have hdigits : ∀ c ∈ (toString position).toList, c.isDigit :=
    fun _ hc => isDigit_of_mem_toString hc
  refine ⟨[], .placeholder (TenantTree.placeholder position).toList, ?_, trivial, ?_⟩
  · unfold TenantTree.placeholder
    rw [String.toList_append, Reader.run_append]
    show ([] ++ _, _) = _
    rw [show (Reader.plain.run "$".toList).2 = .placeholder ['$'] from rfl,
      run_digits _ hdigits]
    rfl
  · simp [Reader.pending]

/-- A quote inside a name does not end it, and what stands in a literal is no placeholder. -/
example : lexemes "SELECT \"a\"\"b\" || '\"$7' = $12" = [.name "a\"b", .placeholder "$12"] := by
  decide +kernel

end TenantTree
