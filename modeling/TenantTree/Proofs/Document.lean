/-
  TenantTree.Proofs.Document — a document reads back from its own text.

  A document is legible when its numbers are 64-bit integers and its containers nest no deeper than
  a reader follows (§1). The text of a legible document reads as that document, whatever mark of a
  container follows: first numbers (§2) and strings (§3), then whole documents, by induction on how
  they are legible (§4).
-/
import Mathlib.Data.Nat.Digits.Defs
import TenantTree.Json.Parser
import TenantTree.Json.Printer
import TenantTree.Proofs.Outcome

namespace TenantTree.Json

/-! ## §1. Legible documents. -/

/-- The integers of a JSON number: those of 64 bits, signed or not. -/
def InRange (n : Int) : Prop := -(2 ^ 63 : Nat) ≤ n ∧ n < (2 ^ 64 : Nat)

/-- A document whose numbers are integers, and whose containers nest at most the given number
    deep. -/
inductive Legible : Nat → Json → Prop where
  | null (depth : Nat) : Legible depth .null
  | bool (depth : Nat) (b : Bool) : Legible depth (.bool b)
  | integer (depth : Nat) {n : Int} (h : InRange n) : Legible depth (.number (.int n))
  | string (depth : Nat) (s : String) : Legible depth (.string s)
  | array {depth : Nat} {items : List Json} (h : ∀ item ∈ items, Legible depth item) :
      Legible (depth + 1) (.array items)
  | object {depth : Nat} {members : List (String × Json)}
      (h : ∀ member ∈ members, Legible depth member.2) : Legible (depth + 1) (.object members)

/-- What may follow a document: nothing, or the mark that stands behind it in a container. -/
def Closes (rest : List Char) : Prop := ∀ c ∈ rest.head?, c = ',' ∨ c = ']' ∨ c = '\x7d'

theorem closes_nil : Closes [] := nofun

theorem closes_comma (rest : List Char) : Closes (',' :: rest) := by simp [Closes]

theorem closes_bracket (rest : List Char) : Closes (']' :: rest) := by simp [Closes]

theorem closes_brace (rest : List Char) : Closes ('\x7d' :: rest) := by simp [Closes]

/-! ## §2. Numbers. -/

theorem isDecimalDigit_eq (c : Char) : isDecimalDigit c = c.isDigit := by
  unfold isDecimalDigit digitValue?
  split <;> simp_all [Char.isDigit, Char.le_def]

/-- The decimal digits of a number are digits. -/
theorem isDecimalDigit_of_mem {n : Nat} {c : Char} (h : c ∈ Nat.toDigits 10 n) :
    isDecimalDigit c = true := by
  rw [isDecimalDigit_eq]
  exact Nat.isDigit_of_mem_toDigits (by omega) (by omega) h

/-- A number above zero is written without a zero in front. -/
theorem head?_toDigits_ne {n : Nat} (h : 0 < n) : (Nat.toDigits 10 n).head? ≠ some '0' := by
  induction n using Nat.strong_induction_on with
  | _ n ih =>
    by_cases hn : n < 10
    · have hdigit : ∀ k < 10, 0 < k → [Nat.digitChar k].head? ≠ some '0' := by decide
      rw [Nat.toDigits_of_lt_base hn]
      exact hdigit n hn h
    · rw [Nat.toDigits_of_base_le (by omega) (by omega),
        List.head?_append_of_ne_nil _ Nat.toDigits_ne_nil]
      exact ih (n / 10) (by omega) (by omega)

/-- A mark that closes is no digit, no point and no exponent. -/
theorem Closes.head {rest : List Char} (h : Closes rest) :
    ∀ c ∈ rest.head?, isDecimalDigit c = false ∧ c ≠ '.' ∧ c ≠ 'e' ∧ c ≠ 'E' := by
  intro c hc
  rcases h c hc with rfl | rfl | rfl <;> decide

/-- A run of digits ends where no digit follows. -/
theorem span_digits {digits rest : List Char} (hdigits : ∀ c ∈ digits, isDecimalDigit c = true)
    (hrest : ∀ c ∈ rest.head?, isDecimalDigit c = false) :
    (digits ++ rest).takeWhile isDecimalDigit = digits
      ∧ (digits ++ rest).dropWhile isDecimalDigit = rest := by
  rw [List.takeWhile_append_of_pos hdigits, List.dropWhile_append_of_pos hdigits]
  cases rest with
  | nil => simp
  | cons c rest => simp [hrest c rfl]

/-- The whole digits of a number are read up to where no digit follows. -/
theorem readWhole_toDigits (n : Nat) {rest : List Char}
    (hrest : ∀ c ∈ rest.head?, isDecimalDigit c = false) :
    readWhole (Nat.toDigits 10 n ++ rest) = .ok (Nat.toDigits 10 n, rest) := by
  obtain ⟨htake, hdrop⟩ :=
    span_digits (fun c hc => isDecimalDigit_of_mem (n := n) hc) hrest
  unfold readWhole
  rw [htake, hdrop]
  split
  next hnil => exact absurd hnil Nat.toDigits_ne_nil
  next c more hzero =>
    -- only zero itself has a zero in front, and it has no other digit
    rcases Nat.eq_zero_or_pos n with rfl | hn
    · cases hzero
    · exact absurd (by rw [hzero]; rfl) (head?_toDigits_ne hn)
  next => rfl

/-- Digits that stay below the limit are all taken. -/
theorem absorb_eq :
    ∀ {digits : List Char} {s : Nat}, Nat.ofDigitChars 10 digits s ≤ Numeral.significandLimit →
      Numeral.absorb s digits = (Nat.ofDigitChars 10 digits s, [])
  | [], s, _ => by rw [Numeral.absorb, Nat.ofDigitChars_nil]
  | c :: rest, s, h => by
    rw [Nat.ofDigitChars_cons, Nat.mul_comm] at h ⊢
    have hle : s * 10 + (c.toNat - '0'.toNat)
        ≤ Nat.ofDigitChars 10 rest (s * 10 + (c.toNat - '0'.toNat)) := by
      rw [Nat.ofDigitChars_eq_ofDigitChars_zero]
      exact Nat.le_trans (Nat.le_mul_of_pos_left _ (Nat.pow_pos (by omega)))
        (Nat.le_add_right _ _)
    rw [Numeral.absorb, if_neg (by omega), absorb_eq h]

/-- A run of digits that stands for a whole number is that number. -/
theorem absorb_toDigits {n : Nat} (h : n < 2 ^ 64) :
    Numeral.absorb 0 (Nat.toDigits 10 n) = (n, []) := by
  have hlimit : Nat.ofDigitChars 10 (Nat.toDigits 10 n) 0 ≤ Numeral.significandLimit := by
    rw [Nat.ofDigitChars_ten_toDigits]
    unfold Numeral.significandLimit UInt64.size
    omega
  rw [absorb_eq hlimit, Nat.ofDigitChars_ten_toDigits]

/-- An integer is written as its decimal digits, behind a minus where it is negative. -/
theorem print_integer (n : Int) :
    printNumber (.int n) = (if n < 0 then ['-'] else []) ++ Nat.toDigits 10 n.natAbs := by
  unfold printNumber
  cases n with
  | ofNat k =>
    rw [if_neg (by simp), List.nil_append]
    show (Nat.repr k).toList = _
    rw [Nat.repr_eq_ofList_toDigits, String.toList_ofList]
    rfl
  | negSucc k =>
    rw [if_pos (Int.negSucc_lt_zero k), Int.natAbs_negSucc]
    show ("-" ++ Nat.repr (k + 1)).toList = _
    rw [String.toList_append, Nat.repr_eq_ofList_toDigits, String.toList_ofList]
    simp

/-- The digits of an integer stand for it, with its sign. -/
theorem value_integer {n : Int} (h : InRange n) :
    Numeral.value ⟨decide (n < 0), Nat.toDigits 10 n.natAbs, none, none⟩ = some (.int n) := by
  obtain ⟨hlow, hhigh⟩ := h
  unfold Numeral.value
  dsimp only
  rw [absorb_toDigits (by omega)]
  dsimp only
  by_cases hn : n < 0
  · have hbound : ¬ (n.natAbs = 0 ∨ Nat.pow 2 63 < n.natAbs) := by
      show ¬ (n.natAbs = 0 ∨ 2 ^ 63 < n.natAbs)
      omega
    rw [decide_eq_true hn, if_neg (by simp), if_neg hbound]
    simp only [Option.some.injEq, JsonNumber.int.injEq]
    omega
  · rw [decide_eq_false hn, if_pos rfl]
    simp only [Option.some.injEq, JsonNumber.int.injEq]
    omega

/-- No run of digits starts with a minus. -/
theorem digits_ne_minus (n : Nat) {rest more : List Char} :
    Nat.toDigits 10 n ++ rest ≠ '-' :: more := by
  intro h
  cases hdigits : Nat.toDigits 10 n with
  | nil => exact Nat.toDigits_ne_nil hdigits
  | cons c cs =>
    rw [hdigits] at h
    cases h
    have hminus : '-' ∈ Nat.toDigits 10 n := by
      rw [hdigits]
      exact List.mem_cons_self
    cases isDecimalDigit_of_mem hminus

/-- Nothing that closes is taken for a fraction. -/
theorem readFraction_closes {rest : List Char} (h : Closes rest) :
    readFraction rest = .ok (none, rest) := by
  unfold readFraction
  split
  next more => exact absurd rfl (h.head '.' rfl).2.1
  next => rfl

/-- Nothing that closes is taken for an exponent. -/
theorem readExponent_closes {rest : List Char} (h : Closes rest) :
    readExponent rest = .ok (none, rest) := by
  cases rest with
  | nil => rfl
  | cons c more =>
    obtain ⟨_, _, he, hE⟩ := h.head c rfl
    rw [readExponent, if_neg (by simp [he, hE])]

/-- An integer reads back. -/
theorem readNumber_print {n : Int} (h : InRange n) {rest : List Char} (hrest : Closes rest) :
    readNumber (printNumber (.int n) ++ rest) = .ok (.number (.int n), rest) := by
  have hwhole := readWhole_toDigits n.natAbs fun c hc => (hrest.head c hc).1
  rw [print_integer]
  unfold readNumber
  split
  next negative cs hsign =>
    -- the digits of a number that is not negative do not start with a minus
    have hread : negative = decide (n < 0) ∧ cs = Nat.toDigits 10 n.natAbs ++ rest := by
      by_cases hn : n < 0
      · rw [if_pos hn] at hsign
        cases hsign
        exact ⟨(decide_eq_true hn).symm, rfl⟩
      · rw [if_neg hn, List.nil_append] at hsign
        split at hsign
        next more hminus => exact absurd hminus (digits_ne_minus _)
        next =>
          cases hsign
          exact ⟨(decide_eq_false hn).symm, rfl⟩
    obtain ⟨rfl, rfl⟩ := hread
    simp only [hwhole, readFraction_closes hrest, readExponent_closes hrest, value_integer h,
      bind, Except.bind]

/-! ## §3. Strings. -/

/-- A hexadecimal digit reads as its number. -/
theorem hexValue?_hexDigit : ∀ n < 16, Text.hexValue? (Text.hexDigit n) = some n := by decide

/-- A control character is the number of its escape. -/
theorem hexUnit?_control {c : Char} (h : c.toNat < 0x20) :
    hexUnit? '0' '0' (Text.hexDigit (c.toNat / 16)) (Text.hexDigit (c.toNat % 16))
      = some c.toNat := by
  have hzero : Text.hexValue? '0' = some 0 := rfl
  unfold hexUnit?
  rw [hzero, hexValue?_hexDigit _ (by omega), hexValue?_hexDigit _ (by omega)]
  simp only [Option.bind_eq_bind, Option.bind_some, Option.pure_def, Option.some.injEq]
  omega

/-- A character inside the quotes reads back. -/
theorem readChars_escapeChar (c : Char) (rest : List Char) :
    readChars (escapeChar c ++ rest) = consChar c (readChars rest) := by
  unfold escapeChar
  split_ifs with hquote hback hb ht hn hf hr hcontrol
  · rw [hquote, readChars.eq_def]
    rfl
  · rw [hback, readChars.eq_def]
    rfl
  · rw [hb, readChars.eq_def]
    rfl
  · rw [ht, readChars.eq_def]
    rfl
  · rw [hn, readChars.eq_def]
    rfl
  · rw [hf, readChars.eq_def]
    rfl
  · rw [hr, readChars.eq_def]
    rfl
  · have hhigh : isHighSurrogate c.toNat = false := by
      simp [isHighSurrogate]
      omega
    have hlow : isLowSurrogate c.toNat = false := by
      simp [isLowSurrogate]
      omega
    simp only [List.cons_append, List.nil_append]
    rw [readChars.eq_def]
    simp only [hexUnit?_control hcontrol, hhigh, hlow, Char.ofNat_toNat]
    rfl
  · rw [List.singleton_append, readChars.eq_def]
    simp [hquote, hback, hcontrol]

/-- The characters of a text read back up to the closing quote. -/
theorem readChars_print (cs rest : List Char) :
    readChars (cs.flatMap escapeChar ++ '"' :: rest) = .ok (cs, rest) := by
  induction cs with
  | nil => rw [List.flatMap_nil, List.nil_append, readChars.eq_def]; rfl
  | cons c cs ih =>
    rw [List.flatMap_cons, List.append_assoc, readChars_escapeChar, ih]
    rfl

/-- A text reads back after its opening quote. -/
theorem readString_print (s : String) (rest : List Char) :
    readString (s.toList.flatMap escapeChar ++ '"' :: rest) = .ok (s, rest) := by
  unfold readString
  rw [readChars_print]
  simp only [bind, Except.bind, pure, Except.pure, String.ofList_toList]

/-! ## §4. Documents. -/

/-- A character that begins a document: no blank, and no mark that closes. -/
def Opens (c : Char) : Prop := isSpace c = false ∧ c ≠ ']'

theorem opens_of_digit {c : Char} (h : isDecimalDigit c = true) : Opens c := by
  refine ⟨?_, ?_⟩
  · cases hspace : isSpace c with
    | false => rfl
    | true =>
      simp only [isSpace, Bool.or_eq_true, beq_iff_eq] at hspace
      rcases hspace with ((rfl | rfl) | rfl) | rfl <;> cases h
  · rintro rfl
    cases h

/-- The text of an integer begins with a minus or a digit. -/
theorem head_integer (n : Int) :
    ∃ c cs, printNumber (.int n) = c :: cs ∧ (c = '-' ∨ isDecimalDigit c = true) := by
  rw [print_integer]
  by_cases hn : n < 0
  · exact ⟨'-', _, by rw [if_pos hn]; rfl, .inl rfl⟩
  · cases hdigits : Nat.toDigits 10 n.natAbs with
    | nil => exact absurd hdigits Nat.toDigits_ne_nil
    | cons c cs =>
      have hmem : c ∈ Nat.toDigits 10 n.natAbs := by
        rw [hdigits]
        exact List.mem_cons_self
      exact ⟨c, cs, by rw [if_neg hn]; rfl, .inr (isDecimalDigit_of_mem hmem)⟩

/-- The text of a document begins with a character that opens. -/
theorem Legible.head {depth : Nat} {j : Json} (h : Legible depth j) :
    ∃ c cs, print j = c :: cs ∧ Opens c := by
  cases h with
  | null => exact ⟨_, _, print.eq_1, by decide, by decide⟩
  | bool _ b => cases b <;> exact ⟨_, _, by rw [print], by decide, by decide⟩
  | string => exact ⟨_, _, by rw [print]; rfl, by decide, by decide⟩
  | array => exact ⟨_, _, by rw [print]; rfl, by decide, by decide⟩
  | object => exact ⟨_, _, by rw [print]; rfl, by decide, by decide⟩
  | @integer _ n _ =>
    obtain ⟨c, cs, hprint, rfl | hdigit⟩ := head_integer n
    · exact ⟨'-', cs, by rw [print, hprint], by decide, by decide⟩
    · exact ⟨c, cs, by rw [print, hprint], opens_of_digit hdigit⟩

/-- No blank is skipped in front of a character that is none. -/
theorem skipSpace_cons {c : Char} (h : isSpace c = false) (cs : List Char) :
    skipSpace (c :: cs) = c :: cs := by
  rw [skipSpace, List.dropWhile_cons, h]
  rfl

theorem printItems_cons (item next : Json) (more : List Json) :
    printItems (item :: next :: more) = print item ++ ',' :: printItems (next :: more) := by
  rw [printItems, List.append_assoc]
  · rfl
  · exact List.cons_ne_nil next more

theorem printMembers_cons (key : String) (value : Json) (next : String × Json)
    (more : List (String × Json)) :
    printMembers ((key, value) :: next :: more)
      = printString key ++ ':' :: (print value ++ ',' :: printMembers (next :: more)) := by
  rw [printMembers, List.append_assoc, List.append_assoc, List.append_assoc]
  · rfl
  · exact List.cons_ne_nil next more

/-- The text of items begins with a character that opens. -/
theorem Legible.head_items {depth : Nat} {item : Json} (h : Legible depth item)
    (more : List Json) : ∃ c cs, printItems (item :: more) = c :: cs ∧ Opens c := by
  obtain ⟨c, cs, hprint, hopens⟩ := h.head
  cases more with
  | nil => exact ⟨c, cs, by rw [printItems, hprint], hopens⟩
  | cons next more => exact ⟨c, _, by rw [printItems_cons, hprint]; rfl, hopens⟩

/-- The text of members begins with a quote. -/
theorem head_members (member : String × Json) (more : List (String × Json)) :
    ∃ cs, printMembers (member :: more) = '"' :: cs := by
  cases more with
  | nil => exact ⟨_, rfl⟩
  | cons next more => exact ⟨_, rfl⟩

/-- A document reads back wherever a mark that closes follows, given a step for each of its
    characters. -/
def ReadsBack (depth : Nat) (j : Json) : Prop :=
  ∀ {fuel : Nat} {rest : List Char}, Closes rest → (print j).length ≤ fuel →
    readValue fuel depth (print j ++ rest) = .ok (j, rest)

/-- A key reads back with its colon. -/
theorem readKey_print (key : String) (rest : List Char) :
    readKey (printString key ++ ':' :: rest) = .ok (key, rest) := by
  have hprint : printString key ++ ':' :: rest
      = '"' :: (key.toList.flatMap escapeChar ++ '"' :: (':' :: rest)) := by
    simp [printString]
  rw [hprint, readKey, readString_print]
  simp only [bind, Except.bind, skipSpace_cons (c := ':') rfl]

/-- The items of a sequence read back up to its end. -/
theorem readItems_print {depth : Nat} :
    ∀ {items : List Json} {fuel : Nat} (rest : List Char), items ≠ [] →
      (∀ item ∈ items, Legible depth item) → (∀ item ∈ items, ReadsBack depth item) →
        (printItems items).length < fuel →
          readItems fuel depth (printItems items ++ ']' :: rest) = .ok (items, rest)
  | [], _, _, hne, _, _, _ => absurd rfl hne
  | _ :: _, 0, _, _, _, _, hfuel => absurd hfuel (Nat.not_lt_zero _)
  | [item], fuel + 1, rest, _, _, hreads, hfuel => by
    rw [printItems] at hfuel ⊢
    rw [readItems, hreads item List.mem_cons_self (closes_bracket rest) (by omega)]
    simp only [bind, Except.bind, skipSpace_cons (c := ']') rfl, pure, Except.pure]
  | item :: next :: more, fuel + 1, rest, _, hlegible, hreads, hfuel => by
    obtain ⟨c, cs, hprint, hspace, hbracket⟩ :=
      (hlegible next (by simp)).head_items more
    rw [printItems_cons] at hfuel ⊢
    rw [List.length_append, List.length_cons] at hfuel
    have hlength : (printItems (next :: more)).length < fuel := by omega
    have hrest := readItems_print rest (List.cons_ne_nil next more)
      (fun item h => hlegible item (List.mem_cons_of_mem _ h))
      (fun item h => hreads item (List.mem_cons_of_mem _ h)) hlength
    rw [List.append_assoc, List.cons_append, readItems,
      hreads item List.mem_cons_self (closes_comma _) (by omega)]
    rw [hprint] at hrest ⊢
    simp only [bind, Except.bind, skipSpace_cons (c := ',') rfl, List.cons_append,
      skipSpace_cons hspace]
    -- what follows the comma begins an item
    split
    next h => exact absurd (List.cons.inj h).1 hbracket
    next h => cases h
    next =>
      rw [List.cons_append] at hrest
      rw [hrest]
      rfl

/-- The members of an object read back up to its end. -/
theorem readMembers_print {depth : Nat} :
    ∀ {members : List (String × Json)} {fuel : Nat} (rest : List Char), members ≠ [] →
      (∀ member ∈ members, ReadsBack depth member.2) → (printMembers members).length < fuel →
        readMembers fuel depth (printMembers members ++ '\x7d' :: rest) = .ok (members, rest)
  | [], _, _, hne, _, _ => absurd rfl hne
  | _ :: _, 0, _, _, _, hfuel => absurd hfuel (Nat.not_lt_zero _)
  | [(key, value)], fuel + 1, rest, _, hreads, hfuel => by
    rw [printMembers] at hfuel ⊢
    simp only [List.append_assoc, List.length_append] at hfuel ⊢
    rw [List.singleton_append, readMembers, readKey_print]
    simp only [bind, Except.bind]
    rw [hreads (key, value) List.mem_cons_self (closes_brace rest) (by dsimp only; omega)]
    simp only [skipSpace_cons (c := '\x7d') rfl, pure, Except.pure]
  | (key, value) :: next :: more, fuel + 1, rest, _, hreads, hfuel => by
    obtain ⟨cs, hprint⟩ := head_members next more
    rw [printMembers_cons] at hfuel ⊢
    simp only [List.length_append, List.length_cons] at hfuel
    have hlength : (printMembers (next :: more)).length < fuel := by omega
    have hrest := readMembers_print rest (List.cons_ne_nil next more)
      (fun member h => hreads member (List.mem_cons_of_mem _ h)) hlength
    simp only [List.append_assoc, List.cons_append]
    rw [readMembers, readKey_print]
    simp only [bind, Except.bind]
    rw [hreads (key, value) List.mem_cons_self (closes_comma _) (by dsimp only; omega)]
    rw [hprint, List.cons_append] at hrest
    rw [hprint, List.cons_append]
    simp only [skipSpace_cons (c := ',') rfl, skipSpace_cons (c := '"') rfl]
    -- what follows the comma begins a member
    split
    next h => cases h
    next h => cases h
    next =>
      rw [hrest]
      rfl

/-- A document reads back when it does with a step to spare for it. -/
theorem readsBack_of_succ {depth : Nat} {j : Json} (h : Legible depth j)
    (hstep : ∀ {fuel : Nat} {rest : List Char}, Closes rest → (print j).length ≤ fuel + 1 →
      readValue (fuel + 1) depth (print j ++ rest) = .ok (j, rest)) : ReadsBack depth j := by
  intro fuel rest hrest hfuel
  cases fuel with
  | zero =>
    obtain ⟨c, cs, hprint, _⟩ := h.head
    rw [hprint] at hfuel
    cases hfuel
  | succ fuel => exact hstep hrest hfuel

theorem readsBack_integer (depth : Nat) {n : Int} (h : InRange n) :
    ReadsBack depth (.number (.int n)) := by
  refine readsBack_of_succ (.integer depth h) fun {fuel rest} hrest _ => ?_
  have hread := readNumber_print h hrest
  obtain ⟨c, cs, hprint, hc⟩ := head_integer n
  rw [hprint, List.cons_append] at hread
  -- a minus or a digit begins nothing but a number
  have hother : isSpace c = false ∧ c ≠ 'n' ∧ c ≠ 't' ∧ c ≠ 'f' ∧ c ≠ '"' := by
    rcases hc with rfl | hdigit
    · decide
    · refine ⟨(opens_of_digit hdigit).1, ?_, ?_, ?_, ?_⟩ <;> rintro rfl <;> cases hdigit
  obtain ⟨hspace, hn, ht, hf, hquote⟩ := hother
  rw [print, hprint, List.cons_append, readValue, skipSpace_cons hspace]
  dsimp only
  rw [if_neg hn, if_neg ht, if_neg hf, if_neg hquote, if_pos hc, hread]

theorem readsBack_string (depth : Nat) (s : String) : ReadsBack depth (.string s) := by
  refine readsBack_of_succ (.string depth s) fun {fuel rest} _ _ => ?_
  have hprint : print (.string s) ++ rest
      = '"' :: (s.toList.flatMap escapeChar ++ '"' :: rest) := by
    simp [print, printString]
  rw [hprint, readValue, skipSpace_cons rfl]
  simp [readString_print, bind, Except.bind, pure, Except.pure]

/-- A bracket is followed by items, unless the sequence is empty. -/
theorem readValue_bracket {fuel depth : Nat} {c : Char} {cs rest : List Char} {items : List Json}
    (hc : Opens c) (h : readItems fuel depth (c :: cs) = .ok (items, rest)) :
    readValue (fuel + 1) (depth + 1) ('[' :: c :: cs) = .ok (.array items, rest) := by
  rw [readValue, skipSpace_cons rfl]
  simp only [skipSpace_cons hc.1, isDecimalDigit_eq]
  rw [if_neg (by decide), if_neg (by decide), if_neg (by decide), if_neg (by decide),
    if_neg (by decide), if_pos trivial]
  split
  next heq => exact absurd (List.cons.inj heq).1 hc.2
  next heq => cases heq
  next =>
    rw [h]
    rfl

/-- A brace is followed by members, which begin with a quote, unless the object is empty. -/
theorem readValue_brace {fuel depth : Nat} {cs rest : List Char}
    {members : List (String × Json)}
    (h : readMembers fuel depth ('"' :: cs) = .ok (members, rest)) :
    readValue (fuel + 1) (depth + 1) ('\x7b' :: '"' :: cs) = .ok (.object members, rest) := by
  rw [readValue, skipSpace_cons rfl]
  simp only [skipSpace_cons (c := '"') rfl, isDecimalDigit_eq]
  rw [if_neg (by decide), if_neg (by decide), if_neg (by decide), if_neg (by decide),
    if_neg (by decide), if_neg (by decide), if_pos trivial]
  split
  next heq => cases heq
  next heq => cases heq
  next =>
    rw [h]
    rfl

theorem readsBack_array {depth : Nat} {items : List Json}
    (hlegible : ∀ item ∈ items, Legible depth item) (h : ∀ item ∈ items, ReadsBack depth item) :
    ReadsBack (depth + 1) (.array items) := by
  refine readsBack_of_succ (.array hlegible) fun {fuel rest} _ hfuel => ?_
  have hprint : print (.array items) ++ rest = '[' :: (printItems items ++ ']' :: rest) := by
    simp [print]
  rw [hprint]
  cases items with
  | nil =>
    rw [printItems, List.nil_append, readValue]
    rfl
  | cons item more =>
    have hlength : (printItems (item :: more)).length < fuel := by
      rw [print] at hfuel
      simp only [List.length_append, List.length_cons, List.length_nil] at hfuel
      omega
    have hitems := readItems_print rest (List.cons_ne_nil item more) hlegible h hlength
    obtain ⟨c, cs, hitem, hopens⟩ := (hlegible item List.mem_cons_self).head_items more
    rw [hitem, List.cons_append] at hitems ⊢
    exact readValue_bracket hopens hitems

theorem readsBack_object {depth : Nat} {members : List (String × Json)}
    (hlegible : ∀ member ∈ members, Legible depth member.2)
    (h : ∀ member ∈ members, ReadsBack depth member.2) :
    ReadsBack (depth + 1) (.object members) := by
  refine readsBack_of_succ (.object hlegible) fun {fuel rest} _ hfuel => ?_
  have hprint : print (.object members) ++ rest
      = '\x7b' :: (printMembers members ++ '\x7d' :: rest) := by
    simp [print]
  rw [hprint]
  cases members with
  | nil =>
    rw [printMembers, List.nil_append, readValue]
    rfl
  | cons member more =>
    have hlength : (printMembers (member :: more)).length < fuel := by
      rw [print] at hfuel
      simp only [List.length_append, List.length_cons, List.length_nil] at hfuel
      omega
    have hmembers := readMembers_print rest (List.cons_ne_nil member more) h hlength
    obtain ⟨cs, hmember⟩ := head_members member more
    rw [hmember, List.cons_append] at hmembers ⊢
    exact readValue_brace hmembers

/-- The text of a legible document reads back, whatever mark that closes follows. -/
theorem Legible.readsBack {depth : Nat} {j : Json} (h : Legible depth j) : ReadsBack depth j := by
  induction h with
  | null depth =>
    refine readsBack_of_succ (.null depth) fun {fuel rest} _ _ => ?_
    rw [print, readValue]
    rfl
  | bool depth b =>
    refine readsBack_of_succ (.bool depth b) fun {fuel rest} _ _ => ?_
    cases b <;> rw [print, readValue] <;> rfl
  | string depth s => exact readsBack_string depth s
  | integer depth hn => exact readsBack_integer depth hn
  | array hitems ih => exact readsBack_array hitems ih
  | object hmembers ih => exact readsBack_object hmembers ih

/-- The text of a legible document reads as that document. -/
theorem parseTree_text {j : Json} (h : Legible depthLimit j) : parseTree j.text = .ok j := by
  have hread : readValue (2 * (print j).length + 2) depthLimit (print j ++ []) = .ok (j, []) :=
    h.readsBack closes_nil (by omega)
  rw [List.append_nil] at hread
  unfold parseTree text readDocument
  rw [String.toList_ofList]
  dsimp only
  rw [hread]
  rfl

/-- The text of a legible document reads as the document with the members of its objects in
    order. -/
theorem parse_text {j : Json} (h : Legible depthLimit j) : parse j.text = .ok j.canonical := by
  rw [parse, parseTree_text h]
  rfl

end TenantTree.Json
