/-
  TenantTree.Proofs.InexactTypes — which types of lookup fields are refused for their inexact texts.

  The check of a lookup field works on the text of its type. Blanks left out, it refuses exactly the
  texts of a float type behind any path, within options that are written without a path
  (`hasInexactText_iff`, §3): wrappings are taken off from both ends (§1), and of the path that is
  left the last segment counts (§2). A type is written as tokens with blanks between them, each name
  behind a path of its own (§4), and the name within all its options is the last one of its text
  (§5). So floats are refused however they are written, as long as no option is behind a path, and
  no other type is (`refuses_floats`, §6).
-/
import TenantTree.Declaration.TypeText
import TenantTree.Example.Widgets
import TenantTree.Proofs.WellFormed

namespace TenantTree.Metadata

/-! ## §1. Options. -/

/-- What stands in front of a type within an option. -/
def optionOpening : List Char := ['O', 'p', 't', 'i', 'o', 'n', '<']

/-- A text within `Option<…>`, a number of times. -/
def wrap : Nat → List Char → List Char
  | 0, cs => cs
  | n + 1, cs => optionOpening ++ wrap n cs ++ ['>']

theorem length_wrap (n : Nat) (cs : List Char) : (wrap n cs).length = cs.length + 8 * n := by
  induction n with
  | zero => rfl
  | succ n ih =>
    simp only [wrap, List.length_append, ih]
    simp [optionOpening]
    omega

/-- One wrapping is taken off. -/
theorem unwrapOption_wrapped (fuel : Nat) (cs : List Char) :
    unwrapOption (fuel + 1) (optionOpening ++ cs ++ ['>']) = unwrapOption fuel cs := by
  simp [unwrapOption, optionOpening]

/-- Nothing is taken off a text that is not wrapped. -/
theorem unwrapOption_bare {cs : List Char} (h : ∀ inner, cs ≠ optionOpening ++ inner ++ ['>'])
    (fuel : Nat) : unwrapOption fuel cs = cs := by
  cases fuel with
  | zero => rfl
  | succ fuel =>
    simp only [unwrapOption]
    split
    next hopening =>
      obtain ⟨inner, rfl⟩ := List.isPrefixOf_iff_prefix.mp hopening
      split
      next hclosing =>
        obtain ⟨cs, hcs⟩ := List.getLast?_eq_some_iff.mp hclosing
        refine absurd ?_ (h cs)
        rw [List.drop_left] at hcs
        rw [hcs, List.append_assoc]
        rfl
      next => rfl
    next => rfl

/-- All wrappings are taken off a text that is not wrapped itself. -/
theorem unwrapOption_wrap {cs : List Char} (h : ∀ inner, cs ≠ optionOpening ++ inner ++ ['>'])
    {n fuel : Nat} (hfuel : n ≤ fuel) : unwrapOption fuel (wrap n cs) = cs := by
  induction n generalizing fuel with
  | zero => exact unwrapOption_bare h fuel
  | succ n ih =>
    obtain ⟨fuel, rfl⟩ : ∃ k, fuel = k + 1 := ⟨fuel - 1, by omega⟩
    rw [wrap, unwrapOption_wrapped]
    exact ih (by omega)

/-- A text is what is left of it, wrapped again. -/
theorem exists_wrap (fuel : Nat) (cs : List Char) : ∃ n, cs = wrap n (unwrapOption fuel cs) := by
  induction fuel generalizing cs with
  | zero => exact ⟨0, rfl⟩
  | succ fuel ih =>
    by_cases hwrapped : ∃ inner, cs = optionOpening ++ inner ++ ['>']
    · obtain ⟨inner, rfl⟩ := hwrapped
      obtain ⟨n, hn⟩ := ih inner
      rw [unwrapOption_wrapped]
      exact ⟨n + 1, by rw [wrap, ← hn]⟩
    · have hbare : ∀ inner, cs ≠ optionOpening ++ inner ++ ['>'] := by
        intro inner heq
        exact hwrapped ⟨inner, heq⟩
      rw [unwrapOption_bare hbare]
      exact ⟨0, rfl⟩

/-! ## §2. Paths. -/

/-- Whether the last segment of a path may follow: nothing stands before it, or a double colon. -/
def IsPathStart (start : List Char) : Prop := start = [] ∨ [':', ':'] <:+ start

theorem beforeColons_append {name rest : List Char} (hname : ':' ∉ name)
    (hrest : rest = [] ∨ [':', ':'] <+: rest) : beforeColons (name ++ rest) = name := by
  induction name with
  | nil =>
    rcases hrest with rfl | ⟨after, rfl⟩
    · rfl
    · rfl
  | cons c cs ih =>
    simp only [List.mem_cons, not_or] at hname
    have hc : c ≠ ':' := Ne.symm hname.1
    simp [beforeColons, hc, ih hname.2]

theorem exists_beforeColons (cs : List Char) :
    ∃ rest, cs = beforeColons cs ++ rest ∧ (rest = [] ∨ [':', ':'] <+: rest) := by
  induction cs using beforeColons.induct with
  | case1 => exact ⟨[], rfl, .inl rfl⟩
  | case2 rest => exact ⟨':' :: ':' :: rest, rfl, .inr ⟨rest, rfl⟩⟩
  | case3 c rest hcolons ih =>
    obtain ⟨after, hafter, hends⟩ := ih
    refine ⟨after, ?_, hends⟩
    rw [beforeColons, List.cons_append, ← hafter]
    exact hcolons

/-- The name behind the start of a path is its last segment. -/
theorem lastSegment_append {start name : List Char} (hstart : IsPathStart start)
    (hname : ':' ∉ name) : lastSegment (start ++ name) = name := by
  unfold lastSegment
  rw [List.reverse_append, beforeColons_append]
  · simp
  · simpa using hname
  · rcases hstart with rfl | hcolons
    · simp
    · exact .inr (by simpa using List.reverse_prefix.mpr hcolons)

/-- In front of the last segment stands the start of a path. -/
theorem exists_lastSegment (cs : List Char) :
    ∃ start, cs = start ++ lastSegment cs ∧ IsPathStart start := by
  obtain ⟨rest, hrest, hends⟩ := exists_beforeColons cs.reverse
  refine ⟨rest.reverse, ?_, ?_⟩
  · rw [lastSegment, ← List.reverse_append, ← hrest, List.reverse_reverse]
  · rcases hends with rfl | hcolons
    · exact .inl rfl
    · exact .inr (by simpa using List.reverse_suffix.mpr hcolons)

/-! ## §3. Refused texts. -/

/-- The names of the binary floating-point types. -/
def floatNames : List String := ["f32", "f64"]

/-- Whether a character may be part of a name. -/
def isNamePart (c : Char) : Bool := !Text.isBlank c && c != ':' && c != '<' && c != '>'

/-- A name has characters, and all of them may be part of one. -/
def IsName (cs : List Char) : Prop := cs ≠ [] ∧ ∀ c ∈ cs, isNamePart c = true

theorem IsName.of_floatName {name : String} (h : name ∈ floatNames) : IsName name.toList := by
  simp only [floatNames, List.mem_cons, List.not_mem_nil, or_false] at h
  rcases h with rfl | rfl
  · exact ⟨by decide, List.all_eq_true.mp (by decide)⟩
  · exact ⟨by decide, List.all_eq_true.mp (by decide)⟩

theorem IsName.not_mem {cs : List Char} (h : IsName cs) {c : Char} (hc : isNamePart c = false) :
    c ∉ cs := by
  intro hmem
  have hpart := h.2 c hmem
  rw [hc] at hpart
  cases hpart

/-- A text that ends with a name ends with no closing bracket. -/
theorem IsName.append_ne {name : List Char} (h : IsName name) (start before : List Char) :
    start ++ name ≠ before ++ ['>'] := by
  intro heq
  have hlast := congrArg List.getLast? heq
  rw [List.getLast?_append_of_ne_nil _ h.1, List.getLast?_concat] at hlast
  exact h.not_mem (by decide) (List.mem_of_getLast? hlast)

/-- A type is refused for its text exactly when this is, blanks left out, the name of a float type
    behind the start of a path, within any number of options. -/
theorem hasInexactText_iff {type : String} :
    hasInexactText type = true ↔ ∃ n start, ∃ name ∈ floatNames, IsPathStart start
      ∧ (Text.withoutBlanks type).toList = wrap n (start ++ name.toList) := by
  have hsegment (cs : List Char) : (lastSegment cs == ['f', '3', '2']
      || lastSegment cs == ['f', '6', '4']) = true ↔ ∃ name ∈ floatNames,
        lastSegment cs = name.toList := by
    simp [floatNames]
  unfold hasInexactText
  rw [hsegment]
  generalize (Text.withoutBlanks type).toList = cs
  constructor
  · intro h
    obtain ⟨name, hname, hlast⟩ := h
    obtain ⟨n, hn⟩ := exists_wrap cs.length cs
    obtain ⟨start, hcs, hstart⟩ := exists_lastSegment (unwrapOption cs.length cs)
    rw [hlast] at hcs
    exact ⟨n, start, name, hname, hstart, hn.trans (congrArg (wrap n) hcs)⟩
  · intro h
    obtain ⟨n, start, name, hname, hstart, rfl⟩ := h
    have hfloat := IsName.of_floatName hname
    refine ⟨name, hname, ?_⟩
    rw [unwrapOption_wrap (fun inner => hfloat.append_ne start _) (by rw [length_wrap]; omega)]
    exact lastSegment_append hstart (hfloat.not_mem (by decide))

/-! ## §4. Written types. -/

/-- A type as it is written: a name, or an option of another type, each behind a path. A path is
    given by the tokens in front of each double colon; there are none in front of a leading one. -/
inductive WrittenType where
  | name (path : List (List String)) (name : String)
  | option (path : List (List String)) (inner : WrittenType)

/-- The tokens of a path, each piece with its double colon. -/
def pathTokens (path : List (List String)) : List String :=
  path.flatMap fun piece => piece ++ ["::"]

namespace WrittenType

/-- The tokens of a type. -/
def tokens : WrittenType → List String
  | name path n => pathTokens path ++ [n]
  | option path inner => pathTokens path ++ ("Option" :: "<" :: (inner.tokens ++ [">"]))

/-- The name within all options. -/
def core : WrittenType → String
  | name _ n => n
  | option _ inner => inner.core

/-- Whether no option is behind a path. -/
def Direct : WrittenType → Prop
  | name _ _ => True
  | option path inner => path = [] ∧ inner.Direct

/-- Whether the options are behind paths of names only. -/
def Plain : WrittenType → Prop
  | name _ _ => True
  | option path inner =>
    (∀ piece ∈ path, ∀ token ∈ piece, ∀ c ∈ token.toList, isNamePart c = true) ∧ inner.Plain

end WrittenType

/-- A text writes tokens one after the other, with blanks in front of each and behind the last. -/
def Layout (tokens : List String) (cs : List Char) : Prop :=
  ∃ (pieces : List (List Char × String)) (rest : List Char), pieces.map Prod.snd = tokens
    ∧ (∀ c ∈ pieces.flatMap Prod.fst ++ rest, Text.isBlank c = true)
    ∧ cs = pieces.flatMap (fun piece => piece.1 ++ piece.2.toList) ++ rest

/-- The characters that are not blank. -/
def bare (cs : List Char) : List Char := cs.filter fun c => !Text.isBlank c

@[simp] theorem bare_append (cs ds : List Char) : bare (cs ++ ds) = bare cs ++ bare ds :=
  List.filter_append ..

theorem bare_eq_nil {cs : List Char} (h : ∀ c ∈ cs, Text.isBlank c = true) : bare cs = [] := by
  apply List.filter_eq_nil_iff.mpr
  intro c hc
  simp [h c hc]

theorem IsName.bare_eq {cs : List Char} (h : IsName cs) : bare cs = cs := by
  apply List.filter_eq_self.mpr
  intro c hc
  have hpart := h.2 c hc
  simp only [isNamePart, Bool.and_eq_true] at hpart
  exact hpart.1.1.1

/-- Blanks left out, a text is its tokens. -/
theorem Layout.bare_eq {tokens : List String} {cs : List Char} (h : Layout tokens cs) :
    bare cs = bare (tokens.flatMap String.toList) := by
  obtain ⟨pieces, rest, rfl, hblank, rfl⟩ := h
  induction pieces with
  | nil =>
    show bare rest = []
    exact bare_eq_nil hblank
  | cons piece pieces ih =>
    rw [List.flatMap_cons, List.append_assoc] at hblank
    obtain ⟨hgap, hrest⟩ := List.forall_mem_append.mp hblank
    rw [List.map_cons, List.flatMap_cons, List.flatMap_cons, List.append_assoc, bare_append,
      ih hrest, bare_append, bare_append, bare_eq_nil hgap, List.nil_append]

/-- The text of the path, blanks left out. -/
def pathText (path : List (List String)) : List Char :=
  bare ((pathTokens path).flatMap String.toList)

/-- The text of the type, blanks left out. -/
def WrittenType.bareText (t : WrittenType) : List Char := bare (t.tokens.flatMap String.toList)

theorem pathText_cons (piece : List String) (path : List (List String)) :
    pathText (piece :: path)
      = bare (piece.flatMap String.toList) ++ [':', ':'] ++ pathText path := by
  have htokens : pathTokens (piece :: path) = piece ++ ["::"] ++ pathTokens path := rfl
  have hcolons : bare (["::"].flatMap String.toList) = [':', ':'] := by decide
  rw [pathText, htokens, List.flatMap_append, List.flatMap_append, bare_append, bare_append,
    hcolons]
  rfl

theorem bareText_option (path : List (List String)) (inner : WrittenType) :
    (WrittenType.option path inner).bareText
      = pathText path ++ (optionOpening ++ inner.bareText ++ ['>']) := by
  have hopening : bare ("Option".toList ++ "<".toList) = optionOpening := by decide
  have hclosing : bare ">".toList = ['>'] := by decide
  simp only [WrittenType.bareText, WrittenType.tokens, List.flatMap_append, List.flatMap_cons,
    List.flatMap_nil, List.append_nil, bare_append, hclosing, pathText, ← hopening,
    List.append_assoc]

theorem isPathStart_pathText (path : List (List String)) : IsPathStart (pathText path) := by
  induction path with
  | nil => exact .inl rfl
  | cons piece path ih =>
    rw [pathText_cons]
    rcases ih with hnil | hcolons
    · rw [hnil, List.append_nil]
      exact .inr (List.suffix_append _ _)
    · exact .inr (hcolons.trans (List.suffix_append _ _))

/-- The text of a name behind a path. -/
theorem bareText_name {n : String} (h : IsName n.toList) (path : List (List String)) :
    (WrittenType.name path n).bareText = pathText path ++ n.toList := by
  simp [WrittenType.bareText, WrittenType.tokens, pathText, h.bare_eq]

/-- A type whose options are direct is the text of its name behind a path, wrapped. -/
theorem exists_wrap_of_direct {t : WrittenType} (hname : IsName t.core.toList) (h : t.Direct) :
    ∃ n start, IsPathStart start ∧ t.bareText = wrap n (start ++ t.core.toList) := by
  induction t with
  | name path n => exact ⟨0, pathText path, isPathStart_pathText path, bareText_name hname path⟩
  | option path inner ih =>
    obtain ⟨rfl, hinner⟩ := h
    obtain ⟨n, start, hstart, htext⟩ := ih hname hinner
    refine ⟨n + 1, start, hstart, ?_⟩
    rw [bareText_option, htext]
    rfl

/-! ## §5. The last name of a text. -/

/-- The last name of a text, closing brackets left out. -/
def lastName (cs : List Char) : List Char :=
  ((cs.reverse.dropWhile fun c => c == '>').takeWhile isNamePart).reverse

/-- A text that ends with a name and brackets that close behind it; in front of the name stands
    nothing that may be part of it. -/
def EndsWith (name cs : List Char) : Prop :=
  ∃ before n, cs = before ++ name ++ List.replicate n '>'
    ∧ ∀ c, before.getLast? = some c → isNamePart c = false

theorem EndsWith.lastName_eq {name cs : List Char} (hname : IsName name) (h : EndsWith name cs) :
    lastName cs = name := by
  obtain ⟨before, n, rfl, hbefore⟩ := h
  have hopen : (name.reverse ++ before.reverse).dropWhile (fun c => c == '>')
      = name.reverse ++ before.reverse := by
    obtain ⟨c, cs, hcs⟩ := List.exists_cons_of_ne_nil (List.reverse_ne_nil_iff.mpr hname.1)
    have hc : c ≠ '>' := by
      intro heq
      have hmem : c ∈ name.reverse := by simp [hcs]
      exact hname.not_mem (by decide) (heq ▸ List.mem_reverse.mp hmem)
    rw [hcs, List.cons_append, List.dropWhile_cons_of_neg (by simpa using hc)]
  have hend : before.reverse.takeWhile isNamePart = [] := by
    cases hlast : before.reverse with
    | nil => rfl
    | cons c cs =>
      have hc := hbefore c (by rw [List.getLast?_eq_head?_reverse, hlast]; rfl)
      rw [List.takeWhile_cons_of_neg (by simp [hc])]
  have hall : ∀ c ∈ name.reverse, isNamePart c = true := by
    intro c hc
    exact hname.2 c (List.mem_reverse.mp hc)
  rw [lastName, List.reverse_append, List.reverse_append, List.reverse_replicate,
    List.dropWhile_append_of_pos (by simp), hopen, List.takeWhile_append_of_pos hall, hend]
  simp

/-- A name behind the start of a path is the last name. -/
theorem EndsWith.of_path {start name : List Char} (h : IsPathStart start) :
    EndsWith name (start ++ name) := by
  refine ⟨start, 0, by simp, ?_⟩
  intro c hc
  rcases h with rfl | ⟨before, rfl⟩
  · cases hc
  · have hcolon : c = ':' := by simpa using hc.symm
    rw [hcolon]
    decide

/-- The last name of an option is that of the type within it. -/
theorem EndsWith.option {name cs : List Char} (h : EndsWith name cs) (before : List Char) :
    EndsWith name (before ++ (optionOpening ++ cs ++ ['>'])) := by
  obtain ⟨inner, n, rfl, hinner⟩ := h
  refine ⟨before ++ optionOpening ++ inner, n + 1, ?_, ?_⟩
  · simp [List.replicate_succ']
  · intro c hc
    cases hlast : inner.getLast? with
    | none =>
      have hbracket : c = '<' := by
        simpa [List.getLast?_eq_none_iff.mp hlast, optionOpening] using hc.symm
      rw [hbracket]
      decide
    | some d =>
      rw [List.getLast?_append, hlast] at hc
      cases hc
      exact hinner c hlast

theorem EndsWith.wrap {name cs : List Char} (h : EndsWith name cs) (n : Nat) :
    EndsWith name (wrap n cs) := by
  induction n with
  | zero => exact h
  | succ n ih => exact ih.option []

theorem EndsWith.bareText {t : WrittenType} (hname : IsName t.core.toList) :
    EndsWith t.core.toList t.bareText := by
  induction t with
  | name path n =>
    rw [bareText_name (n := n) hname]
    exact .of_path (isPathStart_pathText path)
  | option path inner ih =>
    rw [bareText_option]
    exact (ih hname).option (pathText path)

/-- A refused text is that of a type which names a float. -/
theorem core_of_wrap {t : WrittenType} (hname : IsName t.core.toList) {n : Nat} {start : List Char}
    {name : String} (hfloat : name ∈ floatNames) (hstart : IsPathStart start)
    (h : t.bareText = wrap n (start ++ name.toList)) : t.core = name := by
  have hlast := (EndsWith.bareText hname).lastName_eq hname
  have hends : EndsWith name.toList (wrap n (start ++ name.toList)) := (EndsWith.of_path hstart).wrap n
  rw [h, hends.lastName_eq (IsName.of_floatName hfloat), String.toList_inj] at hlast
  exact hlast.symm

/-- What starts with a name and a colon does not start an option. -/
theorem append_colon_ne {word rest after : List Char} (h : ∀ c ∈ word, isNamePart c = true) :
    word ++ (':' :: rest) ≠ optionOpening ++ after := by
  intro heq
  have hdrop := congrArg (List.dropWhile isNamePart) heq
  have hcolon : (':' :: rest).dropWhile isNamePart = ':' :: rest := rfl
  have hbracket : (optionOpening ++ after).dropWhile isNamePart = '<' :: after := rfl
  rw [List.dropWhile_append_of_pos h, hcolon, hbracket] at hdrop
  cases hdrop

/-- Where the options of a refused text are behind paths of names only, they are behind none. -/
theorem direct_of_wrap {t : WrittenType} (hname : IsName t.core.toList) (hplain : t.Plain) {n : Nat}
    {start : List Char} {name : String} (hfloat : name ∈ floatNames)
    (h : t.bareText = wrap n (start ++ name.toList)) : t.Direct := by
  induction t generalizing n with
  | name path m => trivial
  | option path inner ih =>
    rw [bareText_option] at h
    cases n with
    | zero =>
      rw [← List.append_assoc] at h
      exact absurd h.symm ((IsName.of_floatName hfloat).append_ne start _)
    | succ n =>
      cases path with
      | nil =>
        refine ⟨rfl, ih hname hplain.2 (n := n) ?_⟩
        have hinner : optionOpening ++ inner.bareText ++ ['>']
            = optionOpening ++ wrap n (start ++ name.toList) ++ ['>'] := h
        simpa using hinner
      | cons piece path =>
        -- the first piece of the path ends with a colon, and the word in front of a bracket does not
        have hpiece : ∀ c ∈ bare (piece.flatMap String.toList), isNamePart c = true := by
          intro c hc
          obtain ⟨token, htoken, hmem⟩ := List.mem_flatMap.mp (List.mem_of_mem_filter hc)
          exact hplain.1 piece List.mem_cons_self token htoken c hmem
        rw [pathText_cons, wrap] at h
        simp only [List.append_assoc] at h
        exact absurd h (append_colon_ne hpiece)

/-- The check by the text of a type refuses no type but those that name a float, and each of these
    whose options are behind no path. Options behind paths of names are never refused. -/
theorem hasInexactText_of_layout {t : WrittenType} {text : String} (hname : IsName t.core.toList)
    (h : Layout t.tokens text.toList) :
    (t.core ∈ floatNames → t.Direct → hasInexactText text = true)
    ∧ (t.core ∉ floatNames → hasInexactText text = false)
    ∧ (t.Plain → hasInexactText text = true → t.Direct) := by
  have htext : (Text.withoutBlanks text).toList = t.bareText := by
    rw [WrittenType.bareText, ← h.bare_eq]
    simp [Text.withoutBlanks, bare]
  rw [← Bool.not_eq_true, hasInexactText_iff, htext]
  refine ⟨?_, ?_, ?_⟩
  · intro hfloat hdirect
    obtain ⟨n, start, hstart, hwrap⟩ := exists_wrap_of_direct hname hdirect
    exact ⟨n, start, t.core, hfloat, hstart, hwrap⟩
  · intro hother hrefused
    obtain ⟨n, start, name, hfloat, hstart, hwrap⟩ := hrefused
    rw [core_of_wrap hname hfloat hstart hwrap] at hother
    exact hother hfloat
  · intro hplain hrefused
    obtain ⟨n, start, name, hfloat, hstart, hwrap⟩ := hrefused
    exact direct_of_wrap hname hplain hfloat hwrap

/-! ## §6. Lookup fields. -/

/-- A lookup field whose type is refused has this fault, unless its roles exclude each other. -/
theorem roleFault?_of_inexact {f : FieldDecl RecordType} (hlookup : f.lookup = true)
    (h : hasInexactText f.type = true) (typeName : String) :
    roleFault? typeName f = some (.inexactLookup typeName f.name f.type)
      ∨ ∃ roles, roleFault? typeName f = some (.conflict typeName f.name roles) := by
  unfold roleFault?
  rw [hlookup, h]
  split_ifs <;> simp_all

/-- Only a type that is refused is the fault of a lookup field. -/
theorem inexact_of_roleFault? {f : FieldDecl RecordType} {typeName typeName' name type : String}
    (h : roleFault? typeName f = some (.inexactLookup typeName' name type)) :
    hasInexactText f.type = true := by
  unfold roleFault? at h
  split_ifs at h with _ _ _ _ _ _ hinexact <;> cases h
  rw [Bool.and_eq_true] at hinexact
  exact hinexact.2

/-- No metadata is extracted from fields one of which has a fault of its own. -/
theorem error_of_roleFault? {typeName : String} {fields : List (FieldDecl RecordType)}
    {f : FieldDecl RecordType} (hf : f ∈ fields) (h : roleFault? typeName f ≠ none)
    (table : Option String) : ∃ fault, ofFields typeName table fields = .error fault := by
  cases hfields : ofFields typeName table fields with
  | error fault => exact ⟨fault, rfl⟩
  | ok m =>
    obtain ⟨_, _, hcolumns⟩ := Outcome.ok_of_bind hfields
    obtain ⟨found, hfound, _⟩ := Outcome.ok_of_bind hcolumns
    exact absurd (roleFault?_of_columnsOf hfound f hf) h

/-- Lookup fields of float types are refused however their types are written, unless an option among
    them is behind a path. For every type that is written as tokens with any blanks between them: if
    it names a float, and its options are behind no path, no metadata is extracted from fields one of
    which is a lookup of it; the fault of this field is its type, unless its roles exclude each other.
    If it names anything else, its type is never a fault; nor is it if some option is behind a
    path, where such paths hold names only. -/
theorem refuses_floats {t : WrittenType} {text : String} (hname : IsName t.core.toList)
    (h : Layout t.tokens text.toList) :
    (t.core ∈ floatNames → t.Direct → ∀ typeName, ∀ f : FieldDecl RecordType, f.lookup = true →
      f.type = text → (roleFault? typeName f = some (.inexactLookup typeName f.name text)
          ∨ ∃ roles, roleFault? typeName f = some (.conflict typeName f.name roles))
        ∧ ∀ table fields, f ∈ fields → ∃ fault, ofFields typeName table fields = .error fault)
    ∧ (t.core ∉ floatNames ∨ (t.Plain ∧ ¬ t.Direct) → ∀ typeName, ∀ f : FieldDecl RecordType,
      f.type = text → ∀ typeName' name type,
        roleFault? typeName f ≠ some (.inexactLookup typeName' name type)) := by
  obtain ⟨hrefused, hother, hpaths⟩ := hasInexactText_of_layout hname h
  constructor
  · intro hfloat hdirect typeName f hlookup htype
    subst htype
    have hfault := roleFault?_of_inexact hlookup (hrefused hfloat hdirect) typeName
    refine ⟨hfault, fun table fields hf => error_of_roleFault? hf ?_ table⟩
    rcases hfault with heq | ⟨roles, heq⟩ <;> simp [heq]
  · intro hspared typeName f htype typeName' name type hfault
    subst htype
    have hinexact := inexact_of_roleFault? hfault
    rcases hspared with hspared | ⟨hplain, hpathed⟩
    · rw [hother hspared] at hinexact
      cases hinexact
    · exact hpathed (hpaths hplain hinexact)

/-- A rate may be an option of a float behind a path, with blanks at several places. -/
theorem refuses_floats_rate :
    let t : WrittenType := .option [] (.name [[], ["std"], ["primitive"]] "f64")
    let text := "Option< ::std::primitive :: f64 >"
    IsName t.core.toList ∧ Layout t.tokens text.toList ∧ t.core ∈ floatNames ∧ t.Direct
      ∧ ∃ fault, ofFields "Rate" (some "rates") [Example.generatedKey,
        { Example.stored "rate" text .optional with lookup := true }] = .error fault := by
  intro t text
  have hname : IsName t.core.toList := IsName.of_floatName (by decide)
  have hlayout : Layout t.tokens text.toList :=
    ⟨[([], "Option"), ([], "<"), ([' '], "::"), ([], "std"), ([], "::"), ([], "primitive"),
      ([' '], "::"), ([' '], "f64"), ([' '], ">")], [], by decide,
      List.all_eq_true.mp (by decide), by decide⟩
  have hfloat : t.core ∈ floatNames := by decide
  have hdirect : t.Direct := ⟨rfl, trivial⟩
  refine ⟨hname, hlayout, hfloat, hdirect, ?_⟩
  exact ((refuses_floats hname hlayout).1 hfloat hdirect "Rate" _ rfl rfl).2 (some "rates") _
    (List.mem_cons_of_mem _ List.mem_cons_self)

/-- A rate whose option is behind a path is accepted, though its shape is that of an option, and its
    element a float. -/
theorem not_refuses_floats :
    let t : WrittenType := .option [["std"], ["option"]] (.name [] "f64")
    let text := "std::option::Option<f64>"
    Layout t.tokens text.toList ∧ t.core ∈ floatNames
      ∧ ((Declaration.TypeText.read? text).map fun type => (type.shape, type.element))
        = some (.optional, "f64")
      ∧ (ofFields "Rate" (some "rates") [Example.generatedKey,
        { Example.stored "rate" text .optional with lookup := true }]).isOk = true := by
  intro t text
  have hlayout : Layout t.tokens text.toList :=
    ⟨[([], "std"), ([], "::"), ([], "option"), ([], "::"), ([], "Option"), ([], "<"), ([], "f64"),
      ([], ">")], [], by decide, List.all_eq_true.mp (by decide), by decide⟩
  exact ⟨hlayout, by decide, by decide +kernel, by decide +kernel⟩

end TenantTree.Metadata
