/-
  TenantTree.Proofs.LookupKey — composite keys say what they are composed of.

  The length in front of a component ends at its colon and tells where the component ends, so the
  division of a key into components is the only one there is (`join_components_inj`). Tuples with
  one key have the same texts (`ofTuple_inj`). A lookup key is the key of texts that are not empty
  (`ofValues_eq_some`), so it is the key of a tuple just when the tuple has these texts. What the
  keys of lists and tuples tell of their components is put together in §4 (`keys_divide_uniquely`).
-/
import Std.Data.String.ToNat
import TenantTree.LookupKey
import TenantTree.Proofs.Outcome

namespace TenantTree.LookupKey

/-! ## §1. Components. -/

/-- The length in front of a component holds no colon. -/
theorem colon_notMem_repr (n : Nat) : ':' ∉ (toString n).toList := by
  intro h
  have hmem : ':' ∈ Nat.toDigits 10 n := by
    rw [← Nat.toList_repr]
    exact h
  have hdigit := Nat.isDigit_of_mem_toDigits (by omega) (by omega) hmem
  exact absurd hdigit (by decide)

/-- What stands before the first colon and what stands behind it are both determined. -/
theorem eq_of_append_cons {c : Char} :
    ∀ {as bs xs ys : List Char}, c ∉ as → c ∉ bs → as ++ c :: xs = bs ++ c :: ys →
      as = bs ∧ xs = ys
  | [], [], xs, ys, _, _, h => ⟨rfl, (List.cons.inj h).2⟩
  | [], b :: bs, xs, ys, _, hb, h => by
    have hc : c = b := (List.cons.inj h).1
    exact absurd (hc ▸ List.mem_cons_self) hb
  | a :: as, [], xs, ys, ha, _, h => by
    have hc : a = c := (List.cons.inj h).1
    exact absurd (hc ▸ List.mem_cons_self) ha
  | a :: as, b :: bs, xs, ys, ha, hb, h => by
    obtain ⟨hab, hrest⟩ := List.cons.inj h
    rw [List.mem_cons, not_or] at ha hb
    obtain ⟨has, hxs⟩ := eq_of_append_cons ha.2 hb.2 hrest
    exact ⟨by rw [hab, has], hxs⟩

/-- A key that starts with a component starts with no other one. -/
theorem component_append_inj {s t x y : String} (h : component s ++ x = component t ++ y) :
    s = t ∧ x = y := by
  have hcolon : ":".toList = [':'] := rfl
  have hlist := congrArg String.toList h
  simp only [component, String.toList_append, List.append_assoc, hcolon,
    List.singleton_append] at hlist
  obtain ⟨hlength, hrest⟩ := eq_of_append_cons (colon_notMem_repr s.length)
    (colon_notMem_repr t.length) hlist
  -- the lengths are one, so the components end at one place
  have hlen : s.length = t.length := Nat.repr_injective (String.toList_inj.mp hlength)
  have hchars : s.toList.length = t.toList.length := by
    rw [String.length_toList, String.length_toList, hlen]
  obtain ⟨hs, hx⟩ := List.append_inj hrest hchars
  exact ⟨String.toList_inj.mp hs, String.toList_inj.mp hx⟩

theorem component_ne_empty (s x : String) : component s ++ x ≠ "" := by
  intro h
  have hlist := congrArg String.toList h
  simp [component] at hlist

/-- A key is composed of one list of components only. -/
theorem join_components_inj :
    ∀ {ss ts : List String},
      String.join (ss.map component) = String.join (ts.map component) → ss = ts
  | [], [], _ => rfl
  | [], t :: ts, h => by
    rw [List.map_cons, String.join_cons] at h
    exact absurd h.symm (component_ne_empty t _)
  | s :: ss, [], h => by
    rw [List.map_cons, String.join_cons] at h
    exact absurd h (component_ne_empty s _)
  | s :: ss, t :: ts, h => by
    rw [List.map_cons, List.map_cons, String.join_cons, String.join_cons] at h
    obtain ⟨hs, hrest⟩ := component_append_inj h
    rw [hs, join_components_inj hrest]

/-! ## §2. Keys. -/

/-- The texts of a tuple of values, null reading as empty. -/
def texts (values : List Value) : List String := values.map fun v => v.toText.getD ""

theorem ofTuple_eq (values : List Value) :
    ofTuple values = String.join ((texts values).map component) := by
  rw [ofTuple, texts, List.map_map]
  rfl

/-- Tuples have one key just when their texts are the same, one by one. -/
theorem ofTuple_inj {values others : List Value} :
    ofTuple values = ofTuple others ↔ texts values = texts others := by
  constructor
  · intro h
    rw [ofTuple_eq, ofTuple_eq] at h
    exact join_components_inj h
  · intro h
    rw [ofTuple_eq, ofTuple_eq, h]

/-! ## §3. Lookup keys. -/

/-- Texts that are not empty are composed to the key of texts that may be missing just when they are
    these: a missing one, which reads as empty, is not among them. -/
theorem join_getD_eq_join {texts : List (Option String)} {found : List String}
    (hfound : ∀ text ∈ found, text ≠ "") :
    String.join (texts.map fun text => component (text.getD ""))
        = String.join (found.map component) ↔ texts = found.map some := by
  have hcompose : (texts.map fun text => component (text.getD ""))
      = (texts.map fun text => text.getD "").map component := by
    rw [List.map_map]
    rfl
  rw [hcompose]
  constructor
  · intro h
    have hread : (texts.map fun text => text.getD "") = found := join_components_inj h
    rw [← hread, List.map_map]
    refine (List.map_id' texts).symm.trans (List.map_congr_left fun text htext => ?_)
    -- a missing text would read as empty, and none of the others is
    cases text with
    | some text => rfl
    | none =>
      refine absurd rfl (hfound "" ?_)
      rw [← hread]
      exact List.mem_map.mpr ⟨none, htext, rfl⟩
  · intro h
    have hread : (texts.map fun text => text.getD "") = found := by
      rw [h, List.map_map]
      exact List.map_id found
    rw [hread]

/-- A tuple has the key of texts that are not empty just when it has these texts. -/
theorem ofTuple_eq_join {values : List Value} {found : List String}
    (hfound : ∀ text ∈ found, text ≠ "") :
    ofTuple values = String.join (found.map component)
      ↔ values.map Value.toText = found.map some := by
  rw [← join_getD_eq_join hfound, ofTuple, List.map_map]
  rfl

/-- The texts of all components are known when each has one that is not empty. -/
theorem mapM_text_eq_some {values : List Value} {found : List String} :
    values.mapM (fun v => v.toText.filter fun text => !text.isEmpty) = some found
      ↔ values.map Value.toText = found.map some ∧ ∀ text ∈ found, text ≠ "" := by
  have hone (text : String) (v : Value) : (v.toText.filter fun text => !text.isEmpty) = some text
      ↔ text ≠ "" ∧ v.toText = some text := by
    rw [Option.filter_eq_some_iff, and_comm]
    simp
  rw [Outcome.mapM_eq_some, ← List.forall₂_eq_eq_eq, List.forall₂_map_left_iff,
    List.forall₂_map_right_iff, and_comm]
  constructor
  · intro h
    have hboth : List.Forall₂ (fun text v => text ≠ "" ∧ Value.toText v = some text) found values :=
      (h.imp fun v text => (hone text v).mp).flip
    obtain ⟨hne, htexts⟩ := (List.forall₂_and_left found values).mp hboth
    exact ⟨hne, htexts.flip⟩
  · intro hfound
    have hboth := (List.forall₂_and_left found values).mpr ⟨hfound.1, hfound.2.flip⟩
    exact hboth.flip.imp fun v text => (hone text v).mpr

/-- There is a lookup key just when there are components and each has a text that is not empty; it
    is the key of these texts. -/
theorem ofValues_eq_some {values : List Value} {key : String} :
    ofValues values = some key ↔ values ≠ [] ∧ ∃ found : List String,
      values.map Value.toText = found.map some ∧ (∀ text ∈ found, text ≠ "")
        ∧ key = String.join (found.map component) := by
  cases values with
  | nil => exact ⟨nofun, fun h => absurd rfl h.1⟩
  | cons v rest =>
    constructor
    · intro h
      obtain ⟨found, hfound, hkey⟩ := Option.bind_eq_some_iff.mp h
      cases hkey
      obtain ⟨htexts, hne⟩ := mapM_text_eq_some.mp hfound
      exact ⟨List.cons_ne_nil v rest, found, htexts, hne, rfl⟩
    · intro hfound
      obtain ⟨_, found, htexts, hne, rfl⟩ := hfound
      refine Option.bind_eq_some_iff.mpr ⟨found, ?_, rfl⟩
      exact mapM_text_eq_some.mpr ⟨htexts, hne⟩

/-- Which lookup key there is, if any, is a matter of the texts alone. -/
theorem ofValues_congr {values others : List Value}
    (h : values.map Value.toText = others.map Value.toText) :
    ofValues values = ofValues others := by
  have hempty : values ≠ [] ↔ others ≠ [] := by
    rw [← List.length_pos_iff, ← List.length_pos_iff, ← List.length_map Value.toText, h,
      List.length_map]
  refine Option.ext fun key => ?_
  rw [ofValues_eq_some, ofValues_eq_some, hempty, h]

/-! ## §4. What keys tell. -/

/-- A key is divided into components in one way only, whatever characters they hold. So value lists
    have one lookup key just when their components have the same texts, unless neither has a key;
    and tuples have one key just when their texts are the same, null reading as empty. -/
theorem keys_divide_uniquely :
    (∀ ss ts : List String,
      String.join (ss.map component) = String.join (ts.map component) ↔ ss = ts)
    ∧ (∀ values others : List Value, ofValues values = ofValues others
        ↔ values.map Value.toText = others.map Value.toText
          ∨ (ofValues values = none ∧ ofValues others = none))
    ∧ ∀ values others : List Value, ofTuple values = ofTuple others
        ↔ (values.map fun v => v.toText.getD "") = others.map fun v => v.toText.getD "" := by
  refine ⟨fun ss ts => ⟨join_components_inj, fun h => by rw [h]⟩,
    fun values others => ⟨fun h => ?_, fun h => ?_⟩, fun values others => ofTuple_inj⟩
  · cases hkey : ofValues values with
    | none => exact .inr ⟨rfl, h.symm.trans hkey⟩
    | some key =>
      -- both are composed of texts, and the key says which
      obtain ⟨_, found, hvalues, _, hjoin⟩ := ofValues_eq_some.mp hkey
      obtain ⟨_, others', hothers, _, hjoin'⟩ := ofValues_eq_some.mp (h.symm.trans hkey)
      refine .inl ?_
      rw [hvalues, hothers, join_components_inj (hjoin.symm.trans hjoin')]
  · rcases h with htexts | ⟨hnone, hnone'⟩
    · exact ofValues_congr htexts
    · rw [hnone, hnone']

/-- A text that looks like a component is not taken for one. -/
example : ofValues [.text "3:abc", .text "d"] = some "5:3:abc1:d"
    ∧ ofValues [.text "abc", .text "1:d"] = some "3:abc3:1:d" := by decide +kernel

end TenantTree.LookupKey
