/-
  TenantTree.Proofs.Record — what setting fields and replacing children leave alone.

  Setting fields changes what those fields hold and nothing else (§2). The children of a batch are
  gathered parent by parent, so laying other children back gives each parent as many as it had, and
  its other children stay its own (`forall₂_scatter`, §3).
-/
import Mathlib.Data.List.Forall2
import TenantTree.Record

namespace TenantTree

/-! ## §1. Association lists. -/

variable {α : Type}

theorem lookup_assignKey_self (key : String) (value : α) (entries : List (String × α)) :
    (assignKey key value entries).lookup key = some value := by
  induction entries with
  | nil => simp [assignKey]
  | cons entry rest ih =>
    obtain ⟨k, v⟩ := entry
    rw [assignKey]
    by_cases hk : k = key
    · simp [hk]
    · rw [if_neg hk, List.lookup_cons, beq_eq_false_iff_ne.mpr (Ne.symm hk)]
      exact ih

theorem lookup_assignKey_ne {key other : String} (h : other ≠ key) (value : α)
    (entries : List (String × α)) :
    (assignKey key value entries).lookup other = entries.lookup other := by
  induction entries with
  | nil => simp [assignKey, h]
  | cons entry rest ih =>
    obtain ⟨k, v⟩ := entry
    rw [assignKey]
    by_cases hk : k = key
    · rw [if_pos hk, List.lookup_cons, List.lookup_cons, hk, beq_eq_false_iff_ne.mpr h]
    · rw [if_neg hk, List.lookup_cons, List.lookup_cons, ih]

/-- A key that is assigned its own value changes nothing. -/
theorem assignKey_of_lookup {key : String} {value : α} :
    ∀ {entries : List (String × α)}, entries.lookup key = some value →
      assignKey key value entries = entries
  | (k, v) :: rest, h => by
    rw [assignKey]
    by_cases hk : k = key
    · have hv : v = value := by simpa [List.lookup_cons, hk] using h
      rw [if_pos hk, hv]
    · rw [List.lookup_cons, beq_eq_false_iff_ne.mpr (Ne.symm hk)] at h
      rw [if_neg hk, assignKey_of_lookup h]

namespace Record

/-! ## §2. Fields. -/

variable {ty : RecordType} {r r' : Record} {name : String} {v : Value}

/-- An accessible field has the name that it is found by. -/
theorem name_of_accessor? {f : FieldDecl RecordType} (h : ty.accessor? name = some f) :
    f.name = name := by
  have := List.find?_some h
  simp only [Bool.and_eq_true, beq_iff_eq] at this
  exact this.2

/-- Records that hold the same have the same values. -/
theorem get_congr (h : r'.fields = r.fields) (name : String) : r'.get ty name = r.get ty name := by
  unfold get held
  rw [h]

/-- An accessible field reads as what is held under its name. -/
theorem get_hold_self {f : FieldDecl RecordType} (hf : ty.accessor? name = some f) (r : Record)
    (v : Value) : (r.hold name v).get ty name = .ok v := by
  simp [get, hf, held, hold, name_of_accessor? hf, lookup_assignKey_self]

/-- A field reads as the converted value that was last set. -/
theorem get_of_set (h : r.set ty name v = .ok r') :
    ∃ f held, ty.accessor? name = some f ∧ f.coerce v = .ok held ∧ r' = r.hold name held
      ∧ r'.get ty name = .ok held := by
  unfold set at h
  cases hf : ty.accessor? name with
  | none =>
    rw [hf] at h
    cases h
  | some f =>
    rw [hf] at h
    dsimp only at h
    cases hheld : f.coerce v with
    | error e =>
      rw [hheld] at h
      cases h
    | ok held =>
      rw [hheld] at h
      cases h
      exact ⟨f, held, rfl, hheld, rfl, get_hold_self hf r held⟩

/-- Setting a field leaves the values of the others alone. -/
theorem get_hold_ne {other : String} (h : other ≠ name) (v : Value) :
    (r.hold name v).get ty other = r.get ty other := by
  unfold get
  cases hf : ty.accessor? other with
  | none => rfl
  | some f =>
    simp only [held, hold, name_of_accessor? hf, lookup_assignKey_ne h]

/-- Setting fields leaves the values of the others alone, even when it fails on its way. -/
theorem get_setAll_of_not_mem {assignments : List (String × Value)} :
    ∀ {r : Record}, name ∉ assignments.map Prod.fst →
      (r.setAll ty assignments).1.get ty name = r.get ty name := by
  induction assignments with
  | nil => exact fun _ => rfl
  | cons assignment rest ih =>
    intro r hname
    obtain ⟨first, v⟩ := assignment
    rw [List.map_cons, List.mem_cons, not_or] at hname
    rw [setAll]
    cases hset : r.set ty first v with
    | error e => rfl
    -- a first assignment that fails leaves the record as it is, and is the last one
    | ok r₁ =>
      obtain ⟨_, held, _, _, rfl, _⟩ := get_of_set hset
      exact (ih hname.2).trans (get_hold_ne hname.1 held)

/-- A field that is not among those that were set has its value. -/
theorem get_kept_of_setAll {assignments : List (String × Value)} {outcome : Except Error Unit}
    (h : r.setAll ty assignments = (r', outcome)) (hname : name ∉ assignments.map Prod.fst) :
    r'.get ty name = r.get ty name := by
  have hkept : (r.setAll ty assignments).1.get ty name = r.get ty name :=
    get_setAll_of_not_mem hname
  rw [h] at hkept
  exact hkept

/-- Setting fields in order is setting the first ones and then the others. -/
theorem setAll_append {first rest : List (String × Value)} :
    ∀ {r : Record}, r.setAll ty (first ++ rest) = (r', .ok ()) →
      ∃ r₁, r.setAll ty first = (r₁, .ok ()) ∧ r₁.setAll ty rest = (r', .ok ()) := by
  induction first with
  | nil => exact fun h => ⟨_, rfl, h⟩
  | cons assignment others ih =>
    intro r h
    obtain ⟨name, v⟩ := assignment
    rw [List.cons_append, setAll] at h
    cases hset : r.set ty name v with
    | error e =>
      rw [hset] at h
      cases h
    | ok r₁ =>
      rw [hset] at h
      obtain ⟨r₂, hothers, hrest⟩ := ih h
      refine ⟨r₂, ?_, hrest⟩
      rw [setAll, hset]
      exact hothers

/-- The assignment of a field that no later one assigns is what the field holds in the end. -/
theorem get_of_setAll {before after : List (String × Value)}
    (h : r.setAll ty (before ++ (name, v) :: after) = (r', .ok ()))
    (hlast : name ∉ after.map Prod.fst) :
    ∃ f held, ty.accessor? name = some f ∧ f.coerce v = .ok held
      ∧ r'.get ty name = .ok held := by
  obtain ⟨r₁, _, h⟩ := setAll_append h
  rw [setAll] at h
  cases hset : r₁.set ty name v with
  | error e =>
    rw [hset] at h
    cases h
  | ok r₂ =>
    rw [hset] at h
    obtain ⟨f, held, hf, hheld, _, hget⟩ := get_of_set hset
    refine ⟨f, held, hf, hheld, ?_⟩
    have hafter : r'.get ty name = r₂.get ty name := get_kept_of_setAll h hlast
    exact hafter.trans hget

/-- Whether fields can be set does not depend on the record. -/
theorem outcome_of_setAll (ty : RecordType) :
    ∀ (assignments : List (String × Value)) (r r' : Record),
      (r'.setAll ty assignments).2 = (r.setAll ty assignments).2
  | [], _, _ => rfl
  | (name, v) :: rest, r, r' => by
    rw [setAll, setAll, set, set]
    cases ty.accessor? name with
    | none => rfl
    | some f =>
      cases hheld : f.coerce v with
      | error e =>
        simp only [hheld]
        rfl
      | ok held =>
        simp only [hheld]
        exact outcome_of_setAll ty rest _ _

/-- Two records in which the same fields were set have the same values there, and wherever they had
    the same ones before. -/
theorem get_of_setAll_both {assignments : List (String × Value)} :
    ∀ {r r' s s' : Record}, r.setAll ty assignments = (s, .ok ()) →
      r'.setAll ty assignments = (s', .ok ()) →
        name ∈ assignments.map Prod.fst ∨ r'.get ty name = r.get ty name →
          s'.get ty name = s.get ty name := by
  induction assignments with
  | nil =>
    intro r r' s s' hs hs' hname
    cases hs
    cases hs'
    rcases hname with hmem | hsame
    · cases hmem
    · exact hsame
  | cons assignment rest ih =>
    intro r r' s s' hs hs' hname
    obtain ⟨first, v⟩ := assignment
    rw [setAll] at hs hs'
    cases hset : r.set ty first v with
    | error e =>
      rw [hset] at hs
      cases hs
    | ok r₁ =>
      cases hset' : r'.set ty first v with
      | error e =>
        rw [hset'] at hs'
        cases hs'
      | ok r₁' =>
        rw [hset] at hs
        rw [hset'] at hs'
        obtain ⟨f, held, hf, hheld, rfl, _⟩ := get_of_set hset
        obtain ⟨f', held', hf', hheld', rfl, _⟩ := get_of_set hset'
        cases hf.symm.trans hf'
        cases hheld.symm.trans hheld'
        -- the first field has one value in both, whatever it was before
        refine ih hs hs' ?_
        by_cases hfirst : name = first
        · rw [hfirst, get_hold_self hf, get_hold_self hf]
          exact .inr rfl
        · rcases hname with hmem | hsame
          · exact .inl ((List.mem_cons.mp hmem).resolve_left hfirst)
          · exact .inr (by rw [get_hold_ne hfirst, get_hold_ne hfirst, hsame])

/-- Setting fields touches neither the children nor which fields the source defined. -/
theorem children_of_setAll {outcome : Except Error Unit} :
    ∀ {assignments : List (String × Value)} {r r' : Record},
      r.setAll ty assignments = (r', outcome) →
        r'.defined = r.defined ∧ ∀ field, r'.childrenOf field = r.childrenOf field
  | [], r, r', h => by
    cases h
    exact ⟨rfl, fun _ => rfl⟩
  | (first, v) :: rest, r, r', h => by
    rw [setAll] at h
    cases hset : r.set ty first v with
    | error e =>
      rw [hset] at h
      cases h
      exact ⟨rfl, fun _ => rfl⟩
    | ok r₁ =>
      rw [hset] at h
      obtain ⟨_, held, _, _, rfl, _⟩ := get_of_set hset
      have hrest : r'.defined = (r.hold first held).defined
          ∧ ∀ field, r'.childrenOf field = (r.hold first held).childrenOf field :=
        children_of_setAll h
      exact hrest

/-! ## §3. Children. -/

variable {field : String}

/-- The children of a record without their keys. -/
def kids (field : String) (r : Record) : List Record := (r.childrenOf field).map Prod.snd

/-- The gathered children are those of the first parent, then those of the second, and so on. -/
theorem gather_snd (field : String) (keyed : Bool) (batch : List Record) :
    ∀ i, (gather field keyed i batch).map Prod.snd = batch.flatMap (kids field) := by
  induction batch with
  | nil => exact fun _ => rfl
  | cons r rest ih =>
    intro i
    rw [gather, List.map_append, ih, List.flatMap_cons]
    simp [places, kids, Function.comp_def]

/-- The children under one field do not matter for those under another one. -/
theorem childrenOf_withChildren (cs : List (Option Value × Record)) :
    (r.withChildren field cs).childrenOf field = cs := by
  simp [childrenOf, withChildren, lookup_assignKey_self]

theorem childrenOf_withChildren_ne {other : String} (h : other ≠ field)
    (cs : List (Option Value × Record)) :
    (r.withChildren field cs).childrenOf other = r.childrenOf other := by
  simp [childrenOf, withChildren, lookup_assignKey_ne h]

/-- A record with its own children laid back is the record. -/
theorem withChildren_self (h : r.childrenOf field ≠ []) :
    r.withChildren field (r.childrenOf field) = r := by
  have hlookup : r.children.lookup field = some (r.childrenOf field) := by
    unfold childrenOf at h ⊢
    cases hcs : r.children.lookup field with
    | none => simp [hcs] at h
    | some cs => rfl
  unfold withChildren
  rw [assignKey_of_lookup hlookup]
  cases r
  rfl

/-- The children of a record are its children without their keys, under these keys. -/
theorem zip_kids (field : String) (r : Record) :
    ((r.childrenOf field).map Prod.fst).zip (kids field r) = r.childrenOf field := by
  rw [kids, ← List.unzip_fst, ← List.unzip_snd, List.zip_unzip]

/-- A batch with its own children laid back is the batch. -/
theorem scatter_kids (field : String) (batch : List Record) :
    scatter field batch (batch.flatMap (kids field)) = batch := by
  induction batch with
  | nil => rfl
  | cons r rest ih =>
    have hlen : (kids field r).length = (r.childrenOf field).length := List.length_map ..
    rw [scatter, List.flatMap_cons, List.take_left' hlen, List.drop_left' hlen, ih]
    -- scattering skips a record without children
    congr 1
    split
    · rfl
    next hne =>
      rw [zip_kids]
      exact withChildren_self (by simpa using hne)

/-- What laying children back under a field leaves alone in a record. -/
structure BesidesChildren (field : String) (r r' : Record) : Prop where
  /-- What its fields hold. -/
  fields : r'.fields = r.fields
  /-- Which fields its source defined. -/
  defined : r'.defined = r.defined
  /-- Its other children. -/
  others : ∀ other, other ≠ field → r'.childrenOf other = r.childrenOf other

/-- The children of two records under a field: one for one, with the same keys, related by `S`. -/
def ChildrenAlike (S : Record → Record → Prop) (field : String) (r r' : Record) : Prop :=
  List.Forall₂ (fun c c' => c'.1 = c.1 ∧ S c.2 c'.2) (r.childrenOf field) (r'.childrenOf field)

theorem ChildrenAlike.refl {S : Record → Record → Prop} (h : ∀ r, S r r) (field : String)
    (r : Record) : ChildrenAlike S field r r :=
  List.forall₂_same.mpr fun c _ => ⟨rfl, h c.2⟩

theorem ChildrenAlike.kids {S : Record → Record → Prop} (h : ChildrenAlike S field r r') :
    List.Forall₂ S (r.kids field) (r'.kids field) := by
  unfold Record.kids
  rw [List.forall₂_map_left_iff, List.forall₂_map_right_iff]
  exact h.imp fun _ _ hc => hc.2

/-- The children of batches that are alike are alike. -/
theorem forall₂_kids {S : Record → Record → Prop} {batch batch' : List Record}
    (h : List.Forall₂ (ChildrenAlike S field) batch batch') :
    List.Forall₂ S (batch.flatMap (kids field)) (batch'.flatMap (kids field)) := by
  induction h with
  | nil => exact .nil
  | cons hr _ ih =>
    rw [List.flatMap_cons, List.flatMap_cons]
    exact List.rel_append hr.kids ih

/-- Related children under the same keys. -/
theorem forall₂_zip_keys {S T : Record → Record → Prop} (hkeys : ChildrenAlike T field r r')
    {mine mine' : List Record} (hmine : List.Forall₂ S mine mine') :
    List.Forall₂ (fun c c' => c'.1 = c.1 ∧ S c.2 c'.2)
      (((r.childrenOf field).map Prod.fst).zip mine)
      (((r'.childrenOf field).map Prod.fst).zip mine') := by
  unfold ChildrenAlike at hkeys
  generalize r.childrenOf field = cs, r'.childrenOf field = cs' at hkeys ⊢
  induction hkeys generalizing mine mine' with
  | nil => exact .nil
  | cons hc _ ih =>
    cases hmine with
    | nil => exact .nil
    | cons hs hrest => exact .cons ⟨hc.1, hs⟩ (ih hrest)

/-- Children that replace those of one record. -/
theorem childrenAlike_of_zip {S T : Record → Record → Prop} {mine : List Record}
    (hkeys : ChildrenAlike T field r r') (hmine : List.Forall₂ S (r.kids field) mine) :
    List.Forall₂ (fun c c' => c'.1 = c.1 ∧ S c.2 c'.2) (r.childrenOf field)
      (((r'.childrenOf field).map Prod.fst).zip mine) := by
  have hzip := forall₂_zip_keys hkeys hmine
  rwa [zip_kids] at hzip

/-- Laying children back that are related to those of an earlier batch. Each record changes from
    what it is now in its children under the field only, and those are related to its earlier
    ones. -/
theorem forall₂_scatter {R Q S T : Record → Record → Prop}
    (hkeys : ∀ r r', R r r' → ChildrenAlike T field r r')
    (hstep : ∀ r r' r'', R r r' → BesidesChildren field r' r'' → ChildrenAlike S field r r'' →
      Q r r'') :
    ∀ {batch batch' : List Record} {kids' : List Record}, List.Forall₂ R batch batch' →
      List.Forall₂ S (batch.flatMap (kids field)) kids' →
        List.Forall₂ Q batch (scatter field batch' kids')
  | _, _, _, .nil, _ => .nil
  | r :: rest, r' :: rest', kids', .cons hr hrest, hkids => by
    have hlen : (r.childrenOf field).length = (r'.childrenOf field).length :=
      (hkeys r r' hr).length_eq
    have hcount : (kids field r).length = (r'.childrenOf field).length := by
      rw [← hlen]
      exact List.length_map ..
    -- the first children are those of the first record
    have hmine := List.forall₂_take (r'.childrenOf field).length hkids
    have hothers := List.forall₂_drop (r'.childrenOf field).length hkids
    rw [List.flatMap_cons, List.take_left' hcount] at hmine
    rw [List.flatMap_cons, List.drop_left' hcount] at hothers
    rw [scatter]
    refine .cons ?_ (forall₂_scatter hkeys hstep hrest hothers)
    have halike := childrenAlike_of_zip (hkeys r r' hr) hmine
    -- a record without children is not touched, so it gains no empty entry
    by_cases hnil : (r'.childrenOf field).isEmpty
    · rw [if_pos hnil]
      refine hstep r r' r' hr ⟨rfl, rfl, fun _ _ => rfl⟩ ?_
      have hcs' : r'.childrenOf field = [] := by simpa using hnil
      have hcs : r.childrenOf field = [] := List.eq_nil_of_length_eq_zero (by rw [hlen, hcs']; rfl)
      rw [ChildrenAlike, hcs, hcs']
      exact .nil
    · rw [if_neg hnil]
      refine hstep r r' _ hr ⟨rfl, rfl, fun _ h => childrenOf_withChildren_ne h _⟩ ?_
      rw [ChildrenAlike, childrenOf_withChildren]
      exact halike

/-- The children of two batches under a field have the same places, when they are as many and have
    the same keys. -/
theorem gather_fst {S : Record → Record → Prop} (keyed : Bool) {batch batch' : List Record}
    (h : List.Forall₂ (ChildrenAlike S field) batch batch') :
    ∀ i, (gather field keyed i batch').map Prod.fst
      = (gather field keyed i batch).map Prod.fst := by
  have hplaces {r r' : Record} (hr : ChildrenAlike S field r r') (i : Nat) :
      (places i keyed (r'.childrenOf field)).map Prod.fst
        = (places i keyed (r.childrenOf field)).map Prod.fst := by
    unfold ChildrenAlike at hr
    unfold places
    generalize r.childrenOf field = cs, r'.childrenOf field = cs' at hr ⊢
    induction hr with
    | nil => rfl
    | @cons c c' _ _ hc _ ih =>
      rw [List.map_cons, List.map_cons, List.map_cons, List.map_cons, ih]
      dsimp only
      rw [hc.1]
  induction h with
  | nil => exact fun _ => rfl
  | cons hr _ ih =>
    intro i
    rw [gather, gather, List.map_append, List.map_append, hplaces hr, ih]

/-- Laying related children back in two batches whose children have the same keys. Both records
    change in their children under the field only, and those are related. -/
theorem forall₂_scatter_both {R Q S T : Record → Record → Prop}
    (hkeys : ∀ r r', R r r' → ChildrenAlike T field r r')
    (hstep : ∀ r r' s s', R r r' → BesidesChildren field r s → BesidesChildren field r' s' →
      ChildrenAlike S field s s' → Q s s') :
    ∀ {batch batch' kids kids' : List Record}, List.Forall₂ R batch batch' →
      List.Forall₂ S kids kids' → List.Forall₂ Q (scatter field batch kids)
        (scatter field batch' kids')
  | _, _, _, _, .nil, _ => .nil
  | r :: rest, r' :: rest', kids, kids', .cons hr hrest, hkids => by
    have hlen : (r.childrenOf field).length = (r'.childrenOf field).length :=
      (hkeys r r' hr).length_eq
    have hmine := List.forall₂_take (r.childrenOf field).length hkids
    have hothers := List.forall₂_drop (r.childrenOf field).length hkids
    rw [scatter, scatter, ← hlen]
    refine .cons ?_ (forall₂_scatter_both hkeys hstep hrest hothers)
    -- both records have children, or neither has
    by_cases hnil : (r.childrenOf field).isEmpty
    · have hcs : r.childrenOf field = [] := by simpa using hnil
      have hcs' : r'.childrenOf field = [] :=
        List.eq_nil_of_length_eq_zero (by rw [← hlen, hcs]; rfl)
      rw [if_pos hnil, if_pos (by simp [hcs'])]
      refine hstep r r' r r' hr ⟨rfl, rfl, fun _ _ => rfl⟩ ⟨rfl, rfl, fun _ _ => rfl⟩ ?_
      rw [ChildrenAlike, hcs, hcs']
      exact .nil
    · have hnil' : ¬ (r'.childrenOf field).isEmpty := by
        rwa [List.isEmpty_iff_length_eq_zero, ← hlen, ← List.isEmpty_iff_length_eq_zero]
      rw [if_neg hnil, if_neg hnil']
      refine hstep r r' _ _ hr ⟨rfl, rfl, fun _ h => childrenOf_withChildren_ne h _⟩
        ⟨rfl, rfl, fun _ h => childrenOf_withChildren_ne h _⟩ ?_
      rw [ChildrenAlike, childrenOf_withChildren, childrenOf_withChildren]
      exact forall₂_zip_keys (hkeys r r' hr) hmine

end Record

end TenantTree
