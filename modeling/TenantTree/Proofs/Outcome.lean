/-
  TenantTree.Proofs.Outcome — checks that succeed.

  A sequence of checks succeeds only if each of them does. These are the ways to take the success
  of a composite check apart.
-/
import Mathlib.Data.List.Forall2

namespace TenantTree.Outcome

variable {ε α β γ : Type}

/-- A sequence that succeeds has a first part that does. -/
theorem ok_of_bind {x : Except ε α} {f : α → Except ε β} {b : β} (h : (x >>= f) = .ok b) :
    ∃ a, x = .ok a ∧ f a = .ok b := by
  cases x with
  | error e => cases h
  | ok a => exact ⟨a, rfl, h⟩

/-- A converted result comes from a result. -/
theorem ok_of_map {x : Except ε α} {f : α → β} {b : β} (h : x.map f = .ok b) :
    ∃ a, x = .ok a ∧ f a = b := by
  cases x with
  | error e => cases h
  | ok a =>
    cases h
    exact ⟨a, rfl, rfl⟩

/-- Converting a result does not matter for whether there is one. -/
theorem isOk_map {x : Except ε α} (f : α → β) : (x.map f).isOk = true ↔ x.isOk = true := by
  cases x <;> exact Iff.rfl

/-- A check of all items succeeds just when the check of each does. -/
theorem mapM_eq_ok {f : α → Except ε β} :
    ∀ {xs : List α} {ys : List β},
      xs.mapM f = .ok ys ↔ List.Forall₂ (fun x y => f x = .ok y) xs ys
  | [], ys => by
    constructor
    · intro h
      cases h
      exact .nil
    · intro h
      cases h
      rfl
  | x :: xs, ys => by
    rw [List.mapM_cons]
    constructor
    · intro h
      obtain ⟨y, hy, h⟩ := ok_of_bind h
      obtain ⟨rest, hrest, h⟩ := ok_of_bind h
      cases h
      exact .cons hy (mapM_eq_ok.mp hrest)
    · intro h
      cases h with
      | cons hy hrest =>
        rw [hy, mapM_eq_ok.mpr hrest]
        rfl

/-- Something is found for all items just when it is for each. -/
theorem mapM_eq_some {f : α → Option β} :
    ∀ {xs : List α} {ys : List β},
      xs.mapM f = some ys ↔ List.Forall₂ (fun x y => f x = some y) xs ys
  | [], ys => by
    constructor
    · intro h
      cases h
      exact .nil
    · intro h
      cases h
      rfl
  | x :: xs, ys => by
    rw [List.mapM_cons]
    constructor
    · intro h
      obtain ⟨y, hy, h⟩ := Option.bind_eq_some_iff.mp h
      obtain ⟨rest, hrest, h⟩ := Option.bind_eq_some_iff.mp h
      cases h
      exact .cons hy (mapM_eq_some.mp hrest)
    · intro h
      cases h with
      | cons hy hrest =>
        rw [hy, mapM_eq_some.mpr hrest]
        rfl

/-- Checks that give the same for corresponding items give the same for all. -/
theorem mapM_congr {f : α → Except ε γ} {g : β → Except ε γ} {xs : List α} {ys : List β}
    (h : List.Forall₂ (fun x y => f x = g y) xs ys) : xs.mapM f = ys.mapM g := by
  induction h with
  | nil => rfl
  | cons hx _ ih => rw [List.mapM_cons, List.mapM_cons, hx, ih]

/-- Checks that fail alike for corresponding items fail alike for all. -/
theorem mapM_fails_alike {f : α → Except ε γ} {g : β → Except ε γ} {xs : List α} {ys : List β}
    (h : List.Forall₂ (fun x y => (f x).map (fun _ => ()) = (g y).map fun _ => ()) xs ys) :
    (xs.mapM f).map (fun _ => ()) = (ys.mapM g).map fun _ => () := by
  induction h with
  | nil => rfl
  | @cons x y xs ys hx _ ih =>
    rw [List.mapM_cons, List.mapM_cons]
    cases hf : f x <;> cases hg : g y <;> rw [hf, hg] at hx <;> cases hx
    · rfl
    · cases hfs : xs.mapM f <;> cases hgs : ys.mapM g <;> rw [hfs, hgs] at ih <;> cases ih <;> rfl

/-- Of two lists that correspond item by item, each item of the first has its counterpart. -/
theorem exists_of_mem {R : α → β → Prop} {xs : List α} {ys : List β} (h : List.Forall₂ R xs ys)
    {x : α} (hx : x ∈ xs) : ∃ y ∈ ys, R x y := by
  induction h with
  | nil => cases hx
  | @cons x' y _ _ hy _ ih =>
    rcases List.mem_cons.mp hx with rfl | hx
    · exact ⟨y, List.mem_cons_self, hy⟩
    · obtain ⟨y', hy', h⟩ := ih hx
      exact ⟨y', List.mem_cons_of_mem y hy', h⟩

/-- Each item of the second has its counterpart at the same position. -/
theorem getElem?_of_forall₂ {R : α → β → Prop} {xs : List α} {ys : List β}
    (h : List.Forall₂ R xs ys) {y : β} {i : Nat} (hy : ys[i]? = some y) :
    ∃ x, xs[i]? = some x ∧ R x y := by
  induction h generalizing i with
  | nil => cases hy
  | @cons x _ _ _ hx _ ih =>
    cases i with
    | zero =>
      cases hy
      exact ⟨x, rfl, hx⟩
    | succ i => exact ih hy

/-- Items correspond together with their positions. -/
theorem forall₂_zipIdx {R : α → β → Prop} {xs : List α} {ys : List β} (h : List.Forall₂ R xs ys) :
    ∀ i, List.Forall₂ (fun x y => y.2 = x.2 ∧ R x.1 y.1) (xs.zipIdx i) (ys.zipIdx i) := by
  induction h with
  | nil => exact fun _ => .nil
  | cons hx _ ih => exact fun i => .cons ⟨rfl, hx⟩ (ih (i + 1))

/-- An item of the second may be replaced by another counterpart. -/
theorem forall₂_set {R : α → β → Prop} {xs : List α} {ys : List β} (h : List.Forall₂ R xs ys)
    {x : α} {y : β} {i : Nat} (hx : xs[i]? = some x) (hy : R x y) :
    List.Forall₂ R xs (ys.set i y) := by
  induction h generalizing i with
  | nil => cases hx
  | cons hfirst hrest ih =>
    cases i with
    | zero =>
      cases hx
      exact .cons hy hrest
    | succ i => exact .cons hfirst (ih hx)

/-- A check of all items fails with the failure of one of them. -/
theorem error_of_mapM {f : α → Except ε β} {e : ε} :
    ∀ {xs : List α}, xs.mapM f = .error e → ∃ x ∈ xs, f x = .error e
  | [], h => by cases h
  | x :: xs, h => by
    rw [List.mapM_cons] at h
    cases hx : f x with
    | error e' =>
      rw [hx] at h
      cases h
      exact ⟨x, List.mem_cons_self, hx⟩
    | ok y =>
      rw [hx] at h
      cases hrest : xs.mapM f with
      | error e' =>
        rw [hrest] at h
        cases h
        obtain ⟨x', hx', herror⟩ := error_of_mapM hrest
        exact ⟨x', List.mem_cons_of_mem x hx', herror⟩
      | ok ys =>
        rw [hrest] at h
        cases h

/-- A check of a longer and longer state fails with the failure of the step for one of the items, in
    a state that those before it lead to. -/
theorem error_of_foldlM {step : γ → α → Except ε γ} {e : ε} :
    ∀ {xs : List α} {s : γ}, xs.foldlM step s = .error e →
      ∃ before x after s', xs = before ++ x :: after ∧ before.foldlM step s = .ok s'
        ∧ step s' x = .error e
  | [], _, h => by cases h
  | x :: xs, s, h => by
    rw [List.foldlM_cons] at h
    cases hx : step s x with
    | error e' =>
      rw [hx] at h
      cases h
      exact ⟨[], x, xs, s, rfl, rfl, hx⟩
    | ok s₁ =>
      rw [hx] at h
      obtain ⟨before, y, after, s', rfl, hbefore, hy⟩ := error_of_foldlM h
      refine ⟨x :: before, y, after, s', rfl, ?_, hy⟩
      rw [List.foldlM_cons, hx]
      exact hbefore

/-- A check of a longer and longer state keeps what each of its steps keeps. -/
theorem foldlM_keeps {step : γ → α → Except ε γ} {P : γ → Prop} :
    ∀ {xs : List α} {s s' : γ}, (∀ x ∈ xs, ∀ s s', P s → step s x = .ok s' → P s') →
      P s → xs.foldlM step s = .ok s' → P s'
  | [], s, s', _, hs, h => by
    cases h
    exact hs
  | x :: xs, s, s', hstep, hs, h => by
    rw [List.foldlM_cons] at h
    obtain ⟨s₁, h₁, h⟩ := ok_of_bind h
    exact foldlM_keeps (fun y hy => hstep y (List.mem_cons_of_mem x hy))
      (hstep x List.mem_cons_self s s₁ hs h₁) h

/-- What each step extends from the items before its own to that one holds of all items in the
    end. -/
theorem foldlM_extends {step : γ → α → Except ε γ} {P : List α → γ → Prop} {xs : List α}
    {s s' : γ}
    (hstep : ∀ before, ∀ x ∈ xs, ∀ s s', P before s → step s x = .ok s' → P (before ++ [x]) s')
    (hs : P [] s) (h : xs.foldlM step s = .ok s') : P xs s' := by
  -- the items that are done move from the list to an accumulator
  suffices hrest : ∀ (rest : List α) (before : List α) (s : γ), (∀ x ∈ rest, x ∈ xs) →
      P before s → rest.foldlM step s = .ok s' → P (before ++ rest) s' from
    hrest xs [] s (fun _ hx => hx) hs h
  intro rest
  induction rest with
  | nil =>
    intro before s _ hs h
    cases h
    rwa [List.append_nil]
  | cons x rest ih =>
    intro before s hmem hs h
    rw [List.foldlM_cons] at h
    obtain ⟨s₁, h₁, h⟩ := ok_of_bind h
    rw [List.append_cons]
    exact ih _ s₁ (fun y hy => hmem y (List.mem_cons_of_mem x hy))
      (hstep before x (hmem x List.mem_cons_self) s s₁ hs h₁) h

/-- Of two lists that correspond item by item, the first item that passes a test of the first has
    its counterpart in the first one that passes that of the second. -/
theorem find?_of_forall₂ {R : α → β → Prop} {p : α → Bool} {q : β → Bool}
    (hpq : ∀ x y, R x y → p x = q y) {xs : List α} {ys : List β} (h : List.Forall₂ R xs ys) {x : α}
    (hx : xs.find? p = some x) : ∃ y, ys.find? q = some y ∧ R x y := by
  induction h with
  | nil => cases hx
  | @cons x' y' _ _ hR _ ih =>
    cases hp : p x' with
    | true =>
      rw [List.find?_cons_of_pos hp] at hx
      cases hx
      exact ⟨y', List.find?_cons_of_pos ((hpq _ _ hR).symm.trans hp), hR⟩
    | false =>
      rw [List.find?_cons_of_neg (by simp [hp])] at hx
      rw [List.find?_cons_of_neg (by simp [← hpq _ _ hR, hp])]
      exact ih hx

/-- What a step achieves for its item and every later step keeps, holds of all items in the end. -/
theorem foldlM_achieves {step : γ → α → Except ε γ} {Q : α → γ → Prop}
    (hachieved : ∀ x s s', step s x = .ok s' → Q x s')
    (hkept : ∀ x y s s', Q x s → step s y = .ok s' → Q x s') :
    ∀ {xs : List α} {s s' : γ}, xs.foldlM step s = .ok s' → ∀ x ∈ xs, Q x s'
  | [], _, _, _ => List.forall_mem_nil _
  | x :: xs, s, s', h => by
    rw [List.foldlM_cons] at h
    obtain ⟨s₁, h₁, h⟩ := ok_of_bind h
    refine List.forall_mem_cons.mpr ⟨?_, foldlM_achieves hachieved hkept h⟩
    exact foldlM_keeps (fun y _ s s' => hkept x y s s') (hachieved x s s₁ h₁) h

end TenantTree.Outcome
