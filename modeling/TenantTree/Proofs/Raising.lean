/-
  TenantTree.Proofs.Raising — how runs fail.

  A run raises what its steps raise: it fails with an error of its own checks, or with one that the
  store gave for a call (§2). The checks on values and records fail by the names of fields, and
  otherwise by the values (§3).
-/
import TenantTree.Proofs.Attribution
import TenantTree.Proofs.Links

namespace TenantTree

variable {σ α β γ : Type}

/-! ## §1. Kinds of errors. -/

/-- Whether an error tells of the tree of types: of a declaration, a name or a position in it, or of
    a row that is missing. Every other error comes from the store or from the values. -/
def Error.structural : Error → Bool
  | config (.declaration _) | config (.unknownField _ _) | config (.unknownRelation _ _)
  | notFound _ _ | custom _ => true
  | _ => false

/-- An error of the store or of values. -/
def Error.General (e : Error) : Prop := e.structural = false

@[simp]
theorem Error.general_type (e : TypeError) : (type e).General := rfl

@[simp]
theorem Error.general_codec (e : CodecError) : (codec e).General := rfl

@[simp]
theorem Error.general_serialization (detail : String) : (serialization detail).General := rfl

/-- Wrapping an error changes it only where it then tells of the store. -/
theorem Error.within_cases (e : Error) (table : String) (stage : Stage) :
    e.within table stage = e ∨ e.within table stage = .operation table stage e := by
  unfold within
  split
  · exact .inr rfl
  · exact .inl rfl

/-! ## §2. Raising. -/

/-- A check that fails, if it does, with such an error. -/
def FailsBy (P : Error → Prop) (outcome : Except Error α) : Prop := ∀ e, outcome = .error e → P e

namespace FailsBy

variable {P Q : Error → Prop}

theorem mono {outcome : Except Error α} (h : FailsBy P outcome) (hPQ : ∀ e, P e → Q e) :
    FailsBy Q outcome := fun e he => hPQ e (h e he)

@[simp]
theorem ok (a : α) : FailsBy P (.ok a : Except Error α) := nofun

@[simp]
theorem error_iff {e : Error} : FailsBy P (.error e : Except Error α) ↔ P e := by
  refine ⟨fun h => h e rfl, fun h e' he' => ?_⟩
  cases he'
  exact h

theorem map {outcome : Except Error α} (h : FailsBy P outcome) (f : α → β) :
    FailsBy P (outcome.map f) := by
  cases outcome with
  | error e => exact error_iff.mpr (h e rfl)
  | ok a => exact ok (f a)

theorem bind {outcome : Except Error α} {next : α → Except Error β} (h : FailsBy P outcome)
    (hnext : ∀ a, outcome = .ok a → FailsBy P (next a)) : FailsBy P (outcome >>= next) := by
  cases outcome with
  | error e => exact error_iff.mpr (h e rfl)
  | ok a => exact hnext a rfl

theorem mapM {f : α → Except Error β} {xs : List α} (h : ∀ x ∈ xs, FailsBy P (f x)) :
    FailsBy P (xs.mapM f) := by
  intro e he
  obtain ⟨x, hx, hfault⟩ := Outcome.error_of_mapM he
  exact h x hx e hfault

/-- A check that fails with no error succeeds. -/
theorem exists_ok {outcome : Except Error α} (h : FailsBy (fun _ => False) outcome) :
    ∃ a, outcome = .ok a := by
  cases outcome with
  | error e => exact (h e rfl).elim
  | ok a => exact ⟨a, rfl⟩

end FailsBy

namespace Work

variable {db : Store σ} {P Q : Error → Prop}

/-- A run that fails, if it does, with such an error, or with one that the store gave for a call of
    the run. -/
def Raised (db : Store σ) (P : Error → Prop) (w : Workbench σ)
    (run : Except Error α × Workbench σ) : Prop :=
  ∃ xs, Said db w run.2 xs
    ∧ ∀ e, run.1 = .error e → P e ∨ ∃ x ∈ xs, x.2.refusal? = some e

/-- Every run of the work fails so, if it does. -/
def Raises (db : Store σ) (P : Error → Prop) (work : Work σ α) : Prop :=
  ∀ w, Raised db P w (work w)

theorem Raised.mono {w : Workbench σ} {run : Except Error α × Workbench σ}
    (h : Raised db P w run) (hPQ : ∀ e, P e → Q e) : Raised db Q w run := by
  obtain ⟨xs, hsaid, herror⟩ := h
  exact ⟨xs, hsaid, fun e he => (herror e he).imp_left (hPQ e)⟩

/-- Work that makes no call fails with its own errors. -/
theorem Raised.silent {work : Work σ α} (h : Keeps silence work) {w : Workbench σ}
    (hP : ∀ e, (work w).1 = .error e → P e) : Raised db P w (work w) :=
  ⟨[], .nothing (h w).1 (h w).2, fun e he => .inl (hP e he)⟩

/-- A run that goes on where an earlier one succeeded. -/
theorem Raised.bind {work : Work σ α} {next : α → Work σ β} {w : Workbench σ}
    (h : Raised db P w (work w))
    (hnext : ∀ a w', work w = (.ok a, w') → Raised db P w' (next a w')) :
    Raised db P w ((work >>= next) w) := by
  obtain ⟨xs, hsaid, herror⟩ := h
  rcases hw : work w with ⟨e | a, w'⟩ <;> rw [hw] at hsaid herror
  · rw [bind_run_error hw]
    refine ⟨xs, hsaid, fun e' he' => herror e' ?_⟩
    cases he'
    rfl
  · rw [bind_run_ok hw]
    obtain ⟨ys, hsaid', herror'⟩ := hnext a w' hw
    refine ⟨xs ++ ys, hsaid.append hsaid', fun e he => (herror' e he).imp_right ?_⟩
    intro hrefused
    obtain ⟨x, hx, hrefused⟩ := hrefused
    exact ⟨x, List.mem_append_right _ hx, hrefused⟩

theorem Raises.silent {work : Work σ α} (h : Keeps silence work)
    (hP : ∀ w e, (work w).1 = .error e → P e) : Raises db P work :=
  fun w => Raised.silent h (hP w)

theorem Raises.pure (a : α) : Raises db P (Pure.pure a : Work σ α) :=
  .silent (Keeps.pure a) nofun

theorem Raises.report (e : Event) : Raises db P (report e) := .silent (Keeps.report e) nofun

theorem Raises.batch : Raises db P (batch : Work σ (List Record)) := .silent Keeps.batch nofun

theorem Raises.throw {e : Error} (h : P e) : Raises db P (MonadExcept.throw e : Work σ α) := by
  refine .silent (Keeps.throw e) fun w e' he' => ?_
  cases he'
  exact h

theorem Raises.ofExcept {outcome : Except Error α} (h : FailsBy P outcome) :
    Raises db P (Work.ofExcept outcome) := by
  refine .silent (Keeps.ofExcept outcome) fun w e he => h e ?_
  cases outcome <;> exact he

theorem Raises.bind_of {work : Work σ α} {next : α → Work σ β} (h : Raises db P work)
    (hnext : ∀ w a w', work w = (.ok a, w') → Raises db P (next a)) :
    Raises db P (work >>= next) :=
  fun w => (h w).bind fun a w' hrun => hnext w a w' hrun w'

theorem Raises.bind {work : Work σ α} {next : α → Work σ β} (h : Raises db P work)
    (hnext : ∀ a, Raises db P (next a)) : Raises db P (work >>= next) :=
  h.bind_of fun _ a _ _ => hnext a

/-- Wrapped errors are no errors of the engine's own. -/
theorem Raises.within {work : Work σ α} (h : Raises db P work)
    (hP : ∀ table stage e, P (.operation table stage e)) (table : String) (stage : Stage) :
    Raises db P (within table stage work) := by
  intro w
  obtain ⟨xs, hsaid, herror⟩ := h w
  rw [within_run]
  refine ⟨xs, hsaid, fun e he => ?_⟩
  rcases hw : (work w).1 with e' | a <;> rw [hw] at he <;> cases he
  rcases e'.within_cases table stage with hsame | hwrapped
  · rw [hsame]
    exact herror e' hw
  · rw [hwrapped]
    exact .inl (hP table stage e')

/-- A call fails with what the store gives. -/
theorem raises_call {c : Call} {answer : σ → Except Error α × σ}
    (toAnswer : Except Error α → Answer)
    (hanswer : ∀ s, db.answer c s = (toAnswer (answer s).1, (answer s).2))
    (hrefusal : ∀ e, (toAnswer (.error e)).refusal? = some e) :
    Raises db P (call c answer) := by
  intro w
  refine ⟨_, said_call toAnswer hanswer w, fun e he => .inr ⟨_, List.mem_singleton.mpr rfl, ?_⟩⟩
  rw [call_run] at he
  have he : (answer w.store).1 = .error e := he
  rw [he]
  exact hrefusal e

theorem Raises.query (c : Command) : Raises db P (query db c) :=
  raises_call .rows (fun _ => rfl) fun _ => rfl

theorem Raises.execute (c : Command) : Raises db P (execute db c) :=
  raises_call .count (fun _ => rfl) fun _ => rfl

theorem Raises.forM {step : γ → Work σ Unit} :
    ∀ {items : List γ}, (∀ x ∈ items, Raises db P (step x)) → Raises db P (items.forM step)
  | [], _ => Raises.pure ()
  | x :: _, h => (h x List.mem_cons_self).bind fun _ =>
      Raises.forM fun y hy => h y (List.mem_cons_of_mem x hy)

theorem Raises.mapM {step : γ → Work σ β} :
    ∀ {items : List γ}, (∀ x ∈ items, Raises db P (step x)) → Raises db P (items.mapM step)
  | [], _ => Raises.pure []
  | x :: rest, h => by
    rw [List.mapM_cons]
    exact (h x List.mem_cons_self).bind fun _ =>
      (Raises.mapM fun y hy => h y (List.mem_cons_of_mem x hy)).bind fun _ => Raises.pure _

/-- Work whose failure is handled and stays the outcome. -/
theorem Raised.handled {work : Work σ α} {next : Except Error α → Work σ β} {w : Workbench σ}
    (h : Raised db P w (work w))
    (hfailed : ∀ e w', ∃ w'' ys, next (.error e) w' = (.error e, w'') ∧ Said db w' w'' ys)
    (hnext : ∀ a w', Raised db P w' (next (.ok a) w')) :
    Raised db P w ((attempt work >>= next) w) := by
  rw [bind_run_ok (attempt_run work w)]
  obtain ⟨xs, hsaid, herror⟩ := h
  rcases hw : work w with ⟨e | a, w'⟩
  all_goals
    rw [hw] at hsaid herror
    dsimp only
  · obtain ⟨w'', ys, hrun, hsaid'⟩ := hfailed e w'
    rw [hrun]
    refine ⟨xs ++ ys, hsaid.append hsaid', fun e' he' => ?_⟩
    cases he'
    refine (herror e rfl).imp_right fun hrefused => ?_
    obtain ⟨x, hx, hrefused⟩ := hrefused
    exact ⟨x, List.mem_append_left _ hx, hrefused⟩
  · obtain ⟨ys, hsaid', herror'⟩ := hnext a w'
    refine ⟨xs ++ ys, hsaid.append hsaid', fun e he => (herror' e he).imp_right ?_⟩
    intro hrefused
    obtain ⟨x, hx, hrefused⟩ := hrefused
    exact ⟨x, List.mem_append_right _ hx, hrefused⟩

/-- Work on children fails as it does on their batch. -/
theorem Raised.onChildren {work : List Record.Place → Work σ α} {field : String} {keyed : Bool}
    {w : Workbench σ}
    (h : Raised db P { w with batch := (Record.gather field keyed 0 w.batch).map Prod.snd }
      (work ((Record.gather field keyed 0 w.batch).map Prod.fst)
        { w with batch := (Record.gather field keyed 0 w.batch).map Prod.snd })) :
    Raised db P w (Work.onChildren field keyed work w) := by
  obtain ⟨xs, hsaid, herror⟩ := h
  exact ⟨xs, hsaid.congr rfl rfl rfl rfl, herror⟩

end Work

/-! ## §3. Values and records. -/

/-- A value that is no document is refused as a value. -/
theorem Value.toJson_failsBy (v : Value) : FailsBy Error.General v.toJson := by
  cases v <;> simp [toJson, mismatch]
  split <;> simp

/-- So is a value that a field does not accept. -/
theorem Value.coerce_failsBy (ty : FieldType) (v : Value) :
    FailsBy Error.General (Value.coerce ty v) := by
  have htext (v : Value) : FailsBy Error.General v.toTextField := by
    cases v <;> simp [toTextField, mismatch]
  have hint (v : Value) : FailsBy Error.General v.toInt64 := by
    cases v <;> simp [toInt64, mismatch]
  fun_induction Value.coerce ty v with
  | case1 v => exact .map (by cases v <;> simp [toBool, mismatch]) _
  | case2 v => exact .map (by cases v <;> simp [toInt16, mismatch]) _
  | case3 v => exact .map (by cases v <;> simp [toInt32, mismatch]; split <;> simp) _
  | case4 v => exact .map (hint v) _
  | case5 v => exact .map (by cases v <;> simp [toDouble, mismatch]; split <;> simp) _
  | case6 v => exact .map (htext v) _
  | case7 v => exact .map (by cases v <;> simp [toBytes, mismatch]) _
  | case8 v => exact .map (by cases v <;> simp [toUuid, mismatch]; split <;> simp) _
  | case9 v => exact .map v.toJson_failsBy _
  | case10 items => exact .map (.mapM fun v _ => htext v) _
  | case11 v => simp [mismatch]
  | case12 items => exact .map (.mapM fun v _ => hint v) _
  | case13 v => simp [mismatch]
  | case14 => exact .ok _
  | case15 inner v _ ih => exact ih

/-- And a document that does not have the shape of the field. -/
theorem FieldDecl.coerce_failsBy (f : FieldDecl RecordType) (v : Value) :
    FailsBy Error.General (f.coerce v) := by
  unfold coerce
  split
  · unfold Value.coerceDocument
    split
    next e he => exact FailsBy.error_iff.mpr (v.toJson_failsBy e he)
    next => split <;> simp
  · split
    · exact Value.coerce_failsBy _ v
    · exact .ok v

namespace Record

variable {P : Error → Prop} {ty : RecordType}

/-- A field that cannot be read is unknown. -/
theorem get_failsBy {name : String} (h : ty.accessor? name = none → P (unknownField ty name))
    (r : Record) : FailsBy P (r.get ty name) := by
  unfold get
  split
  · exact .ok _
  next hnone => exact FailsBy.error_iff.mpr (h hnone)

theorem get_failsBy_of_known {name : String} (h : (ty.accessor? name).isSome) (r : Record) :
    FailsBy P (r.get ty name) :=
  get_failsBy (fun hnone => absurd hnone (Option.isSome_iff_ne_none.mp h)) r

/-- A field that cannot be set is unknown, or does not accept the value. -/
theorem set_failsBy (hP : ∀ e : Error, e.General → P e) {name : String}
    (h : ty.accessor? name = none → P (unknownField ty name)) (r : Record) (v : Value) :
    FailsBy P (r.set ty name v) := by
  unfold set
  split
  next f _ => exact ((f.coerce_failsBy v).mono hP).map _
  next hnone => exact FailsBy.error_iff.mpr (h hnone)

theorem set_failsBy_of_known (hP : ∀ e : Error, e.General → P e) {name : String}
    (h : (ty.accessor? name).isSome) (r : Record) (v : Value) : FailsBy P (r.set ty name v) :=
  set_failsBy hP (fun hnone => absurd hnone (Option.isSome_iff_ne_none.mp h)) r v

theorem setAll_failsBy (hP : ∀ e : Error, e.General → P e) :
    ∀ {assignments : List (String × Value)},
      (∀ a ∈ assignments, ty.accessor? a.1 = none → P (unknownField ty a.1)) →
        ∀ r : Record, FailsBy P (r.setAll ty assignments).2
  | [], _, _ => .ok ()
  | (name, v) :: rest, h, r => by
    have hset := set_failsBy hP (h (name, v) List.mem_cons_self) r v
    rw [setAll]
    cases hr : r.set ty name v with
    | error e => exact FailsBy.error_iff.mpr (hset e hr)
    | ok r' => exact setAll_failsBy hP (fun a ha => h a (List.mem_cons_of_mem _ ha)) r'

end Record

namespace ColumnCodec

/-- A failure of the codec is told with its column. -/
theorem inColumn_failsBy (table : String) (column : ColumnMeta) (outcome : Except CodecFault α) :
    FailsBy Error.General (inColumn table column outcome) := by
  cases outcome <;> simp [inColumn, failure]

/-- What cannot be stored is told with its column. -/
theorem encode_failsBy (codec : ColumnCodec) (table : String) (column : ColumnMeta) (v : Value) :
    FailsBy Error.General (codec.encode table column v) := by
  unfold encode
  split
  · unfold encodeDocument
    split
    · exact .ok _
    · split
      · exact .ok _
      · split
        · exact (inColumn_failsBy _ _ _).map _
        · exact .ok _
    · exact .ok _
  · split
    · split
      · exact .ok _
      · exact (inColumn_failsBy _ _ _).map _
      · simp [failure]
    · exact .ok _

/-- So is what is stored and cannot be read. -/
theorem decode_failsBy (codec : ColumnCodec) (table : String) (column : ColumnMeta) (v : Value) :
    FailsBy Error.General (codec.decode table column v) := by
  have hdocument (outcome : Except String Json) :
      FailsBy Error.General (ofDocument table column outcome) := by
    unfold ofDocument
    split <;> simp [failure]
  unfold decode
  split
  · exact .ok _
  · split
    · unfold decodeSealed
      split
      · refine .bind (inColumn_failsBy _ _ _) fun plain _ => ?_
        split
        · exact hdocument _
        · split
          · exact .ok _
          · simp [failure]
      · simp [failure]
    · split
      · unfold decodeDocument
        split
        · exact .ok _
        · exact hdocument _
        · exact hdocument _
        · simp [failure]
      · exact .ok _

end ColumnCodec

end TenantTree
