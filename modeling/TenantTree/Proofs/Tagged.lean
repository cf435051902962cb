/-
  TenantTree.Proofs.Tagged — a value reads back from its tagged text.

  Of a document without numbers that are no integers it takes only its nesting to say whether it is
  legible (§1). The tagged document of a value without doubles is such a document (§2), and reading
  undoes tagging kind by kind, sequences by induction (§3). So within the nesting that readers
  follow a value reads back from its text, whatever its texts and documents hold, and no two values
  share a text (`tagged_text_is_faithful`, §4).
-/
import TenantTree.Proofs.Document
import TenantTree.Value.Tagged

namespace TenantTree

/-! ## §1. Nesting. -/

namespace Json

mutual

/-- How deep the containers of a document nest. -/
def nesting : Json → Nat
  | array items => nestingOfItems items + 1
  | object members => nestingOfMembers members + 1
  | _ => 0

/-- How deep the containers of some item nest. -/
def nestingOfItems : List Json → Nat
  | [] => 0
  | item :: rest => max item.nesting (nestingOfItems rest)

/-- How deep the containers of some member's value nest. -/
def nestingOfMembers : List (String × Json) → Nat
  | [] => 0
  | (_, value) :: rest => max value.nesting (nestingOfMembers rest)

end

/-- A document whose numbers are integers. -/
inductive Integral : Json → Prop where
  | null : Integral .null
  | bool (b : Bool) : Integral (.bool b)
  | integer {n : Int} (h : InRange n) : Integral (.number (.int n))
  | string (s : String) : Integral (.string s)
  | array {items : List Json} (h : ∀ item ∈ items, Integral item) : Integral (.array items)
  | object {members : List (String × Json)} (h : ∀ member ∈ members, Integral member.2) :
      Integral (.object members)

/-- No item nests deeper than the items do. -/
theorem nesting_le_of_item {item : Json} :
    ∀ {items : List Json}, item ∈ items → item.nesting ≤ nestingOfItems items
  | next :: rest, h => by
    rw [nestingOfItems]
    rcases List.mem_cons.mp h with rfl | hmem
    · exact Nat.le_max_left ..
    · exact (nesting_le_of_item hmem).trans (Nat.le_max_right ..)

/-- No member's value nests deeper than the members do. -/
theorem nesting_le_of_member {member : String × Json} :
    ∀ {members : List (String × Json)}, member ∈ members →
      member.2.nesting ≤ nestingOfMembers members
  | (_, value) :: rest, h => by
    rw [nestingOfMembers]
    rcases List.mem_cons.mp h with rfl | hmem
    · exact Nat.le_max_left ..
    · exact (nesting_le_of_member hmem).trans (Nat.le_max_right ..)

/-- A document of integers is legible as deep as it nests. -/
theorem Integral.legible {j : Json} (h : j.Integral) :
    ∀ {depth : Nat}, j.nesting ≤ depth → j.Legible depth := by
  induction h with
  | null => exact fun {depth} _ => .null depth
  | bool b => exact fun {depth} _ => .bool depth b
  | integer hn => exact fun {depth} _ => .integer depth hn
  | string s => exact fun {depth} _ => .string depth s
  | @array items _ ih =>
    intro depth hdepth
    rw [nesting] at hdepth
    cases depth with
    | zero => cases hdepth
    | succ depth =>
      refine .array fun item hitem => ih item hitem ?_
      exact (nesting_le_of_item hitem).trans (Nat.le_of_succ_le_succ hdepth)
  | @object members _ ih =>
    intro depth hdepth
    rw [nesting] at hdepth
    cases depth with
    | zero => cases hdepth
    | succ depth =>
      refine .object fun member hmember => ih member hmember ?_
      exact (nesting_le_of_member hmember).trans (Nat.le_of_succ_le_succ hdepth)

end Json

/-! ## §2. The documents of values. -/

namespace Value

/-- A value without doubles, whose documents have their members in order, each key once, and no
    numbers but integers. -/
inductive Exact : Value → Prop where
  | null : Exact .null
  | bool (b : Bool) : Exact (.bool b)
  | smallInt (n : Int16) : Exact (.smallInt n)
  | int (n : Int32) : Exact (.int n)
  | bigInt (n : Int64) : Exact (.bigInt n)
  | decimal (s : String) : Exact (.decimal s)
  | text (s : String) : Exact (.text s)
  | bytes (b : List UInt8) : Exact (.bytes b)
  | timestampTz (n : Int64) : Exact (.timestampTz n)
  | uuid (u : Uuid) : Exact (.uuid u)
  | json {j : Json} (hintegral : j.Integral) (hcanonical : j.canonical = j) : Exact (.json j)
  | array {items : List Value} (h : ∀ item ∈ items, Exact item) : Exact (.array items)
  | default : Exact .default

theorem toTaggedItems_eq (items : List Value) : toTaggedItems items = items.map toTagged := by
  induction items with
  | nil => rfl
  | cons item rest ih => rw [toTaggedItems, ih, List.map_cons]

/-- The document of a kind with its payload is one of integers if the payload is. -/
theorem integral_tagged {kind : String} {payload : Json} (h : payload.Integral) :
    (tagged kind payload).Integral := by
  refine .object fun member hmember => ?_
  rw [List.mem_singleton.mp hmember]
  exact h

/-- The integers of a value are of 64 bits. -/
theorem integral_intDocument {n : Int} (hlow : -2 ^ 63 ≤ n) (hhigh : n < 2 ^ 63) :
    (intDocument n).Integral := by
  refine .integer ⟨?_, ?_⟩
  · simpa using hlow
  · exact hhigh.trans (by decide)

/-- The document of a byte string is one of integers. -/
theorem integral_bytes (b : List UInt8) :
    (Json.array (b.map fun byte => intDocument byte.toNat)).Integral := by
  refine .array fun item hitem => ?_
  obtain ⟨byte, _, rfl⟩ := List.mem_map.mp hitem
  have hbyte : byte.toNat < 2 ^ 8 := byte.toNat_lt
  exact integral_intDocument (by omega) (by omega)

/-- The tagged document of a value without doubles has no numbers but integers. -/
theorem Exact.integral {v : Value} (h : v.Exact) : v.toTagged.Integral := by
  induction h with
  | null => exact .string _
  | default => exact .string _
  | bool b => exact integral_tagged (.bool b)
  | smallInt n =>
    have hlow := n.le_toInt
    have hhigh := n.toInt_lt
    exact integral_tagged (integral_intDocument (by omega) (by omega))
  | int n =>
    have hlow := n.le_toInt
    have hhigh := n.toInt_lt
    exact integral_tagged (integral_intDocument (by omega) (by omega))
  | bigInt n | timestampTz n =>
    exact integral_tagged (integral_intDocument n.le_toInt n.toInt_lt)
  | decimal s | text s => exact integral_tagged (.string s)
  | bytes b => exact integral_tagged (integral_bytes b)
  | uuid u => exact integral_tagged (integral_bytes u.bytes)
  | json hintegral _ => exact integral_tagged hintegral
  | @array items _ ih =>
    refine integral_tagged (.array fun item hitem => ?_)
    rw [toTaggedItems_eq] at hitem
    obtain ⟨v, hv, rfl⟩ := List.mem_map.mp hitem
    exact ih v hv

/-! ## §3. Reading undoes tagging. -/

/-- A kind with its payload is read by its kind, sequences of values apart. -/
theorem ofTagged?_tagged {kind : String} (h : kind ≠ "Array") (payload : Json) :
    ofTagged? (tagged kind payload) = ofPayload? kind payload := by
  unfold tagged
  rw [ofTagged?]
  exact fun _ hkind _ => h hkind

/-- An integer between the bounds is read. -/
theorem readInt?_intDocument {least most n : Int} (hlow : least ≤ n) (hhigh : n ≤ most) :
    readInt? least most (intDocument n) = some n := if_pos ⟨hlow, hhigh⟩

/-- A byte string is read back. -/
theorem readBytes?_array (b : List UInt8) :
    readBytes? (.array (b.map fun byte => intDocument byte.toNat)) = some b := by
  have hbyte (byte : UInt8) :
      (readInt? 0 255 (intDocument byte.toNat)).map (fun n => UInt8.ofNat n.toNat)
        = some byte := by
    have hlt : byte.toNat < 2 ^ 8 := byte.toNat_lt
    rw [readInt?_intDocument (by omega) (by omega), Option.map_some, Int.toNat_natCast,
      UInt8.ofNat_toNat]
  unfold readBytes?
  dsimp only
  induction b with
  | nil => rfl
  | cons byte rest ih =>
    rw [List.map_cons, List.mapM_cons, hbyte, ih]
    rfl

/-- Items that are each read back are read back together. -/
theorem ofTaggedItems?_toTaggedItems {items : List Value}
    (h : ∀ item ∈ items, ofTagged? item.toTagged = some item) :
    ofTaggedItems? (toTaggedItems items) = some items := by
  induction items with
  | nil => rw [toTaggedItems, ofTaggedItems?]
  | cons item rest ih =>
    rw [toTaggedItems, ofTaggedItems?, h item List.mem_cons_self,
      ih fun next hnext => h next (List.mem_cons_of_mem _ hnext)]
    rfl

/-- A value without doubles is read back from its tagged document. -/
theorem Exact.ofTagged? {v : Value} (h : v.Exact) : ofTagged? v.toTagged = some v := by
  induction h with
  | null => rw [toTagged, Value.ofTagged?]; rfl
  | default => rw [toTagged, Value.ofTagged?]; rfl
  | bool b => exact ofTagged?_tagged (by decide) _
  | smallInt n =>
    have hlow := n.le_toInt
    have hhigh := n.toInt_lt
    rw [toTagged, ofTagged?_tagged (by decide)]
    show (readInt? _ _ _).map _ = _
    rw [readInt?_intDocument (by omega) (by omega), Option.map_some, Int16.ofInt_toInt]
  | int n =>
    have hlow := n.le_toInt
    have hhigh := n.toInt_lt
    rw [toTagged, ofTagged?_tagged (by decide)]
    show (readInt? _ _ _).map _ = _
    rw [readInt?_intDocument (by omega) (by omega), Option.map_some, Int32.ofInt_toInt]
  | bigInt n | timestampTz n =>
    have hlow := n.le_toInt
    have hhigh := n.toInt_lt
    rw [toTagged, ofTagged?_tagged (by decide)]
    show (readInt? _ _ _).map _ = _
    rw [readInt?_intDocument (by omega) (by omega), Option.map_some, Int64.ofInt_toInt]
  | decimal s | text s => exact ofTagged?_tagged (by decide) _
  | bytes b =>
    rw [toTagged, ofTagged?_tagged (by decide)]
    show (readBytes? _).map _ = _
    rw [readBytes?_array]
    rfl
  | uuid u =>
    rw [toTagged, ofTagged?_tagged (by decide)]
    show ((readBytes? _).bind _).map _ = _
    rw [readBytes?_array, Option.bind_some, Uuid.ofBytes?, dif_pos u.length_eq]
    rfl
  | @json j _ hcanonical =>
    rw [toTagged, ofTagged?_tagged (by decide)]
    show some (Value.json j.canonical) = _
    rw [hcanonical]
  | array _ ih =>
    rw [toTagged, tagged, Value.ofTagged?, ofTaggedItems?_toTaggedItems ih]
    rfl

/-! ## §4. Texts. -/

/-- A value without doubles reads back from its text, if that nests no deeper than a reader
    follows: whatever sequences, byte strings, integers and texts it holds, and whatever documents,
    be they documents that look like tagged values. No other such value has the same text. -/
theorem tagged_text_is_faithful {v : Value} (h : v.Exact)
    (hnesting : v.toTagged.nesting ≤ Json.depthLimit) :
    ofTaggedText? v.taggedText = some v
    ∧ ∀ w : Value, w.Exact → w.toTagged.nesting ≤ Json.depthLimit → w.taggedText = v.taggedText →
        w = v := by
  have hread : ∀ {u : Value}, u.Exact → u.toTagged.nesting ≤ Json.depthLimit →
      ofTaggedText? u.taggedText = some u := by
    intro u hu hdepth
    rw [ofTaggedText?, taggedText, Json.parseTree_text (hu.integral.legible hdepth)]
    exact hu.ofTagged?
  refine ⟨hread h hnesting, fun w hw hdepth htext => ?_⟩
  have hsame : some w = some v := by rw [← hread hw hdepth, htext, hread h hnesting]
  exact Option.some.inj hsame

/-- Bytes, a text with a quote in it and a document that looks like a tagged text, in a sequence in a
    sequence. -/
theorem tagged_text_is_faithful_nested :
    let inner : Value := .array [.bytes [0, 255], .uuid Uuid.zero, .bigInt (-1),
      .text "a\"\\", .json (tagged "Text" (.string "b"))]
    let v : Value := .array [inner, .default]
    v.Exact ∧ v.toTagged.nesting ≤ Json.depthLimit ∧ ofTaggedText? v.taggedText = some v := by
  intro inner v
  have hdocument : (tagged "Text" (.string "b")).canonical = tagged "Text" (.string "b") := by
    simp [tagged, Json.canonical, Json.canonicalMembers, Json.sortMembers, Json.insertMember]
  have hinner : inner.Exact := by
    refine .array fun item hitem => ?_
    simp only [List.mem_cons, List.not_mem_nil, or_false] at hitem
    rcases hitem with rfl | rfl | rfl | rfl | rfl
    · exact .bytes _
    · exact .uuid _
    · exact .bigInt _
    · exact .text _
    · exact .json (integral_tagged (.string _)) hdocument
  have hv : v.Exact := by
    refine .array fun item hitem => ?_
    simp only [List.mem_cons, List.not_mem_nil, or_false] at hitem
    rcases hitem with rfl | rfl
    · exact hinner
    · exact .default
  have hnesting : v.toTagged.nesting ≤ Json.depthLimit := by decide
  exact ⟨hv, hnesting, (tagged_text_is_faithful hv hnesting).1⟩

end Value

end TenantTree
