/-
  TenantTree.Example.Widgets — a worked example: widgets with their parts.

  All types are of one tenant's rows. A widget is looked up by its code and owns its parts, which
  are tied by foreign key and deleted when the widget no longer has them. A bundle is looked up by
  its labels, a sequence, which the store does not write as the engine does. The pegs of a board are
  tied to its map keys by their own primary keys.
-/
import TenantTree.Deployer.Calls
import TenantTree.Store.Script

namespace TenantTree.Example

/-! ## §1. The types. -/

/-- A field that is stored in a column of its own name. -/
def stored (name type : String) (shape : FieldShape) : FieldDecl RecordType :=
  { FieldDecl.plain name type shape with column := some name }

/-- A generated primary key. -/
def generatedKey : FieldDecl RecordType :=
  { stored "id" "Option<i64>" .optional with primaryKey := true }

/-- The tenant of a row. -/
def tenantField : FieldDecl RecordType :=
  { stored "tenant_id" "i64" .scalar with tenantKey := true }

/-- A part of a widget. -/
def part : RecordType where
  name := "Part"
  table := some "parts"
  fields := [
    generatedKey,
    tenantField,
    { stored "widget_id" "Option<i64>" .optional with foreignKey := some "widgets.id" },
    { stored "label" "String" .scalar with lookup := true }]
  reportedRelation := none
  parentShift := 0

/-- The relation of a widget to its parts. -/
def partsOfWidget : ChildDecl RecordType where
  element := part
  elementName := "Part"
  elementTable := some "parts"
  foreignKey := some "widget_id"
  grouping := []
  keyMapping := none
  valueMappings := []
  deleteOrphans := true

/-- The field of a widget that holds its parts. -/
def partsField : FieldDecl RecordType :=
  { (FieldDecl.plain "parts" "Vec<Part>" .sequence : FieldDecl RecordType) with
    child := some partsOfWidget }

/-- A widget with its parts. -/
def widget : RecordType where
  name := "Widget"
  table := some "widgets"
  fields := [
    generatedKey,
    tenantField,
    { stored "code" "String" .scalar with lookup := true, required := true },
    stored "name" "Option<String>" .optional,
    { stored "updated_by" "Option<String>" .optional with audit := some .updatedBy },
    partsField]
  reportedRelation := none
  parentShift := 0

/-- The description of the type of parts. -/
def partMetadata : TableMetadata where
  typeName := "Part"
  table := "parts"
  primaryKey := some ⟨"id", "id"⟩
  tenantKey := some ⟨"tenant_id", "tenant_id"⟩
  columns := [
    ⟨"id", "id", .primaryKey, false, false, false, none⟩,
    ⟨"tenant_id", "tenant_id", .tenantKey, false, false, false, none⟩,
    ⟨"widget_id", "widget_id", .data, false, false, false, some ⟨"widgets", "id"⟩⟩,
    ⟨"label", "label", .data, false, false, false, none⟩]
  lookupFields := [⟨"label", .column "label"⟩]
  lookupJoins := []
  children := []

/-- The relation of a widget to its parts, with its link. -/
def partsRelation : ChildRelation where
  field := "parts"
  elementName := "Part"
  elementTable := "parts"
  shape := .sequence
  links := [⟨"widget_id", "widget_id", .primaryKey⟩]
  keyMapping := none
  valueMappings := []
  deleteOrphans := true
  childPrimaryKey := some "id"
  childTenantKey := some "tenant_id"

/-- The description of the type of widgets. -/
def widgetMetadata : TableMetadata where
  typeName := "Widget"
  table := "widgets"
  primaryKey := some ⟨"id", "id"⟩
  tenantKey := some ⟨"tenant_id", "tenant_id"⟩
  columns := [
    ⟨"id", "id", .primaryKey, false, false, false, none⟩,
    ⟨"tenant_id", "tenant_id", .tenantKey, false, false, false, none⟩,
    ⟨"code", "code", .data, true, false, false, none⟩,
    ⟨"name", "name", .data, false, false, false, none⟩,
    ⟨"updated_by", "updated_by", .audit .updatedBy, false, false, false, none⟩]
  lookupFields := [⟨"code", .column "code"⟩]
  lookupJoins := []
  children := [partsRelation]

/-- A bundle with its labels. -/
def bundle : RecordType where
  name := "Bundle"
  table := some "bundles"
  fields := [
    generatedKey,
    tenantField,
    { stored "labels" "Vec<String>" .sequence with lookup := true }]
  reportedRelation := none
  parentShift := 0

/-- The description of the type of bundles. -/
def bundleMetadata : TableMetadata where
  typeName := "Bundle"
  table := "bundles"
  primaryKey := some ⟨"id", "id"⟩
  tenantKey := some ⟨"tenant_id", "tenant_id"⟩
  columns := [
    ⟨"id", "id", .primaryKey, false, false, false, none⟩,
    ⟨"tenant_id", "tenant_id", .tenantKey, false, false, false, none⟩,
    ⟨"labels", "labels", .data, false, false, false, none⟩]
  lookupFields := [⟨"labels", .column "labels"⟩]
  lookupJoins := []
  children := []

/-- A note, whose author is stamped into an encrypted column of documents. -/
def note : RecordType where
  name := "Note"
  table := some "notes"
  fields := [
    generatedKey,
    tenantField,
    { stored "body" "Json" .scalar with encrypted := true, jsonb := true },
    { stored "created_by" "Json" .scalar with
      audit := some .createdBy, encrypted := true, jsonb := true }]
  reportedRelation := none
  parentShift := 0

/-- A slot, which is looked up by its code and its tenant. -/
def slot : RecordType where
  name := "Slot"
  table := some "slots"
  fields := [
    generatedKey,
    { tenantField with lookup := true },
    { stored "code" "String" .scalar with lookup := true }]
  reportedRelation := none
  parentShift := 0

/-- The description of the type of slots. -/
def slotMetadata : TableMetadata where
  typeName := "Slot"
  table := "slots"
  primaryKey := some ⟨"id", "id"⟩
  tenantKey := some ⟨"tenant_id", "tenant_id"⟩
  columns := [
    ⟨"id", "id", .primaryKey, false, false, false, none⟩,
    ⟨"tenant_id", "tenant_id", .tenantKey, false, false, false, none⟩,
    ⟨"code", "code", .data, false, false, false, none⟩]
  lookupFields := [⟨"tenant_id", .column "tenant_id"⟩, ⟨"code", .column "code"⟩]
  lookupJoins := []
  children := []

/-- A badge of a widget, whose primary key is a UUID. -/
def badge : RecordType where
  name := "Badge"
  table := some "badges"
  fields := [
    { stored "id" "Option<[u8;16]>" .optional with primaryKey := true },
    tenantField,
    { stored "widget_id" "Option<i64>" .optional with foreignKey := some "widgets.id" },
    { stored "label" "String" .scalar with lookup := true }]
  reportedRelation := none
  parentShift := 0

/-- A token, whose primary key is a byte string. -/
def token : RecordType where
  name := "Token"
  table := some "tokens"
  fields := [
    { stored "id" "Option<Vec<u8>>" .optional with primaryKey := true },
    tenantField,
    { stored "label" "String" .scalar with lookup := true }]
  reportedRelation := none
  parentShift := 0

/-- A leaflet with a sealed title, tags in a sealed document and links in an open one. -/
def leaflet : RecordType where
  name := "Leaflet"
  table := some "leaflets"
  fields := [
    generatedKey,
    tenantField,
    { stored "title" "Option<String>" .optional with encrypted := true },
    { stored "tags" "Vec<String>" .sequence with encrypted := true, jsonb := true },
    { stored "links" "Vec<String>" .sequence with jsonb := true },
    { stored "created_by" "Option<String>" .optional with audit := some .createdBy },
    { stored "updated_by" "Option<String>" .optional with audit := some .updatedBy }]
  reportedRelation := none
  parentShift := 0

/-- The description of the type of leaflets. -/
def leafletMetadata : TableMetadata where
  typeName := "Leaflet"
  table := "leaflets"
  primaryKey := some ⟨"id", "id"⟩
  tenantKey := some ⟨"tenant_id", "tenant_id"⟩
  columns := [
    ⟨"id", "id", .primaryKey, false, false, false, none⟩,
    ⟨"tenant_id", "tenant_id", .tenantKey, false, false, false, none⟩,
    ⟨"title", "title", .data, false, true, false, none⟩,
    ⟨"tags", "tags", .data, false, true, true, none⟩,
    ⟨"links", "links", .data, false, false, true, none⟩,
    ⟨"created_by", "created_by", .audit .createdBy, false, false, false, none⟩,
    ⟨"updated_by", "updated_by", .audit .updatedBy, false, false, false, none⟩]
  lookupFields := []
  lookupJoins := []
  children := []

/-- The field of a widget that holds its badges. -/
def badgesField : FieldDecl RecordType :=
  { (FieldDecl.plain "badges" "Vec<Badge>" .sequence : FieldDecl RecordType) with
    child := some { partsOfWidget with
      element := badge, elementName := "Badge", elementTable := some "badges" } }

/-- The description of the type of badges, which is that of parts under another name. -/
def badgeMetadata : TableMetadata :=
  { partMetadata with typeName := "Badge", table := "badges" }

/-- The relation of a widget to its badges. -/
def badgesRelation : ChildRelation :=
  { partsRelation with field := "badges", elementName := "Badge", elementTable := "badges" }

/-- A peg of a board. -/
def peg : RecordType where
  name := "Peg"
  table := some "pegs"
  fields := [
    generatedKey,
    tenantField,
    { stored "board_id" "Option<i64>" .optional with foreignKey := some "boards.id" }]
  reportedRelation := none
  parentShift := 0

/-- The field of a board that holds its pegs, by their primary keys. -/
def pegsField : FieldDecl RecordType :=
  { (FieldDecl.plain "pegs" "BTreeMap<i64,Peg>" .mapping : FieldDecl RecordType) with
    child := some { partsOfWidget with
      element := peg, elementName := "Peg", elementTable := some "pegs",
      foreignKey := some "board_id", keyMapping := some "id", deleteOrphans := false } }

/-- A board with its pegs. -/
def board : RecordType where
  name := "Board"
  table := some "boards"
  fields := [
    generatedKey,
    tenantField,
    { stored "code" "String" .scalar with lookup := true },
    pegsField]
  reportedRelation := none
  parentShift := 0

/-- A folder, whose title and labels are required. -/
def folder : RecordType where
  name := "Folder"
  table := some "folders"
  fields := [
    generatedKey,
    tenantField,
    { stored "title" "String" .scalar with required := true },
    { stored "labels" "Vec<String>" .sequence with required := true, jsonb := true }]
  reportedRelation := none
  parentShift := 0

/-- The description of the type of folders. -/
def folderMetadata : TableMetadata where
  typeName := "Folder"
  table := "folders"
  primaryKey := some ⟨"id", "id"⟩
  tenantKey := some ⟨"tenant_id", "tenant_id"⟩
  columns := [
    ⟨"id", "id", .primaryKey, false, false, false, none⟩,
    ⟨"tenant_id", "tenant_id", .tenantKey, false, false, false, none⟩,
    ⟨"title", "title", .data, true, false, false, none⟩,
    ⟨"labels", "labels", .data, true, false, true, none⟩]
  lookupFields := []
  lookupJoins := []
  children := []

/-- An invoice, which is looked up by the name of its account and by its number. -/
def invoice : RecordType where
  name := "Invoice"
  table := some "invoices"
  fields := [
    generatedKey,
    tenantField,
    { stored "account_id" "Option<i64>" .optional with foreignKey := some "accounts.id" },
    { (FieldDecl.plain "account" "String" .scalar : FieldDecl RecordType) with
      lookup := true, related := some ⟨"accounts", "name", "account_id", "id"⟩ },
    { stored "number" "String" .scalar with lookup := true }]
  reportedRelation := none
  parentShift := 0

/-- The description of the type of invoices. -/
def invoiceMetadata : TableMetadata where
  typeName := "Invoice"
  table := "invoices"
  primaryKey := some ⟨"id", "id"⟩
  tenantKey := some ⟨"tenant_id", "tenant_id"⟩
  columns := [
    ⟨"id", "id", .primaryKey, false, false, false, none⟩,
    ⟨"tenant_id", "tenant_id", .tenantKey, false, false, false, none⟩,
    ⟨"account_id", "account_id", .data, false, false, false, some ⟨"accounts", "id"⟩⟩,
    ⟨"number", "number", .data, false, false, false, none⟩]
  lookupFields := [⟨"account", .related 0 "name"⟩, ⟨"number", .column "number"⟩]
  lookupJoins := [⟨"j0", "accounts", "id", "account_id"⟩]
  children := []

theorem part_metadata : Metadata.ofType part = .ok partMetadata := rfl

theorem widget_metadata : Metadata.ofType widget = .ok widgetMetadata := rfl

theorem bundle_metadata : Metadata.ofType bundle = .ok bundleMetadata := rfl

theorem slot_metadata : Metadata.ofType slot = .ok slotMetadata := rfl

theorem leaflet_metadata : Metadata.ofType leaflet = .ok leafletMetadata := rfl

theorem invoice_metadata : Metadata.ofType invoice = .ok invoiceMetadata := rfl

theorem part_relations : part.relations = [] := rfl

theorem widget_relations : widget.relations = [(partsField, part)] := rfl

/-! ## §2. Records, and a deployer. -/

/-- A part, badge or token that is not stored yet. -/
def newPart (label : String) : Record := ⟨[("label", .text label)], none, []⟩

/-- A widget that is not stored yet. -/
def newWidget (code : String) (parts : List Record) : Record :=
  ⟨[("code", .text code)], none, [("parts", parts.map fun p => (none, p))]⟩

/-- A part that is stored under the key 5, as that of the widget 5. -/
def storedPart : Record :=
  ⟨[("label", .text "p"), ("widget_id", .bigInt 5), ("id", .bigInt 5), ("tenant_id", .bigInt 7)],
    none, []⟩

/-- A widget that is stored under the key 5, with its part. -/
def storedWidget : Record :=
  ⟨[("code", .text "a"), ("tenant_id", .bigInt 7), ("id", .bigInt 5)], none,
    [("parts", [(none, storedPart)])]⟩

/-- A board that is not stored yet, with a peg for the key 0. -/
def newBoard : Record :=
  ⟨[("code", .text "a")], none, [("pegs", [(some (.bigInt 0), ⟨[], none, []⟩)])]⟩

/-- A deployer that writes for a tenant to a store with a script. -/
def deployer : Deployer Script where
  store := Script.store
  context := ⟨.bigInt 7, .text "tester"⟩
  config := .standard
  codec := ⟨Cipher.marked, none⟩
  now := .timestampTz 0

/-- The deployer with a key to seal with. -/
def sealing : Deployer Script := { deployer with codec := ⟨Cipher.marked, some [0x00, 0xff]⟩ }

/-- A store with one row under a key, that of a part or badge p of the widget 5 or of a token p,
    which every search finds. -/
def shelf (key : Value) : Store Unit where
  begin _ _ := (.ok (), ())
  query c _ := match c with
    | .identity _ => (.ok [⟨["__pk", "__lookup"], [key, .text "1:p"]⟩], ())
    | _ => (.ok [⟨["id", "widget_id"], [key, .bigInt 5]⟩], ())
  execute _ _ := (.ok 1, ())
  commit _ := (.ok (), ())
  rollback _ := (.ok (), ())

/-- A deployer that writes to such a store. -/
def shelving (key : Value) : Deployer Unit := { deployer with store := shelf key }

/-- A fresh workbench for such a store. -/
def shelfBench (batch : List Record) : Workbench Unit := ⟨(), [], [], .empty, batch⟩

/-- The widget 5, whose row existed. -/
def fifthWidget : Parent := ⟨some (.bigInt 5), true, [], none⟩

/-- A fresh workbench with a script for the store. -/
def workbench (script : Script) (batch : List Record) : Workbench Script :=
  ⟨script, [], [], .empty, batch⟩

end TenantTree.Example
