/-
  TenantTree.Example.Customers — a worked example: customers with their orders and addresses.

  Three declared record types that use most attributes. A customer holds a sequence of orders, tied
  by foreign key, and a mapping of addresses, tied by copied fields and constants.
-/
import TenantTree.Declaration.RecordType

namespace TenantTree.Example

open Declaration (FieldSource ItemSource)

/-- A postal address, whose table is not declared. -/
def address : ItemSource where
  kind := .named
  name := "Address"
  attributes := []
  fields := [
    ⟨"id", "[u8; 16]", ["primary_key"]⟩,
    ⟨"customer_id", "Option<i64>", ["column"]⟩,
    ⟨"region", "String", ["column"]⟩,
    ⟨"label", "String", ["column"]⟩,
    ⟨"kind", "String", ["column"]⟩,
    ⟨"priority", "i16", ["column"]⟩,
    ⟨"active", "bool", ["column"]⟩,
    ⟨"photo", "Option<Vec<u8>>", ["column"]⟩]

/-- An order, which is looked up by its account and its number. -/
def order : ItemSource where
  kind := .named
  name := "Order"
  attributes := ["table = \"orders\""]
  fields := [
    ⟨"id", "Option<i32>", ["primary_key"]⟩,
    ⟨"tenant_id", "i64", ["multitenancy_key"]⟩,
    ⟨"customer_id", "Option<i64>", ["foreign_key = \"customers.id\""]⟩,
    ⟨"account", "String",
      ["lookup, related(table = \"accounts\", column = \"name\", via = \"customer_id\", "
        ++ "key = \"uid\")"]⟩,
    ⟨"r#type", "String", ["lookup, column = \"order_no\""]⟩,
    ⟨"rate", "f64", ["column"]⟩,
    ⟨"defined", "DefinedFields", ["defined_fields"]⟩]

/-- A customer. -/
def customer : ItemSource where
  kind := .named
  name := "Customer"
  attributes := ["table = \"customers\""]
  fields := [
    ⟨"id", "Option<i64>", ["primary_key"]⟩,
    ⟨"tenant_id", "i64", ["multitenancy_key"]⟩,
    ⟨"email", "String", ["lookup, required"]⟩,
    ⟨"display_name", "Option<String>", ["column = \"display\""]⟩,
    ⟨"tax_number", "Option<String>", ["encrypted"]⟩,
    ⟨"tags", "Vec<String>", ["jsonb"]⟩,
    ⟨"created_by", "Option<String>", ["audit = \"created_by\""]⟩,
    ⟨"updated_by", "Option<String>", ["audit = \"updated_by\""]⟩,
    ⟨"created_at", "Option<i64>", ["audit = \"created_at\""]⟩,
    ⟨"updated_at", "Option<i64>", ["audit = \"updated_at\""]⟩,
    ⟨"orders", "Vec<Order>", ["child(foreign_key = \"customer_id\", delete_orphans)"]⟩,
    ⟨"addresses", "BTreeMap<String, Address>",
      ["child(grouping(customer_id = \"id\", region = \"email\"), key_mapping = \"label\", "
        ++ "value_mappings(kind = \"postal\", priority = 2, active = true))"]⟩,
    ⟨"defined", "Option<DefinedFields>", ["defined_fields"]⟩,
    ⟨"scratch", "u8", []⟩]

/-- The record types of sources, each of which may refer to those before it; sources that are
    refused are left out. -/
def recordTypes : List ItemSource → List RecordType → List RecordType
  | [], known => known
  | source :: rest, known =>
    match Declaration.accept source with
    | .ok d => recordTypes rest (known ++ (d.recordType? known).toList)
    | .error _ => recordTypes rest known

/-- The record types of the example. -/
def types : List RecordType := recordTypes [address, order, customer] []

end TenantTree.Example
