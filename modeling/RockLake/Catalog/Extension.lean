import RockLake.Catalog.DirectWrites

/-! Extension tables: rows of registered applications, stored beside the catalog and outside its
snapshots. Row zero of a table marks that it exists and holds the next row identifier. -/
namespace RockLake

def extensionPgtrickle : Nat := 0x01

def resolveExtensionId (schemaName : String) : Option Nat :=
  if Text.lower schemaName.toList = "pgtrickle".toList then some extensionPgtrickle else none

def isRegisteredExtension (schemaName : String) (allowed : List String) : Bool :=
  allowed.any fun s => Text.lower s.toList = Text.lower schemaName.toList

def maxIdentifierLength : Nat := 2 ^ 16 - 1

def validateIdentifierLen (name : String) : Except CatalogError Unit :=
  if utf8Length name > maxIdentifierLength then
    .error (.identifierTooLong (utf8Length name) maxIdentifierLength)
  else .ok ()

/-- The length word keeps the rows of one table apart from those of a table with a longer name. -/
def extensionTableWords (extensionId : Nat) (tableName : String) : Key :=
  extensionId :: utf8Length tableName :: textWords tableName

def keyExtensionSchema (extensionId : Nat) (tableName : String) (rowId : Nat) :
    Except CatalogError Key :=
  (validateIdentifierLen tableName).map fun _ => extensionTableWords extensionId tableName ++ [rowId]

def prefixExtensionTable (extensionId : Nat) (tableName : String) : Except CatalogError Key :=
  (validateIdentifierLen tableName).map fun _ => extensionTableWords extensionId tableName

def markerText (nextId : Nat) : String := "\x7b\"next_id\":" ++ toString nextId ++ "\x7d"

/-- The counter kept in a marker row; any other content counts as a fresh table. -/
def markerNextId (dataJson : String) : Nat :=
  ((Text.stripPrefix "\x7b\"next_id\":".toList dataJson.toList).bind fun rest =>
    if rest.getLast? = some '\x7d' then Text.parseUnsigned (2 ^ 64) rest.dropLast else none).getD 1

variable (db : Db)

def createExtensionTable (extensionId : Nat) (tableName : String) :
    Except CatalogError (Bool × Db) :=
  (keyExtensionSchema extensionId tableName 0).map fun key =>
    match db.get .extensionSchema key with
    | some _ => (false, db)
    | none =>
      (true, db.put ⟨.extensionSchema, key,
        { extensionId, tableName, rowId := 0, dataJson := "\x7b\x7d" }⟩)

/-- One transaction: read the counter, write the row, advance the counter. -/
def insertExtensionRow (extensionId : Nat) (tableName dataJson : String) :
    Except CatalogError (Nat × Db) := do
  let counterKey ← keyExtensionSchema extensionId tableName 0
  let nextId := match db.get .extensionSchema counterKey with
    | some marker => markerNextId marker.dataJson
    | none => 1
  let key ← keyExtensionSchema extensionId tableName nextId
  if nextId + 1 > u64Max then .error (.invalidInput "extension row ID overflow")
  else .ok (nextId, db.putAll
    [⟨.extensionSchema, key, { extensionId, tableName, rowId := nextId, dataJson }⟩,
     ⟨.extensionSchema, counterKey,
       { extensionId, tableName, rowId := 0, dataJson := markerText (nextId + 1) }⟩])

def extensionRows (start : Key) : List (Key × ExtensionSchemaRow) :=
  (db.scanPrefix .extensionSchema start).filter fun e => e.2.rowId > 0

def deleteKeys (db : Db) (keys : List Key) : Db :=
  keys.foldl (fun db key => db.delete .extensionSchema key) db

def deleteExtensionRows (extensionId : Nat) (tableName : String) : Except CatalogError (Nat × Db) :=
  (prefixExtensionTable extensionId tableName).map fun start =>
    let keys := (extensionRows db start).map Prod.fst
    (keys.length, deleteKeys db keys)

variable {db}

theorem deleteKeys_get :
    (deleteKeys db keys).get .extensionSchema k =
      if k ∈ keys then none else db.get .extensionSchema k := by
  induction keys generalizing db with
  | nil => rfl
  | cons key rest ih =>
    rw [deleteKeys, List.foldl_cons, ← deleteKeys, ih]
    by_cases same : k = key
    · subst same
      simp [Db.get, Db.delete, OrderedMap.get_delete]
    · simp [same, Db.get_delete_key db same]

theorem deleteKeys_family (other : f ≠ .extensionSchema) :
    deleteKeys db keys f = db f := by
  induction keys generalizing db with
  | nil => rfl
  | cons key rest ih => exact ih.trans (db.delete_family key other)

end RockLake
