import RockLake.Lib.Text
import RockLake.Catalog.Writer

/-! The remaining staging methods (metadata and the change log of a snapshot) and the type of all
staging calls, so that sessions can be quantified over. -/
namespace RockLake

/-- Keys without dots are accepted; keys with dots need at least three non-empty parts, the fourth
piece of the split keeping all further dots. -/
def validateAppMetadataKey (key : String) : Except CatalogError Unit :=
  if key.isEmpty then .error (.invalidInput "metadata key must not be empty")
  else if '.' ∈ key.toList then
    let parts := Text.splitn '.' 4 key.toList
    if parts.length < 3 || parts.any List.isEmpty then
      .error (.invalidInput ("application metadata key must follow \x7bapp\x7d.\x7binstance\x7d.\x7bkey\x7d " ++
        "convention (at least 3 non-empty dot-separated parts); got " ++ Text.quoted key))
    else .ok ()
  else .ok ()

def MetadataScope.text : MetadataScope → String
  | .global => "global"
  | .schema => "schema"
  | .table => "table"

namespace CatalogWriter

variable (env : Env) (db : Db) (w : CatalogWriter)

def setMetadata (scope : MetadataScope) (scopeId : Nat) (key value : String) :
    Except CatalogError CatalogWriter :=
  (validateAppMetadataKey key).map fun _ =>
    let row : MetadataRow := { key, value, scope := some scope.text, scopeId := some scopeId }
    w.stage [⟨.metadata, keyMetadata scope scopeId key, row⟩]

def changeToken (changeType : String) (changeInfo : Option String) : String :=
  match changeInfo with
  | some info => if info.isEmpty then changeType else changeType ++ ":" ++ info
  | none => changeType

/-- Changes of one session accumulate into a single pending row. -/
def addSnapshotChanges (changeType : String) (changeInfo : Option String)
    (schemaId tableId : Option Nat) : CatalogWriter :=
  let token := changeToken changeType changeInfo
  let pending : SnapshotChangesRow :=
    match w.pendingSnapshotChanges with
    | none =>
      { snapshotId := w.snapshotId, changeType, changeInfo, schemaId, tableId, author := none,
        commitMessage := none, commitExtraInfo := none,
        changesMade := if token.isEmpty then none else some token }
    | some existing =>
      { existing with
        changesMade :=
          if token.isEmpty then existing.changesMade
          else match existing.changesMade with
            | none => some token
            | some made => some (made ++ "," ++ token)
        schemaId := existing.schemaId.or schemaId
        tableId := existing.tableId.or tableId }
  { w with pendingSnapshotChanges := some pending }

end CatalogWriter

/-- Every staging method with its arguments. The short forms of a method are its general form with
the remaining options absent. -/
inductive StagingCall where
  | markSchemaChanged
  | createSchema (schemaName uuid : String)
  | dropSchema (schemaId : Nat)
  | createTable (schemaId : Nat) (tableName : String) (dataPath : Option String) (uuid : String)
  | dropTable (schemaId tableId beginSnapshot : Nat)
  | addColumn (tableId : Nat) (spec : CatalogWriter.ColumnSpec)
  | dropColumn (tableId columnId beginSnapshot : Nat)
  | renameColumn (tableId columnId : Nat)
  | insertRenamedColumn (row : ColumnRow) (newName : String)
  | registerDataFile (tableId : Nat) (spec : CatalogWriter.DataFileSpec)
  | registerDeleteFile (dataFileId : Nat) (spec : CatalogWriter.DeleteFileSpec)
  | registerInlinedInsert (tableId schemaVersion rowId : Nat) (payload : List UInt8)
  | registerInlinedDataTable (tableId : Nat) (tableName : String) (schemaVersion : Nat)
  | registerSchemaVersion (beginSnapshot schemaVersion tableId : Nat)
  | markInlinedInsertDeleted (tableId schemaVersion rowId : Nat)
  | registerInlinedDelete (tableId dataFileId rowId : Nat)
  | createView (schemaId : Nat) (spec : CatalogWriter.ViewSpec) (uuid : String)
  | dropView (schemaId viewId beginSnapshot : Nat)
  | createMacro (schemaId : Nat) (macroName macroType uuid : String)
  | dropMacro (schemaId macroId beginSnapshot : Nat)
  | addMacroImpl (macroId : Nat) (sql : String) (dialect implType : Option String)
  | setTag (objectId : Nat) (tagKey tagValue : String)
  | removeTag (objectId : Nat) (tagKey : String) (beginSnapshot : Nat)
  | setColumnTag (tableId columnId : Nat) (tagKey tagValue : String)
  | removeColumnTag (tableId columnId : Nat) (tagKey : String) (beginSnapshot : Nat)
  | addSortInfo (tableId sortId : Nat)
  | setMetadata (scope : MetadataScope) (scopeId : Nat) (key value : String)
  | addSnapshotChanges (changeType : String) (changeInfo : Option String)
      (schemaId tableId : Option Nat)

namespace CatalogWriter

variable (env : Env) (db : Db) (w : CatalogWriter)

def allocated (result : Nat × CatalogWriter) : Except CatalogError (Reply × CatalogWriter) :=
  .ok (.id result.1, result.2)

def unit (result : CatalogWriter) : Except CatalogError (Reply × CatalogWriter) :=
  .ok (.unit, result)

def checked (result : Except CatalogError CatalogWriter) :
    Except CatalogError (Reply × CatalogWriter) :=
  result.bind unit

/-- A staging call against the committed store. A failing call leaves the writer as it was. -/
def staging : StagingCall → Except CatalogError (Reply × CatalogWriter)
  | .markSchemaChanged => unit w.markSchemaChanged
  | .createSchema name uuid => allocated (w.createSchema name uuid)
  | .dropSchema schemaId => checked (w.dropSchema db schemaId)
  | .createTable schemaId name path uuid => allocated (w.createTable schemaId name path uuid)
  | .dropTable schemaId tableId begun => checked (w.dropTable db schemaId tableId begun)
  | .addColumn tableId spec => allocated (w.addColumnWithOpts tableId spec)
  | .dropColumn tableId columnId begun => checked (w.dropColumn db tableId columnId begun)
  | .renameColumn tableId columnId =>
    (w.renameColumn db tableId columnId).map fun (row, w') => (.column row, w')
  | .insertRenamedColumn row newName => unit (w.insertRenamedColumn row newName)
  | .registerDataFile tableId spec => allocated (w.registerDataFileWithMetadata db tableId spec)
  | .registerDeleteFile dataFileId spec =>
    allocated (w.registerDeleteFileWithMetadata dataFileId spec)
  | .registerInlinedInsert tableId version rowId payload =>
    checked (w.registerInlinedInsert tableId version rowId payload)
  | .registerInlinedDataTable tableId name version =>
    unit (w.registerInlinedDataTable tableId name version)
  | .registerSchemaVersion begun version tableId =>
    unit (w.registerSchemaVersion begun version tableId)
  | .markInlinedInsertDeleted tableId version rowId =>
    checked (w.markInlinedInsertDeleted db tableId version rowId)
  | .registerInlinedDelete tableId dataFileId rowId =>
    unit (w.registerInlinedDelete tableId dataFileId rowId)
  | .createView schemaId spec uuid => allocated (w.createViewWithOpts schemaId spec uuid)
  | .dropView schemaId viewId begun => checked (w.dropView db schemaId viewId begun)
  | .createMacro schemaId name kind uuid => allocated (w.createMacro schemaId name kind uuid)
  | .dropMacro schemaId macroId begun => checked (w.dropMacro db schemaId macroId begun)
  | .addMacroImpl macroId sql dialect kind =>
    allocated (w.addMacroImplWithOpts macroId sql dialect kind)
  | .setTag objectId key value => unit (w.setTag env objectId key value)
  | .removeTag objectId key begun => checked (w.removeTag db env objectId key begun)
  | .setColumnTag tableId columnId key value =>
    unit (w.setColumnTag env tableId columnId key value)
  | .removeColumnTag tableId columnId key begun =>
    checked (w.removeColumnTag db env tableId columnId key begun)
  | .addSortInfo tableId sortId => unit (w.addSortInfo tableId sortId)
  | .setMetadata scope scopeId key value => checked (w.setMetadata scope scopeId key value)
  | .addSnapshotChanges kind info schemaId tableId =>
    unit (w.addSnapshotChanges kind info schemaId tableId)

end CatalogWriter

end RockLake
