import RockLake.Catalog.Retirement
import RockLake.PgWire.Client
import RockLake.System.RowIds

/-! Row-id ranges as SQL asks for them. The statement names a table by a text, and the counter is
picked by the hash of that text as it stands: it is not looked up in the catalog. -/
namespace RockLake

open RowIdCalls

/-- The four words of the standard hasher, SipHash with one round per word and three at the end. -/
structure DefaultHasher where
  v0 : BitVec 64
  v1 : BitVec 64
  v2 : BitVec 64
  v3 : BitVec 64

namespace DefaultHasher

def new : DefaultHasher :=
  ⟨0x736f6d6570736575, 0x646f72616e646f6d, 0x6c7967656e657261, 0x7465646279746573⟩

def round (s : DefaultHasher) : DefaultHasher :=
  let v0 := s.v0 + s.v1
  let v2 := s.v2 + s.v3
  let v1 := s.v1.rotateLeft 13 ^^^ v0
  let v3 := s.v3.rotateLeft 16 ^^^ v2
  let v0 := v0.rotateLeft 32
  let v2 := v2 + v1
  let v0 := v0 + v3
  let v1 := v1.rotateLeft 17 ^^^ v2
  let v3 := v3.rotateLeft 21 ^^^ v0
  ⟨v0, v1, v2.rotateLeft 32, v3⟩

def compress (s : DefaultHasher) (word : BitVec 64) : DefaultHasher :=
  let s := { s with v3 := s.v3 ^^^ word }.round
  { s with v0 := s.v0 ^^^ word }

def wordOf (bytes : List UInt8) : BitVec 64 :=
  .ofNat 64 (bytes.foldr (fun byte high => byte.toNat + 256 * high) 0)

/-- Eight bytes at a time; the last word has the length in its top byte. -/
def write (length : Nat) : List UInt8 → DefaultHasher → DefaultHasher
  | b0 :: b1 :: b2 :: b3 :: b4 :: b5 :: b6 :: b7 :: bytes, s =>
    write length bytes (s.compress (wordOf [b0, b1, b2, b3, b4, b5, b6, b7]))
  | bytes, s => s.compress (wordOf bytes ||| BitVec.ofNat 64 length <<< 56)

def finish (s : DefaultHasher) : BitVec 64 :=
  let s := { s with v2 := s.v2 ^^^ 0xff }.round.round.round
  s.v0 ^^^ s.v1 ^^^ s.v2 ^^^ s.v3

end DefaultHasher

def hashTableRef (tableRef : String) : Nat :=
  let bytes := tableRef.toList.flatMap String.utf8EncodeChar ++ [0xff]
  (DefaultHasher.new.write bytes.length bytes).finish.toNat

/-- An identifier for the name: quoted as it stands, otherwise in any letter case. -/
inductive Spells : String → String → Prop
  | unquoted {identifier name : String} (plain : '"' ∉ identifier.toList ∧ '.' ∉ identifier.toList)
      (folded : lowerName identifier = lowerName name) : Spells identifier name
  | quoted {name : String} : Spells ("\"" ++ name ++ "\"") name

/-- The text is a reference to the table: its name, with the schema or without if that is `main`. -/
inductive CatalogReader.Names (r : CatalogReader) : String → Nat → Prop
  | bare {schema table tableRef} (found : schema ∈ r.listSchemas)
      (default : schema.schemaName = "main") (listed : table ∈ r.listTables schema.schemaId)
      (spelled : Spells tableRef table.tableName) : Names r tableRef table.tableId
  | qualified {schema table schemaRef tableRef}
      (found : schema ∈ r.listSchemas) (listed : table ∈ r.listTables schema.schemaId)
      (within : Spells schemaRef schema.schemaName) (spelled : Spells tableRef table.tableName) :
      Names r (schemaRef ++ "." ++ tableRef) table.tableId

def executeNextRowidRange (hash : String → Nat) (tableRef : String) (count : Nat) : RowIdRequest :=
  ⟨hash tableRef, count⟩

/-- Two references to one table never get a row id twice, and those to different tables have
different counters. -/
def PerTable (hash : String → Nat) (r : CatalogReader) (first second : String) : Prop :=
  ∀ table table', r.Names first table → r.Names second table' →
    (table = table' → RowIdCalls.Separate r.db (hash first) (hash second)) ∧
    (table ≠ table' → keyCounterRowid (hash first) ≠ keyCounterRowid (hash second))

/-- The counters are per table exactly for references whose hashes agree if they name one table, a
counter that has run out apart, and differ if they name two. -/
theorem nextRowidRange_perTable_iff (hash : String → Nat) (r : CatalogReader)
    (first second : String) :
    PerTable hash r first second ↔ ∀ table table', r.Names first table → r.Names second table' →
      (table = table' → hash first = hash second ∨ RowIdCalls.Spent r.db (hash first) ∨
        RowIdCalls.Spent r.db (hash second)) ∧
      (table ≠ table' → hash first ≠ hash second) := by
  have keys : keyCounterRowid (hash first) ≠ keyCounterRowid (hash second) ↔
      hash first ≠ hash second := by simp [keyCounterRowid]
  simp [PerTable, separate_iff, keys]

/-- One table under two names gets the same row ids twice. -/
theorem nextRowidRange_two_spellings : ∃ catalog : Catalog, catalog.Reachable Env.trivial ∧
    ((catalog.store.readLatest catalog.db).Names "orders" 2 ∧
      (catalog.store.readLatest catalog.db).Names "main.orders" 2) ∧
    (∃ s, Run RowIdCalls.Step (.idle catalog.db)
      [.begin 0 (executeNextRowidRange hashTableRef "orders" 1),
        .finish 0 (executeNextRowidRange hashTableRef "orders" 1) (.ok (0, 1)),
        .begin 1 (executeNextRowidRange hashTableRef "main.orders" 1),
        .finish 1 (executeNextRowidRange hashTableRef "main.orders" 1) (.ok (0, 1))] s) ∧
    ¬ PerTable hashTableRef (catalog.store.readLatest catalog.db) "orders" "main.orders" := by
  obtain ⟨catalog, reachable, schema, table, schemas, tables, main, orders, two, unasked⟩ :
      ∃ catalog : Catalog, catalog.Reachable Env.trivial ∧ ∃ schema table,
        (catalog.store.readLatest catalog.db).listSchemas = [schema] ∧
        (catalog.store.readLatest catalog.db).listTables schema.schemaId = [table] ∧
        schema.schemaName = "main" ∧ table.tableName = "orders" ∧ table.tableId = 2 ∧
        ∀ tableId, rowIdCounter catalog.db tableId = 0 :=
    ⟨_, .session (.opened "a" rfl) Catalog.createOrders rfl, _, _, rfl, rfl,
      rfl, rfl, rfl, fun _ => rfl⟩
  have found := schemas ▸ List.mem_singleton_self schema
  have listed := tables ▸ List.mem_singleton_self table
  have spelled : Spells "orders" table.tableName := .unquoted (by decide) (orders ▸ rfl)
  have bare := CatalogReader.Names.bare found main listed spelled
  have within : Spells "main" schema.schemaName := .unquoted (by decide) (main ▸ rfl)
  have qualified := CatalogReader.Names.qualified found listed within spelled
  rw [two] at bare qualified
  have different : hashTableRef "main.orders" ≠ hashTableRef "orders" := by decide +kernel
  refine ⟨catalog, reachable, ⟨bare, qualified⟩, ?_, fun perTable => ?_⟩
  · have first := run_alone 0 (executeNextRowidRange hashTableRef "orders" 1)
      (CatalogWriter.nextRowidRange_ok.mpr ⟨by decide, (unasked _).symm, rfl, by decide, rfl⟩)
    have second := run_alone 1 (executeNextRowidRange hashTableRef "main.orders" 1)
      (CatalogWriter.nextRowidRange_ok.mpr ⟨by decide, (rowIdCounter_put_other catalog.db 1
        different).trans (unasked _) |>.symm, rfl, by decide, rfl⟩)
    exact ⟨_, first.append second⟩
  · rcases separate_iff.mp ((perTable 2 2 bare qualified).1 rfl) with same | spent | spent
    · exact different same.symm
    · exact absurd (spent.trans_eq (unasked _)) (by decide)
    · exact absurd (spent.trans_eq (unasked _)) (by decide)

end RockLake
