import RockLake.Sql.Classification
namespace RockLake.Sql
open Text Unicode List Option Classifier

/-- An identifier as it is written; quotes inside of quotes are doubled. -/
structure Identifier where
  quoted : Bool
  value : List Char

def Identifier.ident (id : Identifier) : Ident :=
  ⟨id.value, if id.quoted then '"' :: (double '"' id.value ++ ['"']) else id.value⟩

/-- Statements that write to the table. -/
inductive Statement.Writes (name : ObjectName) : Statement Expr → Prop where
  | insert (columns : List Ident) : Writes name (.insert name columns)
  | update (tableAlias : Option TableAlias) : Writes name (.update (.table name tableAlias none))
  | delete (tableAlias : Option TableAlias) (others : List (TableFactor Expr)) :
      Writes name (.delete (.table name tableAlias none :: others))

def Statement.isDelete : Statement Expr → Bool
  | .delete _ => true
  | _ => false

/-- The text is classified as a write to the virtual catalog, which is refused. -/
def Rejected (unicode : CharData) (parse : Parser) (text : List Char) : Prop :=
  ∃ table, classifyStatement unicode parse text = some (.ok (.write (.virtualCatalogMutation table)))

theorem not_taken (tested : classifyByText unicode sql =
    some (some (.ok (.write (.virtualCatalogMutation table))))) : False := by
  obtain ⟨listen, listened, rest⟩ := bind_eq_some_iff.mp tested
  cases listen with
  | some result =>
    cases rest
    simp only [classifyListenPrefix] at listened
    split at listened
    · obtain ⟨channel, _, same⟩ := map_eq_some_iff.mp listened
      cases checked : validateChannelName unicode channel <;> simp [checked, Except.map] at same
    · split at listened
      · obtain ⟨channel, _, same⟩ := map_eq_some_iff.mp listened
        cases checked : validateChannelName unicode channel <;> simp [checked, Except.map] at same
      · cases listened
  | none =>
    simp only at rest
    cases words : classifyWords sql with
    | some kind =>
      rw [words] at rest
      cases rest
      simp only [classifyWords, Classifier.updateByText] at words
      split at words
      · rename_i found
        cases words
        split at found <;> try split at found
        all_goals cases found
      · split at words <;> try split at words <;> try split at words
        all_goals cases words
    | none =>
      rw [words] at rest
      obtain ⟨copied, copies, same⟩ := map_eq_some_iff.mp rest
      obtain ⟨into, _, copies⟩ := bind_eq_some_iff.mp copies
      cases into with
      | some table =>
        cases copies
        cases same
      | none =>
        obtain ⟨query, _, rfl⟩ := map_eq_some_iff.mp copies
        cases query <;> cases same

def reference (schema table : Identifier) : ObjectName := [schema.ident, table.ident]

variable {unicode : CharData} {schema table : Identifier}

theorem double_of_not_mem (absent : q ∉ text) : double q text = text := by
  induction text with
  | nil => rfl
  | cons c text ih =>
    rw [mem_cons, not_or] at absent
    rw [double, if_neg (Ne.symm absent.1), ih absent.2]

def virtualFront (quoted : Bool) : List Char :=
  if quoted then "\"rocklake_catalog\".".toList else "rocklake_catalog.".toList

/-- Names in the schema start with it, in lower case and in quotes if it was in quotes. -/
theorem lowerName_reference (virtual : lower schema.value = "rocklake_catalog".toList) :
    ∃ rest, lower (lowerName unicode (reference schema table).display).toList =
      virtualFront schema.quoted ++ rest := by
  have plain : '"' ∉ schema.value := fun member => by
    have inside : '"' ∈ lower schema.value := mem_map_of_mem member
    rw [virtual] at inside
    exact absurd inside (by decide)
  have lowered : lower (schema.ident.text ++ ['.']) = virtualFront schema.quoted := by
    rw [Identifier.ident, virtualFront, double_of_not_mem plain]
    rw [lower] at virtual
    cases schema.quoted <;> simp [lower, virtual]
  have ascii : ∀ c ∈ schema.ident.text ++ ['.'], c.toNat < 128 := fun c member => by
    have inside : c.toLower ∈ lower (schema.ident.text ++ ['.']) := mem_map_of_mem member
    have all : ((virtualFront schema.quoted).all fun c => c.toNat < 128) = true := by
      cases schema.quoted <;> decide
    rw [lowered] at inside
    exact ascii_of_toLower (of_decide_eq_true (all_eq_true.mp all _ inside))
  have display : (reference schema table).display = schema.ident.text ++ ['.'] ++ table.ident.text := by
    simp [reference, ObjectName.display, intercalate_cons_cons, intercalate_singleton]
  obtain ⟨rest, same⟩ := unicode.lowercase_ascii_append ascii table.ident.text
  refine ⟨lower rest, ?_⟩
  have stays : lower (virtualFront schema.quoted) = virtualFront schema.quoted := by
    cases schema.quoted <;> decide
  rw [lowerName, String.toList_ofList, display, same, lowered, lower, map_append, ← lower, ← lower, stays]

theorem stripPublicSchema_virtual (quoted : Bool) (rest : List Char) :
    Classifier.stripPublicSchema (virtualFront quoted ++ rest) = virtualFront quoted ++ rest := by
  cases quoted with
  | false => rfl
  | true =>
    have inside : '"' ∈ ((virtualFront true ++ rest).drop 1).dropLast := by
      rw [show (virtualFront true ++ rest).drop 1 = "rocklake_catalog\"".toList ++ '.' :: rest from rfl,
        dropLast_append_of_ne_nil (cons_ne_nil _ _)]
      exact mem_append_left _ (by decide)
    have quoted : stripPrefix "\"public\".".toList (virtualFront true ++ rest) = none := rfl
    have bare : stripPrefix "public.".toList (virtualFront true ++ rest) = none := rfl
    simp only [Classifier.stripPublicSchema, quoted, bare, if_pos inside, ite_self]

theorem virtualCatalog_iff (quoted : Bool) (rest : List Char) :
    (virtualCatalog (virtualFront quoted ++ rest)).isSome = !quoted := by
  cases quoted <;> rfl

theorem match_virtualCatalog_iff (other : ∀ table, kind ≠ .virtualCatalogMutation table) :
    (∃ table, (match virtualCatalog name with
      | some rejected => rejected
      | none => kind) = .virtualCatalogMutation table) ↔ (virtualCatalog name).isSome = true := by
  cases found : virtualCatalog name with
  | none => simp [other]
  | some rejected =>
    obtain ⟨table, _, rfl⟩ := map_eq_some_iff.mp found
    simp

theorem classifyInsert_mutation_iff (columns : List String) :
    (∃ table, classifyInsert name columns = .virtualCatalogMutation table) ↔
      (virtualCatalog (stripPublicSchema (lower name.toList))).isSome = true := by
  refine match_virtualCatalog_iff fun table => ?_
  split <;> try split <;> try split
  all_goals nofun

theorem classifyUpdate_mutation_iff :
    (∃ table, classifyUpdate (some name) = .virtualCatalogMutation table) ↔
      (virtualCatalog (stripPublicSchema (lower name.toList))).isSome = true := by
  refine match_virtualCatalog_iff fun table => ?_
  split <;> try split <;> try split
  all_goals nofun

/-- Inserts and updates are refused if the schema stands without quotes, deletes always. -/
theorem treeKind_mutation_iff (virtual : lower schema.value = "rocklake_catalog".toList)
    (writes : statement.Writes (reference schema table)) :
    (∃ name, treeKind unicode statement = .write (.virtualCatalogMutation name)) ↔
      schema.quoted = false ∨ statement.isDelete = true := by
  obtain ⟨rest, lowered⟩ := @lowerName_reference unicode schema table virtual
  have found : (virtualCatalog (stripPublicSchema
      (lower (lowerName unicode (reference schema table).display).toList))).isSome = true ↔
        schema.quoted = false := by
    rw [lowered, stripPublicSchema_virtual, virtualCatalog_iff, Bool.not_eq_true']
  cases writes with
  | insert columns =>
    rw [← found, ← classifyInsert_mutation_iff (columns.map fun column => String.ofList column.text)]
    simp [treeKind, Statement.lifted, classifyAst, Statement.isDelete]
  | update tableAlias =>
    rw [← found, ← classifyUpdate_mutation_iff]
    simp [treeKind, Statement.lifted, classifyAst, Statement.isDelete, extractTableName]
  | delete tableAlias others =>
    refine iff_of_true ⟨String.ofList (trimMatches '"' rest), ?_⟩ (.inr rfl)
    have split : Classifier.splitQualified (virtualFront schema.quoted ++ rest) =
        some ("rocklake_catalog", String.ofList (trimMatches '"' rest)) := by
      cases schema.quoted <;> rfl
    simp [treeKind, Statement.lifted, classifyAst, extractTableName, classifyDelete, lowered, split]

/-- A write to the virtual catalog is refused exactly if no test takes its text for something else and,
unless it is a delete, the schema stands without quotes. -/
theorem virtual_catalog_rejected_iff (unicode : CharData) (parse : Parser) (text : List Char)
    (schema table : Identifier) (statement : Statement Expr)
    (virtual : lower schema.value = "rocklake_catalog".toList)
    (writes : statement.Writes (reference schema table))
    (parsed : ∀ sql, Normalization.normalizeSql text = some sql → parseFirst parse sql = .ok statement) :
    Rejected unicode parse text ↔
      (∃ sql, Normalization.normalizeSql text = some sql ∧ classifyByText unicode sql = some none) ∧
        (schema.quoted = false ∨ statement.isDelete = true) := by
  rw [← @treeKind_mutation_iff unicode schema table statement virtual writes]
  constructor
  · rintro ⟨name, classified⟩
    obtain ⟨sql, normal, taken | ⟨free, same⟩⟩ := classifyStatement_eq_some.mp classified
    · exact (not_taken taken).elim
    · rw [parsed sql normal] at same
      exact ⟨⟨sql, normal, free⟩, name, Except.ok.inj same⟩
  · rintro ⟨⟨sql, normal, free⟩, name, kind⟩
    refine ⟨name, classifyStatement_eq_some.mpr ⟨sql, normal, .inr ⟨free, ?_⟩⟩⟩
    rw [parsed sql normal, ← kind]
    rfl

def insertTree (schema : Identifier) : Statement Expr := .insert (reference schema ⟨false, "tables".toList⟩) []

theorem virtual_catalog_insert_rejected :
    Rejected letters (fun _ => .ok [insertTree ⟨false, "RockLake_Catalog".toList⟩])
      "INSERT INTO RockLake_Catalog.tables VALUES (1)".toList :=
  (virtual_catalog_rejected_iff letters _ _ ⟨false, "RockLake_Catalog".toList⟩ ⟨false, "tables".toList⟩ _
    (by decide) (.insert []) fun _ _ => rfl).mpr
      ⟨⟨"INSERT INTO RockLake_Catalog.tables VALUES (1)".toList, by decide +kernel, by decide +kernel⟩, .inl rfl⟩

theorem quoted_schema_not_rejected :
    classifyStatement letters (fun _ => .ok [insertTree ⟨true, "rocklake_catalog".toList⟩])
      "INSERT INTO \"rocklake_catalog\".tables VALUES (1)".toList =
        some (.ok (.write (.insertExtensionRow "rocklake_catalog" "tables" []))) := by
  decide +kernel

end RockLake.Sql
