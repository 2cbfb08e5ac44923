import RockLake.Sql.CopyQueries
import RockLake.Sql.Literals
import RockLake.Sql.Normalization

/-! Classification of statements from their texts. A text is normalized, then tests look for words in it,
and what no test takes is parsed and classified by its tree. The tests do not know what is a literal. -/
namespace RockLake.Sql

open Text Unicode

abbrev Parser := List Char → Except String (List (Statement Expr))

section Model

variable (unicode : CharData)

def validateChannelName : List Char → Except SqlDispatchError Unit :=
  Classifier.validateChannelName size unicode.alphabetic unicode.alphanumeric

/-- The name after the first word. Cutting inside of a character is a panic. -/
def channelFrom (skip : Nat) (trimmed : List Char) : Option (List Char) :=
  (slice trimmed skip (size trimmed)).map fun rest => trim (dropEndWhile (· = ';') (trim rest))

def classifyListenPrefix (sql : List Char) : Option (Option (Except SqlDispatchError Kind)) :=
  let trimmed := trim sql
  if "LISTEN ".toList.isPrefixOf (unicode.uppercase trimmed) then
    (channelFrom 7 trimmed).map fun channel =>
      some ((validateChannelName unicode channel).map fun _ => .passive (.listen channel))
  else if "UNLISTEN ".toList.isPrefixOf (unicode.uppercase trimmed) then
    (channelFrom 9 trimmed).map fun channel =>
      some ((validateChannelName unicode channel).map fun _ => .passive (.unlisten channel))
  else some none

def classifyWords (sql : List Char) : Option Kind :=
  let low := lower sql
  match Classifier.updateByText low with
  | some kind => some (.write kind)
  | none =>
    if "set time zone".toList.isPrefixOf low then
      let zone := trimMatches '\'' (trimMatches '"' (trim (sql.drop 13)))
      some (.passive (.setVariable "TimeZone".toList zone))
    else if Classifier.unionsStats low then some (.passive .selectSnapshotStatsAndChanges)
    else if contains "pg_namespace".toList sql && contains "pg_class".toList sql then
      some (.passive .pgCatalogScan)
    else none

def classifyCopy (sql : List Char) : Option (Option Kind) :=
  (CopyText.classifyCopyFromStdin unicode.toCaseMapping sql).bind fun
    | some table => some (some (.passive (.copyFromStdin table)))
    | none => (CopyText.classifyCopyToStdout unicode.toCaseMapping sql).map fun query =>
      query.map fun query => .write (.copyToStdout (String.ofList query))

def classifyByText (sql : List Char) : Option (Option (Except SqlDispatchError Kind)) :=
  (classifyListenPrefix unicode sql).bind fun
    | some result => some (some result)
    | none =>
      match classifyWords sql with
      | some kind => some (some (.ok kind))
      | none => (classifyCopy unicode sql).map fun kind => kind.map Except.ok

def parseFirst (parse : Parser) (sql : List Char) : Except SqlDispatchError (Statement Expr) :=
  match parse sql with
  | .error message => .error (.parseError message)
  | .ok [] => .error (.parseError "empty statement")
  | .ok (statement :: _) => .ok statement

def classifyStatement (parse : Parser) (text : List Char) : Option (Except SqlDispatchError Kind) :=
  (Normalization.normalizeSql text).bind fun sql => (classifyByText unicode sql).bind fun
    | some result => some result
    | none => some ((parseFirst parse sql).map (treeKind unicode))

end Model

/-! Which statements are classified alike. -/

/-- No test takes the text: it does not start with LISTEN, UNLISTEN or SET TIME ZONE, has none of the words
together that are looked for, and is no COPY of a DuckLake table or of a query. -/
structure Untested (unicode : CharData) (sql : List Char) : Prop where
  listen : "LISTEN ".toList.isPrefixOf (unicode.uppercase (trim sql)) = false
  unlisten : "UNLISTEN ".toList.isPrefixOf (unicode.uppercase (trim sql)) = false
  columnStats : (contains "update".toList (lower sql) &&
    contains "ducklake_table_column_stats".toList (lower sql)) = false
  inlinedRows : (contains "update".toList (lower sql) &&
    contains "ducklake_inlined_data_".toList (lower sql)) = false
  timeZone : "set time zone".toList.isPrefixOf (lower sql) = false
  statsAndChanges : Classifier.unionsStats (lower sql) = false
  catalogScan : (contains "pg_namespace".toList sql && contains "pg_class".toList sql) = false
  copyFrom : CopyText.classifyCopyFromStdin unicode.toCaseMapping sql = some none
  copyTo : CopyText.classifyCopyToStdout unicode.toCaseMapping sql = some none

section Results

variable {unicode : CharData} {parse : Parser} {a b text sql x y : List Char}

theorem Untested.classifyByText (untested : Untested unicode sql) :
    classifyByText unicode sql = some none := by
  have listen : classifyListenPrefix unicode sql = some none := by
    simp only [classifyListenPrefix, untested.listen, untested.unlisten, Bool.false_eq_true, if_false]
  have words : classifyWords sql = none := by
    simp only [classifyWords, Classifier.updateByText, untested.columnStats, untested.inlinedRows,
      untested.timeZone, untested.statsAndChanges, untested.catalogScan, Bool.false_eq_true, if_false]
  have copy : classifyCopy unicode sql = some none := by
    rw [classifyCopy, untested.copyFrom, Option.bind_some, untested.copyTo]
    rfl
  rw [Sql.classifyByText, listen, Option.bind_some, words, copy]
  rfl

theorem classifyStatement_eq_some :
    classifyStatement unicode parse text = some result ↔
      ∃ sql, Normalization.normalizeSql text = some sql ∧ (classifyByText unicode sql = some (some result) ∨
        classifyByText unicode sql = some none ∧ (parseFirst parse sql).map (treeKind unicode) = result) := by
  rw [classifyStatement, Option.bind_eq_some_iff]
  refine exists_congr fun sql => and_congr_right fun _ => ?_
  rcases classifyByText unicode sql with _ | _ | found
  · simp
  · simp
  · simp

theorem Untested.classified (untested : Untested unicode sql) (normal : Normalization.normalizeSql text = some sql)
    (parsed : parse sql = .ok (s :: more)) :
    classifyStatement unicode parse text = some (.ok (treeKind unicode s)) := by
  refine classifyStatement_eq_some.mpr ⟨sql, normal, .inr ⟨untested.classifyByText, ?_⟩⟩
  rw [parseFirst, parsed]
  rfl

end Results

def letters : CharData where
  toCaseMapping := CopyText.letters
  alphabetic := Char.isAlpha
  numeric := Char.isDigit
  alphabetic_ascii _ _ := rfl
  numeric_ascii _ _ := rfl

def word (text : String) : Ident := ⟨text.toList, text.toList⟩

end RockLake.Sql
