import RockLake.Catalog.BulkLoad

/-! The dry run of a migration against the real one. Both read the same tables in the same order, but
the dry run takes every row for migrated, and the real one skips those it cannot convert. -/
namespace RockLake

open MigrationReport

variable {env : Env} {source : DuckLakeSource} {kind : DuckLakeTable}

namespace MigrationReport

/-- The report without the mark of a dry run. -/
def asRun (report : MigrationReport) : MigrationReport := { report with dryRun := false }

def skipped (report : MigrationReport) : Nat := (report.tables.map (·.2.rowsSkipped)).sum

theorem asRun_survey (report : MigrationReport) (rows : List ExportedRow) :
    (report.survey kind rows).asRun = report.asRun.survey kind rows := by
  have noted : rows.foldl (fun report row => report.note row.data kind) report.asRun =
      (rows.foldl (fun report row => report.note row.data kind) report).asRun := by
    refine List.foldl_hom asRun fun report row => ?_
    cases kind <;> try rfl
    simp only [note, asRun]
    split <;> rfl
  rw [survey, survey, noted]
  rfl

theorem tables_note (report : MigrationReport) (d : Json) : (report.note d kind).tables = report.tables := by
  cases kind <;> try rfl
  simp only [note]
  split <;> rfl

end MigrationReport

def ExportedRow.Converts (env : Env) (kind : DuckLakeTable) (row : ExportedRow) : Prop :=
  ∃ writes, writeRowToBatch ⟨0, kind.name⟩ row.data env kind = .ok writes

def DuckLakeSource.Converts (env : Env) (source : DuckLakeSource) (kinds : List DuckLakeTable) : Prop :=
  ∀ kind ∈ kinds, ∀ rows, source.readTable kind = .ok rows → ∀ row ∈ rows, row.Converts env kind

/-- No row of a table is skipped exactly if all convert, and then all are counted and noted. -/
theorem migrateRows_counts
    (done : migrateRows env kind (batch, stats, report) rows = (batch', stats', report')) :
    stats.rowsSkipped ≤ stats'.rowsSkipped ∧ report'.tables = report.tables ∧
    (stats'.rowsSkipped = stats.rowsSkipped → ∀ row ∈ rows, row.Converts env kind) ∧
    ((∀ row ∈ rows, row.Converts env kind) →
      stats' = ⟨stats.rowsMigrated + rows.length, stats.rowsSkipped⟩ ∧
      report' = rows.foldl (fun report row => report.note row.data kind) report) := by
  induction rows generalizing batch stats report with
  | nil =>
    cases done
    simp
  | cons row rest ih =>
    rw [migrateRows] at done
    split at done
    · rename_i writes converted
      obtain ⟨more, tables, all, counted⟩ := ih done
      refine ⟨more, tables.trans (report.tables_note _), fun same => ?_, fun each => ?_⟩
      · exact List.forall_mem_cons.mpr ⟨⟨writes, converted⟩, all same⟩
      · obtain ⟨rfl, rfl⟩ := counted (List.forall_mem_cons.mp each).2
        simp [Nat.add_comm, Nat.add_left_comm]
    · rename_i failed
      obtain ⟨more, tables, _⟩ := ih done
      have skipped : stats.rowsSkipped + 1 ≤ stats'.rowsSkipped := more
      refine ⟨by omega, tables, fun same => by omega, fun each => ?_⟩
      obtain ⟨writes, converted⟩ := each row List.mem_cons_self
      rw [failed] at converted
      cases converted

/-- The tables that a survey adds have no skipped rows. -/
theorem surveyTables_skipped (done : surveyTables source report kinds = .ok report') :
    report'.skipped = report.skipped := by
  induction kinds generalizing report with
  | nil =>
    cases done
    rfl
  | cons kind rest ih =>
    obtain ⟨rows, _, done⟩ := bind_ok.mp done
    rw [ih done]
    simp [skipped, survey]

/-- A migration fails as the survey does, and reports what the survey reports if all rows convert. Its
report shows no skipped row only then. -/
theorem migrateTables_survey (ran : migrateTables env source db report kinds = (result, db')) :
    (∀ other e, surveyTables source other kinds = .error e → result = .error e) ∧
    (∀ other, other.asRun = report → source.Converts env kinds →
      result = (surveyTables source other kinds).map .asRun) ∧
    ∀ report', result = .ok report' → report.skipped ≤ report'.skipped ∧
      (report'.skipped = report.skipped → source.Converts env kinds) := by
  induction kinds generalizing db report with
  | nil =>
    cases ran
    simp +contextual [surveyTables, DuckLakeSource.Converts, Except.map]
  | cons kind rest ih =>
    rw [migrateTables] at ran
    cases read : source.readTable kind with
    | error e =>
      rw [read] at ran
      cases ran
      simp [surveyTables, read, bind, Except.bind, Except.map]
    | ok rows =>
      obtain ⟨⟨batch, stats, noted⟩, done⟩ :
          ∃ state, migrateRows env kind ([], ⟨0, 0⟩, report) rows = state := ⟨_, rfl⟩
      simp only [read, done] at ran
      obtain ⟨_, tables, all, counted⟩ := migrateRows_counts done
      obtain ⟨fails, agrees, skips⟩ := ih ran
      have converts : source.Converts env (kind :: rest) ↔
          (∀ row ∈ rows, row.Converts env kind) ∧ source.Converts env rest := by
        simp [DuckLakeSource.Converts, read]
      have added : ({ noted with tables := noted.tables ++ [(kind, stats)] } : MigrationReport).skipped =
          report.skipped + stats.rowsSkipped := by
        simp [skipped, tables]
      refine ⟨fun other e failed => fails _ e (by simpa [surveyTables, read, bind, Except.bind] using failed),
        fun other start each => ?_, fun report' same => ?_⟩
      · obtain ⟨first, later⟩ := converts.mp each
        obtain ⟨rfl, rfl⟩ := counted first
        rw [agrees (other.survey kind rows) _ later]
        · simp [surveyTables, read, bind, Except.bind]
        · rw [asRun_survey, start, survey, tables]
          simp
      · obtain ⟨more, none_skipped⟩ := skips report' same
        rw [added] at more none_skipped
        refine ⟨by omega, fun equal => converts.mpr ⟨all ?_, none_skipped ?_⟩⟩
        · show stats.rowsSkipped = 0
          omega
        · omega

/-- Its version is accepted and every table of it can be read. -/
def DuckLakeSource.Readable (source : DuckLakeSource) (acceptVersions : List String) : Prop :=
  (∃ version, source.catalogVersion = .ok version ∧ checkVersion version acceptVersions = .ok ()) ∧
    ∀ kind ∈ duckLakeTables, ∃ rows, source.readTable kind = .ok rows

theorem surveyTables_reads (report : MigrationReport) :
    (∃ report', surveyTables source report kinds = .ok report') ↔
      ∀ kind ∈ kinds, ∃ rows, source.readTable kind = .ok rows := by
  induction kinds generalizing report with
  | nil => simp [surveyTables]
  | cons kind rest ih =>
    rw [List.forall_mem_cons, surveyTables]
    cases source.readTable kind with
    | ok rows => simpa [bind, Except.bind] using ih _
    | error e => simp [bind, Except.bind]

/-- A dry run never touches the target. Into a fresh database it reports what the real run reports, up
to the mark of a dry run, exactly if the source cannot be read or all rows of it convert. -/
theorem dryRun_predicts_iff (env : Env) (source : DuckLakeSource) (acceptVersions : List String) (db : Db) :
    (migrateFromSource env source db acceptVersions true).2 = db ∧
    ((migrateFromSource env source Db.empty acceptVersions true).1.map asRun =
        (migrateFromSource env source Db.empty acceptVersions false).1 ↔
      (source.Readable acceptVersions → source.Converts env duckLakeTables)) := by
  constructor
  · rw [migrateFromSource]
    split
    · rfl
    · split <;> rfl
  rw [migrateFromSource, migrateFromSource]
  split
  · simp [Except.map, DuckLakeSource.Readable, *]
  split
  · simp [Except.map, DuckLakeSource.Readable, *]
  rename_i version known _ accepted
  obtain ⟨c, db₀, opened⟩ : ∃ c db₀, initializeCatalog Db.empty = .ok (c, db₀) := ⟨_, _, rfl⟩
  obtain ⟨⟨result, db'⟩, ran⟩ : ∃ state, migrateTables env source db₀
    ⟨[], none, 0, false, version⟩ duckLakeTables = state := ⟨_, rfl⟩
  obtain ⟨fails, agrees, skips⟩ := migrateTables_survey ran
  simp only [opened, ran, if_true, Bool.false_eq_true, if_false]
  constructor
  · intro same readable
    obtain ⟨report, surveyed⟩ := (surveyTables_reads ⟨[], none, 0, true, version⟩).mpr readable.2
    have none_skipped : report.asRun.skipped = 0 := surveyTables_skipped surveyed
    rw [surveyed] at same
    exact (skips _ same.symm).2 none_skipped
  · intro each
    cases surveyed : surveyTables source ⟨[], none, 0, true, version⟩ duckLakeTables with
    | ok report =>
      rw [agrees ⟨[], none, 0, true, version⟩ rfl (each ⟨⟨version, known, accepted⟩,
        (surveyTables_reads _).mp ⟨report, surveyed⟩⟩), surveyed]
    | error e => exact (fails _ e surveyed).symm

/-- A schema row without a name is counted as migrated by the dry run and skipped by the real one. -/
theorem dryRun_counts_unreadable : ∃ (source : DuckLakeSource) (dry run : MigrationReport),
    (migrateFromSource Env.trivial source Db.empty [] true).1 = .ok dry ∧
    (migrateFromSource Env.trivial source Db.empty [] false).1 = .ok run ∧
    (.schema, ⟨1, 0⟩) ∈ dry.tables ∧ (.schema, ⟨0, 1⟩) ∈ run.tables :=
  ⟨⟨.ok 7, fun
    | .schema => .ok [⟨"ducklake_schema", .obj [("schema_id", .ofNat 1)]⟩]
    | _ => .ok []⟩, _, _, rfl, rfl, by decide, by decide⟩

end RockLake
