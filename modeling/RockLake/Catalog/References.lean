import RockLake.Catalog.Immutability
import RockLake.Catalog.Retirement

/-! References between the rows of the catalog. The writer looks up no parent when it creates a row,
a dropped schema leaves its tables behind, and the cascade of a dropped table sees stored rows only.
Where the calls of every session respect the references, each row lives within the lifetime of a row
it refers to, so that at no snapshot a row is visible without it. -/
namespace RockLake

open List Db

open CatalogWriter hiding call

inductive Reference where
  | tableSchema | viewSchema | columnTable | fileTable | deletedFile

namespace Reference

def child : Reference → Family
  | .tableSchema => .table
  | .viewSchema => .view
  | .columnTable => .column
  | .fileTable => .dataFile
  | .deletedFile => .deleteFile

def parent : Reference → Family
  | .tableSchema | .viewSchema => .schema
  | .columnTable | .fileTable => .table
  | .deletedFile => .dataFile

def target : (r : Reference) → r.child.Row → Nat
  | .tableSchema => TableRow.schemaId
  | .viewSchema => ViewRow.schemaId
  | .columnTable => ColumnRow.tableId
  | .fileTable => DataFileRow.tableId
  | .deletedFile => DeleteFileRow.dataFileId

def ident : (r : Reference) → r.parent.Row → Nat
  | .tableSchema => SchemaRow.schemaId
  | .viewSchema => SchemaRow.schemaId
  | .columnTable => TableRow.tableId
  | .fileTable => TableRow.tableId
  | .deletedFile => DataFileRow.dataFileId

variable (r : Reference)

theorem child_retirable : r.child.retirable = true := by cases r <;> rfl

theorem parent_retirable : r.parent.retirable = true := by cases r <;> rfl

theorem child_callerKeyed : r.child.callerKeyed = false := by cases r <;> rfl

theorem parent_callerKeyed : r.parent.callerKeyed = false := by cases r <;> rfl

@[simp] theorem target_setEnd (ended : Option Nat) (row : r.child.Row) :
    r.target (r.child.setEnd ended row) = r.target row := by
  cases r <;> rfl

@[simp] theorem ident_setEnd (ended : Option Nat) (row : r.parent.Row) :
    r.ident (r.parent.setEnd ended row) = r.ident row := by
  cases r <;> rfl

end Reference

/-- Each row that a reader of the snapshot sees refers to a row that it sees too. -/
def CatalogReader.Resolves (reader : CatalogReader) : Prop :=
  ∀ r : Reference, ∀ row ∈ reader.listVisible r.child [],
    ∃ parent ∈ reader.listVisible r.parent [], r.ident parent = r.target row

def Within (begun : Nat) (ended : Option Nat) (begun' : Nat) (ended' : Option Nat) : Prop :=
  begun' ≤ begun ∧ ∀ last, ended' = some last → ∃ e, ended = some e ∧ e ≤ last

theorem Within.visible (within : Within begun ended begun' ended')
    (visible : isVisible begun ended snapshot = true) :
    isVisible begun' ended' snapshot = true := by
  obtain ⟨began, bounded⟩ := within
  simp only [isVisible, gt_iff_lt, Bool.if_false_left, Bool.and_eq_true, Bool.not_eq_true',
    decide_eq_false_iff_not, not_lt] at visible ⊢
  refine ⟨began.trans visible.1, ?_⟩
  cases last : ended' with
  | none => rfl
  | some last' =>
    obtain ⟨e, same, le⟩ := bounded last' last
    simp only [same, decide_eq_true_eq] at visible ⊢
    exact visible.2.trans_le le

def Db.Live (db : Db) (f : Family) (k : Key) (row : f.Row) : Prop :=
  db.get f k = some row ∧ f.endOf row = none

/-- Every row lives within the lifetime of a row it refers to. -/
def Db.Referential (db : Db) : Prop :=
  ∀ (r : Reference) (k : Key) (row : r.child.Row), db.get r.child k = some row →
    ∃ k' parent, db.get r.parent k' = some parent ∧ r.ident parent = r.target row ∧
      Within (r.child.beginOf row) (r.child.endOf row) (r.parent.beginOf parent)
        (r.parent.endOf parent)

def Db.Anchored (db : Db) : Prop :=
  ∀ (r : Reference) (k : Key) (row : r.child.Row), db.Live r.child k row →
    ∃ k' parent, db.Live r.parent k' parent ∧ r.ident parent = r.target row ∧
      r.parent.beginOf parent ≤ r.child.beginOf row

theorem Db.Referential.anchored {db : Db} (referential : db.Referential) : db.Anchored := by
  intro r k row live
  obtain ⟨k', parent, found, names, begun, ended⟩ := referential r k row live.1
  refine ⟨k', parent, ⟨found, ?_⟩, names, begun⟩
  cases last : r.parent.endOf parent with
  | none => rfl
  | some e =>
    obtain ⟨_, some, _⟩ := ended e last
    rw [live.2] at some
    cases some

theorem Db.Referential.resolves (referential : db.Referential) (snapshot : Nat) :
    CatalogReader.Resolves ⟨db, snapshot⟩ := by
  intro r row member
  obtain ⟨k, stored, _, visible⟩ := (CatalogReader.mem_listVisible _).mp member
  obtain ⟨k', parent, found, names, within⟩ := referential r k row stored
  exact ⟨parent, (CatalogReader.mem_listVisible _).mpr
    ⟨k', found, nil_prefix, within.visible visible⟩, names⟩

section Session

variable {env : Env} {base db : Db} {c : CounterCache} {w w' : CatalogWriter}

/-- What a session that respects the references keeps of its pending rows: live rows are anchored,
ended rows are not ended again, and no delete file names its table. -/
structure Db.Tied (base pending : Db) : Prop where
  anchored : pending.Anchored
  settled : ∀ (r : Reference) (k : Key) (old : r.child.Row), base.get r.child k = some old →
    r.child.endOf old ≠ none → pending.get r.child k = some old
  unowned : ∀ k row, pending.get .deleteFile k = some row → row.tableId = none

/-- An ended row of such a session is a stored one, ended now if it had not ended before. -/
theorem Db.Tied.ended_stored (session : InSession base False c db w)
    (tied : base.Tied (base.putAll w.staged)) {r : Reference} {row : r.child.Row}
    (found : (base.putAll w.staged).get r.child k = some row) (ended : r.child.endOf row ≠ none) :
    ∃ old, base.get r.child k = some old ∧ (row = old ∨
      r.child.endOf old = none ∧ row = r.child.setEnd (some c.nextSnapshotId) old) := by
  have retirable := r.child_retirable
  have again := tied.settled r
  generalize r.child = f at *
  rcases session.derived.origin f k row found with stored | admissible
  · exact ⟨row, stored, .inl rfl⟩
  obtain ⟨old, stored, rfl⟩ := admissible.ended ended
  refine ⟨old, stored, ?_⟩
  by_cases live : f.endOf old = none
  · exact .inr ⟨live, rfl⟩
  · exact .inl (Option.some.inj (found.symm.trans (again k old stored live)))

/-- At the end of such a session every row lives within the lifetime of a row it refers to. -/
theorem InSession.referential (consistent : base.Consistent c) (referential : base.Referential)
    (session : InSession base False c db w) (tied : base.Tied (base.putAll w.staged)) :
    (base.putAll w.staged).Referential := by
  intro r k row found
  cases ended : r.child.endOf row with
  | none =>
    obtain ⟨k', parent, ⟨found', live⟩, names, begun⟩ := tied.anchored r k row ⟨found, ended⟩
    exact ⟨k', parent, found', names, begun, fun last some => by rw [live] at some; cases some⟩
  | some e =>
    obtain ⟨old, stored, version⟩ := tied.ended_stored session found (by simp [ended])
    obtain ⟨k', parent, stored', names, begun, bounded⟩ := referential r k old stored
    have target : r.target row = r.target old := by
      rcases version with rfl | ⟨_, rfl⟩ <;> simp
    have began : r.child.beginOf row = r.child.beginOf old := by
      rcases version with rfl | ⟨_, rfl⟩ <;> simp
    have last : e ≤ c.nextSnapshotId := by
      rcases version with rfl | ⟨_, rfl⟩
      · exact ((consistent.sound r.child k row stored).ended e ended).le
      · rw [Family.endOf_setEnd r.child_retirable, Option.some.injEq] at ended
        exact ended.ge
    rcases session.pending_stored consistent (Family.versioned_of_retirable r.parent_retirable)
      r.parent_callerKeyed stored' with same | retired
    · refine ⟨k', parent, same, names.trans target.symm, began ▸ begun, fun last' some => ?_⟩
      obtain ⟨e', some', le⟩ := bounded last' some
      rcases version with rfl | ⟨live, _⟩
      · exact ⟨e', ended ▸ some', le⟩
      · rw [live] at some'
        cases some'
    · refine ⟨k', _, retired, ?_, ?_, fun last' some => ⟨e, rfl, ?_⟩⟩
      · rw [r.ident_setEnd, names, target]
      · rw [Family.beginOf_setEnd, began]
        exact begun
      · rw [Family.endOf_setEnd r.parent_retirable, Option.some.injEq] at some
        exact some ▸ last

/-- Some live row has the identifier that a new row refers to. -/
def Db.Holds (db : Db) (r : Reference) (target : Nat) : Prop :=
  ∃ k parent, db.Live r.parent k parent ∧ r.ident parent = target

/-- The live pending rows that refer to the identifier are stored. -/
def Db.Reaches (db pending : Db) (r : Reference) (target : Nat) : Prop :=
  ∀ k row, pending.Live r.child k row → r.target row = target → db.get r.child k = some row

/-- A call that respects the references: the parent of a new row is live, stored or staged; a schema
is dropped after its tables and views; a table is dropped in a later session than the one that
created its live columns and files; nothing that refers to another row is dropped twice. -/
def StagingCall.Respects (db : Db) (w : CatalogWriter) : StagingCall → Prop
  | .createTable schemaId .. => (db.putAll w.staged).Holds .tableSchema schemaId
  | .createView schemaId .. => (db.putAll w.staged).Holds .viewSchema schemaId
  | .addColumn tableId _ => (db.putAll w.staged).Holds .columnTable tableId
  | .insertRenamedColumn row _ => (db.putAll w.staged).Holds .columnTable row.tableId
  | .registerDataFile tableId _ => (db.putAll w.staged).Holds .fileTable tableId
  | .registerDeleteFile dataFileId _ => (db.putAll w.staged).Holds .deletedFile dataFileId
  | .dropSchema schemaId =>
    (∀ k table, (db.putAll w.staged).Live .table k table → table.schemaId ≠ schemaId) ∧
      ∀ k view, (db.putAll w.staged).Live .view k view → view.schemaId ≠ schemaId
  | .dropTable schemaId tableId begun =>
    db.unretired .table (keyTable schemaId tableId begun) = true ∧
      db.Reaches (db.putAll w.staged) .columnTable tableId ∧
      db.Reaches (db.putAll w.staged) .fileTable tableId ∧
      ∀ k file, (db.putAll w.staged).Live .dataFile k file → file.tableId = tableId →
        db.Reaches (db.putAll w.staged) .deletedFile file.dataFileId
  | .dropColumn tableId columnId begun =>
    db.unretired .column (keyColumn tableId columnId begun) = true
  | .dropView schemaId viewId begun => db.unretired .view (keyView schemaId viewId begun) = true
  | _ => True

/-- A row that is live after some pairs is one of them, or was live and is not written over. -/
theorem Db.Live.of_putAll (live : (db.putAll new).Live f k row) :
    (⟨f, k, row⟩ : Write) ∈ new ∨ db.Live f k row ∧ ∀ row', (⟨f, k, row'⟩ : Write) ∉ new := by
  rcases db.get_putAll (f := f) new k with ⟨row', member, found⟩ | ⟨absent, same⟩
  · cases found.symm.trans live.1
    exact .inl member
  · exact .inr ⟨⟨same ▸ live.1, live.2⟩, absent⟩

theorem InSession.appended (session' : InSession base False c db w')
    (staged : w'.staged = w.staged ++ new) : ∀ x ∈ new, Admissible base False c w'.counters x :=
  fun x member => session'.admissible x (staged ▸ mem_append_right _ member)

/-- What pairs have to be that are staged next: a live row has a live parent, a row ended now had
not ended, and a live row that is no longer there is no one's parent. -/
theorem Db.Tied.putAll (tied : base.Tied pending) (sound : base.Sound c)
    (admissible : ∀ x ∈ new, Admissible base False c d x)
    (created : ∀ (r : Reference) (k : Key) (row : r.child.Row), (⟨r.child, k, row⟩ : Write) ∈ new → r.child.endOf row = none → ∃ k' parent, pending.Live r.parent k' parent ∧ r.ident parent = r.target row ∧ r.parent.beginOf parent ≤ r.child.beginOf row)
    (ended : ∀ (r : Reference) (k : Key) (row old : r.child.Row), (⟨r.child, k, row⟩ : Write) ∈ new → r.child.endOf row ≠ none → base.get r.child k = some old → r.child.endOf old = none)
    (kept : ∀ (r : Reference) (k : Key) (parent : r.parent.Row), pending.Live r.parent k parent → (pending.putAll new).get r.parent k = some parent ∨ ∀ k' row, (pending.putAll new).Live r.child k' row → r.target row ≠ r.ident parent)
    (unowned : ∀ k row, (⟨.deleteFile, k, row⟩ : Write) ∈ new → row.tableId = none) :
    base.Tied (pending.putAll new) := by
  refine ⟨fun r k row live => ?_, fun r k old stored past => ?_, fun k row found => ?_⟩
  · obtain ⟨k', parent, alive, names, begun⟩ : ∃ k' parent, pending.Live r.parent k' parent ∧
        r.ident parent = r.target row ∧ r.parent.beginOf parent ≤ r.child.beginOf row := by
      rcases live.of_putAll with member | ⟨before, _⟩
      · exact created r k row member live.2
      · exact tied.anchored r k row before
    rcases kept r k' parent alive with found | orphaned
    · exact ⟨k', parent, ⟨found, alive.2⟩, names, begun⟩
    · exact absurd names.symm (orphaned k row live)
  · rcases pending.get_putAll (f := r.child) new k with ⟨row, member, _⟩ | ⟨_, same⟩
    · by_cases live : r.child.endOf row = none
      · have absent := (admissible _ member).created sound r.child_retirable r.child_callerKeyed live
        cases stored.symm.trans absent.1
      · exact absurd (ended r k row old member live stored) past
    · rw [same]
      exact tied.settled r k old stored past
  · rcases pending.get_putAll (f := .deleteFile) new k with ⟨row', member, found'⟩ | ⟨_, same⟩
    · cases found'.symm.trans found
      exact unowned k row member
    · exact tied.unowned k row (same ▸ found)

namespace Db.Tied

variable {new : List Write}

theorem congr {base base' pending pending' : Db} (tied : base.Tied pending)
    (stored : ∀ r : Reference, base' r.child = base r.child)
    (child : ∀ r : Reference, pending' r.child = pending r.child)
    (parent : ∀ r : Reference, pending' r.parent = pending r.parent) : base'.Tied pending' := by
  refine ⟨fun r k row live => ?_, fun r k old found => ?_, fun k row found => ?_⟩
  · rw [Live, get_of_family (child r)] at live
    obtain ⟨k', above, alive, names⟩ := tied.anchored r k row live
    refine ⟨k', above, ?_, names⟩
    rw [Live, get_of_family (parent r)]
    exact alive
  · rw [get_of_family (stored r)] at found
    rw [get_of_family (child r)]
    exact tied.settled r k old found
  · exact tied.unowned k row ((get_of_family (child .deletedFile) k).symm.trans found)

section

variable (tied : db.Tied (db.putAll w.staged)) (consistent : db.Consistent c)
include tied consistent

theorem create
    (session : InSession db False c db w) (session' : InSession db False c db w')
    (staged : w'.staged = w.staged ++ new)
    (live : ∀ x ∈ new, x.family.endOf x.row = none)
    (held : ∀ (r : Reference) (k : Key) (row : r.child.Row), (⟨r.child, k, row⟩ : Write) ∈ new →
      (db.putAll w.staged).Holds r (r.target row))
    (fresh : ∀ (r : Reference) (k : Key) (row : r.parent.Row), (⟨r.parent, k, row⟩ : Write) ∈ new →
      (db.putAll w.staged).get r.parent k = none)
    (unowned : ∀ k row, (⟨.deleteFile, k, row⟩ : Write) ∈ new → row.tableId = none) :
    db.Tied (db.putAll w'.staged) := by
  rw [staged, putAll_append]
  refine tied.putAll consistent.sound (session'.appended staged) (fun r k row member _ => ?_)
    (fun r k row old member ended => absurd (live _ member) ended) (fun r k parent alive => .inl ?_)
    unowned
  · obtain ⟨k', parent, alive, names⟩ := held r k row member
    refine ⟨k', parent, alive, names, ?_⟩
    have begun := (session.pending_fits consistent alive.1).begun
      (Family.versioned_of_retirable r.parent_retirable)
    have now : r.child.beginOf row = c.nextSnapshotId := ((session'.appended staged _ member).created
      consistent.sound r.child_retirable r.child_callerKeyed (live _ member)).2
    have snapshot := session.snapshot
    simp only [CounterCache.allocSnapshotId] at begun
    omega
  · rcases (db.putAll w.staged).get_putAll (f := r.parent) new k with ⟨row, member, _⟩ | ⟨_, same⟩
    · cases (fresh r k row member).symm.trans alive.1
    · exact same.trans alive.1

theorem retire
    (session' : InSession db False c db w') (staged : w'.staged = w.staged ++ new)
    (ended : ∀ x ∈ new, x.family.endOf x.row ≠ none)
    (current : ∀ (r : Reference) (k : Key) (row old : r.child.Row),
      (⟨r.child, k, row⟩ : Write) ∈ new → db.get r.child k = some old → r.child.endOf old = none)
    (childless : ∀ x ∈ new, x.family = .column ∨ x.family = .view) :
    db.Tied (db.putAll w'.staged) := by
  rw [staged, putAll_append]
  refine tied.putAll consistent.sound (session'.appended staged)
    (fun r k row member live => absurd live (ended _ member))
    (fun r k row old member _ => current r k row old member) (fun r k parent alive => .inl ?_)
    (fun k row member => ?_)
  · rw [get_of_family (putAll_family _ fun x member same => ?_), alive.1]
    rcases childless x member with family | family <;> rw [family] at same <;> cases r <;> cases same
  · rcases childless _ member with family | family <;> cases family

theorem dropSchema
    (session : InSession db False c db w) (session' : InSession db False c db w')
    (staged : w'.staged = w.staged ++ [⟨.schema, keySchema schemaId, row⟩])
    (respects : (StagingCall.dropSchema schemaId).Respects db w) :
    db.Tied (db.putAll w'.staged) := by
  rw [staged, putAll_append]
  have other : ∀ {f : Family}, f ≠ .schema → ((db.putAll w.staged).putAll
      [⟨.schema, keySchema schemaId, row⟩]) f = (db.putAll w.staged) f := fun different =>
    putAll_family _ fun x member same => by
      cases mem_singleton.mp member
      exact different same.symm
  have schemas : ∀ {k : Key} {parent : SchemaRow}, (db.putAll w.staged).get .schema k = some parent →
      ((db.putAll w.staged).putAll [⟨.schema, keySchema schemaId, row⟩]).get .schema k = some parent ∨
        parent.schemaId = schemaId := by
    intro k parent found
    by_cases same : k = keySchema schemaId
    · obtain ⟨key, _⟩ := session.derived.keyed consistent.sound session.le found
      rw [same] at key
      exact .inr (cons.inj key).1.symm
    · exact .inl ((get_put_key _ _ same).trans found)
  refine tied.putAll consistent.sound (session'.appended staged) (fun r k row member => ?_)
    (fun r k row old member => ?_) (fun r k parent alive => ?_) (fun k row member => ?_)
  · cases r <;> cases mem_singleton.mp member
  · cases r <;> cases mem_singleton.mp member
  · cases r with
    | tableSchema =>
      refine (schemas alive.1).imp id fun dropped k' table live => ?_
      rw [Db.Live, get_of_family (other (by decide))] at live
      exact fun named => respects.1 k' table live (named.trans dropped)
    | viewSchema =>
      refine (schemas alive.1).imp id fun dropped k' view live => ?_
      rw [Db.Live, get_of_family (other (by decide))] at live
      exact fun named => respects.2 k' view live (named.trans dropped)
    | columnTable | fileTable | deletedFile =>
        exact .inl ((get_of_family (other (by decide)) k).trans alive.1)
  · cases mem_singleton.mp member

end

theorem pending_of_stored (consistent : db.Consistent c) (session : InSession db False c db w)
    (retirable : f.retirable = true) (allocated : f.callerKeyed = false)
    (stored : db.get f k = some old) (live : (db.putAll w.staged).Live f k row) :
    row = old := by
  rcases session.pending_stored consistent (Family.versioned_of_retirable retirable) allocated stored
    with same | retired
  · exact Option.some.inj (live.1.symm.trans same)
  · cases live.1.symm.trans retired
    have ended := live.2
    rw [Family.endOf_setEnd retirable] at ended
    cases ended

section DropTable

variable {table : TableRow} (pairs : new = ⟨.table, keyTable schemaId tableId begun,
  { table with endSnapshot := some w.snapshotId }⟩ :: w.dropTableCascade db tableId)
include pairs

/-- Every child row among the pairs of a dropped table ends now and had not ended before. -/
theorem dropped_ended
    (unretired : db.unretired .table (keyTable schemaId tableId begun) = true) {r : Reference}
    {row : r.child.Row} (member : (⟨r.child, k, row⟩ : Write) ∈ new) :
    r.child.endOf row ≠ none ∧ ∀ old, db.get r.child k = some old → r.child.endOf old = none := by
  rcases mem_cons.mp (pairs ▸ member) with same | cascade
  · cases r <;> cases same
    exact ⟨by simp [Reference.child, Family.endOf], fun old stored => unretired_end unretired stored⟩
  · cases r with
    | tableSchema =>
      exact absurd (cascade_families cascade) (show Family.table ∉ _ by decide)
    | viewSchema =>
      exact absurd (cascade_families cascade) (show Family.view ∉ _ by decide)
    | columnTable | fileTable | deletedFile =>
      obtain ⟨old, stored, _, live, rfl⟩ := (mem_cascade (by decide)).mp cascade
      refine ⟨by simp [Reference.child, Family.endOf, Family.setEnd], fun old' stored' => ?_⟩
      cases stored.symm.trans stored'
      exact live

theorem dropTable (tied : db.Tied (db.putAll w.staged))
    (consistent : db.Consistent c) (session : InSession db False c db w)
    (session' : InSession db False c db w')
    (staged : w'.staged = w.staged ++ new)
    (respects : (StagingCall.dropTable schemaId tableId begun).Respects db w) :
    db.Tied (db.putAll w'.staged) := by
  obtain ⟨unretired, columns, files, deletes⟩ := respects
  have ended (r : Reference) (k : Key) (row : r.child.Row)
      (member : (⟨r.child, k, row⟩ : Write) ∈ new) := dropped_ended pairs unretired member
  rw [staged, putAll_append]
  have cascade : ∀ {x : Write}, x ∈ w.dropTableCascade db tableId → x ∈ new := fun member =>
    pairs ▸ mem_cons_of_mem _ member
  have schemas : ((db.putAll w.staged).putAll new) .schema = (db.putAll w.staged) .schema :=
    putAll_family _ fun x member same => by
      rw [pairs] at member
      rcases mem_cons.mp member with rfl | cascade
      · cases same
      · exact absurd (cascade_families cascade) (by rw [same]; decide)
  have tables : ∀ {k : Key} {parent : TableRow}, (db.putAll w.staged).get .table k = some parent →
      ((db.putAll w.staged).putAll new).get .table k = some parent ∨ parent.tableId = tableId := by
    intro k parent found
    rcases (db.putAll w.staged).get_putAll (f := .table) new k with ⟨row, member, _⟩ | ⟨_, same⟩
    · rw [pairs] at member
      rcases mem_cons.mp member with same | cascade
      · cases same
        obtain ⟨key, _⟩ := session.derived.keyed consistent.sound session.le found
        exact .inr (cons.inj (cons.inj key).2).1.symm
      · exact absurd (cascade_families cascade) (show Family.table ∉ _ by decide)
    · exact .inl (same.trans found)
  have untouched : ∀ (r : Reference) (k : Key) (row : r.child.Row),
      ((db.putAll w.staged).putAll new).Live r.child k row →
        (db.putAll w.staged).Live r.child k row ∧ ∀ row', (⟨r.child, k, row'⟩ : Write) ∉ new :=
    fun r k row live => live.of_putAll.resolve_left fun member => (ended r k row member).1 live.2
  refine tied.putAll consistent.sound (session'.appended staged)
    (fun r k row member live => absurd live (ended r k row member).1)
    (fun r k row old member _ => (ended r k row member).2 old) (fun r k parent alive => ?_)
    (fun k row member => ?_)
  · cases r with
    | tableSchema | viewSchema => exact .inl ((get_of_family schemas k).trans alive.1)
    | columnTable =>
      refine (tables alive.1).imp id fun dropped k' column live named => ?_
      obtain ⟨live', absent⟩ := untouched .columnTable k' column live
      have stored := columns k' column live' (named.trans dropped)
      have key := (consistent.sound .column k' column stored).keyed
      have starts : [tableId] <+: k' := by
        rw [key, ← named.trans dropped]
        exact ⟨_, rfl⟩
      exact absent _ (cascade ((mem_cascade (by decide)).mpr ⟨column, stored, starts, live'.2, rfl⟩))
    | fileTable =>
      refine (tables alive.1).imp id fun dropped k' file live named => ?_
      obtain ⟨live', absent⟩ := untouched .fileTable k' file live
      have stored := files k' file live' (named.trans dropped)
      exact absent _ (cascade ((mem_cascade (by decide)).mpr
        ⟨file, stored, named.trans dropped, live'.2, rfl⟩))
    | deletedFile =>
      rcases (db.putAll w.staged).get_putAll (f := .dataFile) new k with ⟨file, member, _⟩ | ⟨_, same⟩
      · refine .inr fun k' deleted live named => ?_
        rw [pairs] at member
        rcases mem_cons.mp member with same | dropped
        · cases same
        obtain ⟨old, stored, owned, current, _⟩ := (mem_cascade (by decide)).mp dropped
        obtain rfl := pending_of_stored consistent session rfl rfl stored alive
        obtain ⟨live', absent⟩ := untouched .deletedFile k' deleted live
        have stored' := deletes k _ alive owned k' deleted live' named
        have belongs : deleteFileBelongs tableId ((liveDataFiles db tableId).map (·.2.dataFileId))
            deleted = true := by
          -- it names no table, so it belongs to the one of the live data file it names
          simp only [deleteFileBelongs, tied.unowned k' deleted live'.1, decide_eq_true_eq, mem_map]
          refine ⟨(k, parent), mem_filter.mpr ⟨db.mem_scanPrefix.mpr ⟨stored, nil_prefix⟩, ?_⟩, named.symm⟩
          simpa using ⟨owned, current⟩
        exact absent _ (cascade ((mem_cascade (by decide)).mpr
          ⟨deleted, stored', belongs, live'.2, rfl⟩))
      · exact .inl (same.trans alive.1)
  · rw [pairs] at member
    rcases mem_cons.mp member with same | dropped
    · cases same
    obtain ⟨old, stored, _, _, rfl⟩ := (mem_cascade (by decide)).mp dropped
    rcases session.pending_stored consistent rfl rfl stored with same | retired
    · exact tied.unowned k old same
    · exact tied.unowned k (Family.deleteFile.setEnd (some c.nextSnapshotId) old) retired

end DropTable

theorem staging (tied : db.Tied (db.putAll w.staged)) (consistent : db.Consistent c)
    (session : InSession db False c db w) (respects : call.Respects db w)
    (called : w.staging env db call = .ok (reply, w')) : db.Tied (db.putAll w'.staged) := by
  have session' := session.staging consistent False.elim called
  cases call with
  | dropSchema schemaId =>
    obtain ⟨row, _, rfl⟩ := dropped_ok.mp (checked_ok.mp called).2
    exact tied.dropSchema consistent session session' rfl respects
  | dropTable schemaId tableId begun =>
    obtain ⟨row, _, rfl⟩ := dropTable_ok.mp (checked_ok.mp called).2
    exact tied.dropTable rfl consistent session session' rfl respects
  | createTable | registerDataFile =>
    cases called
    refine tied.create consistent session session' rfl (fun x member => ?_)
      (fun r k row member => ?_) (fun r k row member => ?_) (fun k row member => ?_)
    · rcases mem_pair.mp member with rfl | rfl <;> rfl
    · cases r <;> rcases mem_pair.mp member with same | same <;> cases same
      exact respects
    · cases r <;> rcases mem_pair.mp member with same | same <;> cases same <;>
        first | exact session.unused_table consistent _ _ | exact session.unused_dataFile consistent _
    · rcases mem_pair.mp member with same | same <;> cases same
  | createSchema | addColumn | insertRenamedColumn | registerDeleteFile | createView =>
    cases called
    refine tied.create consistent session session' rfl (fun x member => ?_)
      (fun r k row member => ?_) (fun r k row member => ?_) (fun k row member => ?_)
    · cases mem_singleton.mp member
      rfl
    · cases r <;> cases mem_singleton.mp member
      all_goals exact respects
    · cases r <;> cases mem_singleton.mp member <;> exact session.unused_schema consistent
    · cases mem_singleton.mp member
      all_goals rfl
  | dropColumn | dropView =>
    obtain ⟨row, _, rfl⟩ := dropped_ok.mp (checked_ok.mp called).2
    refine tied.retire consistent session' rfl (fun x member => ?_) (fun r k row old member => ?_)
      (fun x member => ?_)
    · cases mem_singleton.mp member
      simp [Family.endOf, Family.setEnd]
    · cases r <;> cases mem_singleton.mp member
      exact unretired_end respects
    · cases mem_singleton.mp member
      simp
  | renameColumn tableId columnId =>
    obtain ⟨_, _, live, _, rfl⟩ := staging_renameColumn called
    refine tied.retire consistent session' rfl (fun x member => ?_) (fun r k row old member => ?_)
      (fun x member => ?_)
    · cases mem_singleton.mp member
      simp [Family.endOf]
    · cases r <;> cases mem_singleton.mp member
      intro stored
      cases (liveColumn_some live).1.symm.trans stored
      exact (liveColumn_some live).2.2.2
    · cases mem_singleton.mp member
      simp
  | _ =>
    refine tied.congr (fun _ => rfl) (fun r => ?_) (fun r => ?_) <;>
      exact staging_untouched called
        (by cases r <;> simp [StagingCall.families, Reference.child, Reference.parent])

end Db.Tied

/-- The calls other than the staging ones do not concern references. -/
def WriterCall.Respects (db : Db) (w : CatalogWriter) : WriterCall → Prop
  | .staging call => call.Respects db w
  | _ => True

theorem Reference.child_core (r : Reference) : r.child.core = true :=
  Family.core_of_versioned (Family.versioned_of_retirable r.child_retirable)

theorem Reference.parent_core (r : Reference) : r.parent.core = true :=
  Family.core_of_versioned (Family.versioned_of_retirable r.parent_retirable)

theorem Db.Tied.ofCore (tied : base.Tied (base.putAll w.staged))
    (core : ∀ f, f.core = true → db f = base f) : db.Tied (db.putAll w.staged) :=
  tied.congr (fun r => core _ r.child_core)
    (fun r => putAll_congr (core _ r.child_core) w.staged)
    fun r => putAll_congr (core _ r.parent_core) w.staged

theorem Db.Tied.call (tied : db.Tied (db.putAll w.staged)) (consistent : base.Consistent c)
    (session : InSession base False c db w) (call : WriterCall) (respects : call.Respects db w) :
    (w.call env db call).db.Tied ((w.call env db call).db.putAll (w.call env db call).writer.staged) := by
  cases call with
  | staging staged =>
    simp only [CatalogWriter.call]
    split
    · rename_i called
      exact tied.staging (consistent.ofCore session.core) session.rebase respects called
    · exact tied
  | direct direct => exact tied.ofCore fun f core => call_core (.direct direct) core
  | nextRowidRange tableId count =>
    rw [nextRowidRange_writer]
    exact tied.ofCore fun f core => call_core (.nextRowidRange tableId count) core

theorem Db.Tied.runCalls (env : Env) (consistent : base.Consistent c)
    (session : InSession base False c db w) (tied : db.Tied (db.putAll w.staged))
    (calls : List WriterCall)
    (respect : CallsMeet env (fun db w call => call.Respects db w) (db, w) calls) :
    (RockLake.runCalls env (db, w) calls).1.Tied ((RockLake.runCalls env (db, w) calls).1.putAll
      (RockLake.runCalls env (db, w) calls).2.staged) := by
  induction calls generalizing db w with
  | nil => exact tied
  | cons call rest ih =>
    exact ih (session.call consistent call False.elim) (tied.call consistent session call respect.1)
      respect.2

end Session

/-- Rows live within the lifetimes of the rows they refer to, and no delete file names its table. -/
structure Db.Bound (db : Db) : Prop where
  referential : db.Referential
  unowned : ∀ k row, db.get .deleteFile k = some row → row.tableId = none

theorem Db.Bound.congr {db db' : Db} (bound : db.Bound)
    (same : ∀ f, f.versioned = true → ∀ k, db'.get f k = db.get f k) : db'.Bound := by
  refine ⟨fun r k row found => ?_, fun k row found => ?_⟩
  · rw [same _ (Family.versioned_of_retirable r.child_retirable)] at found
    obtain ⟨k', parent, found', within⟩ := bound.referential r k row found
    exact ⟨k', parent, (same _ (Family.versioned_of_retirable r.parent_retirable) k').trans found',
      within⟩
  · rw [same .deleteFile rfl] at found
    exact bound.unowned k row found

namespace Catalog

variable {env : Env} {catalog catalog' : Catalog}

def RespectsReferences (env : Env) (catalog : Catalog) : CatalogEvent → Prop
  | .session session => CallsMeet env (fun db w call => call.Respects db w)
      (catalog.db, catalog.store.beginWrite) session.calls
  | _ => True

theorem Step.bound {event : CatalogEvent} (valid : catalog.Valid) (bound : catalog.db.Bound)
    (stepped : Step env catalog event catalog') (respects : catalog.RespectsReferences env event) :
    catalog'.db.Bound := by
  cases event with
  | session session =>
    obtain ⟨committed⟩ := stepped
    obtain ⟨db, w, ran, _, stored, _⟩ := session.commit_ok committed
    have begun := valid.inSession False session.calls False.elim ran
    have start : catalog.db.Tied (catalog.db.putAll catalog.store.beginWrite.staged) :=
      ⟨bound.referential.anchored, fun _ _ _ found _ => found, bound.unowned⟩
    have tied := start.runCalls env valid.consistent
      (InSession.begin False catalog.store valid.consistent) session.calls respects
    rw [ran] at tied
    replace tied : catalog.db.Tied (catalog.db.putAll w.staged) :=
      tied.ofCore fun f core => (begun.core f core).symm
    have pending : (catalog.db.putAll w.staged).Bound :=
      ⟨begun.referential valid.consistent bound.referential tied, tied.unowned⟩
    rw [stored]
    exact pending.congr fun f versioned => begun.get_commit session.request versioned
  | abandon | reopen =>
    obtain ⟨rows, _⟩ := stepped.uncommitted valid fun _ => nofun
    exact bound.congr fun f versioned => get_of_family (rows f versioned)

theorem initial_bound (opened : Opens nonce handle base) : base.Bound := by
  refine ⟨fun r k row found => ?_, fun k row found => ?_⟩
  · rw [opened_absent opened (Family.versioned_of_retirable r.child_retirable)] at found
    cases found
  · rw [opened_absent opened rfl] at found
    cases found

theorem bound_of_run (opened : Opens nonce handle base)
    (ran : Run (fun before event after => Step env before event after ∧
      before.RespectsReferences env event) ⟨base, handle⟩ events catalog) :
    catalog.Valid ∧ catalog.db.Bound := by
  refine ran.invariant (fun catalog => catalog.Valid ∧ catalog.db.Bound) ?_
    ⟨initial_valid opened, initial_bound opened⟩
  rintro before event after ⟨valid, bound⟩ ⟨stepped, respects⟩
  exact ⟨valid.step stepped, stepped.bound valid bound respects⟩

/-- In a history from the first open on whose sessions respect the references, no snapshot shows a
row without the row it refers to. -/
theorem references_resolve {nonce store db}
    (opened : Catalog.Opens nonce store db) (events : List CatalogEvent)
    (ran : Run (fun before event after => Step env before event after ∧
      before.RespectsReferences env event) ⟨db, store⟩ events catalog) (snapshot : Nat) :
    CatalogReader.Resolves ⟨catalog.db, snapshot⟩ :=
  (bound_of_run opened ran).2.referential.resolves snapshot

/-- A session that gives `orders` a column, a data file and a delete file. -/
def fillOrders : Session :=
  ⟨[.staging (.addColumn 2 ⟨"id", "BIGINT", 0, false, none, none, none, none, none⟩),
    .staging (.registerDataFile 2 (.parquet "f.parquet" 2 64)),
    .staging (.registerDeleteFile 1 ⟨"d.parquet", 1, 32, none, none⟩)], {}⟩

def dropOrders : Session := ⟨[.staging (.dropTable 1 2 1), .staging (.dropSchema 1)], {}⟩

theorem references_resolve_orders : ∃ store db, ∃ catalog : Catalog,
    Catalog.Opens "a" store db ∧
    Run (fun before event after => Step Env.trivial before event after ∧
      before.RespectsReferences Env.trivial event) ⟨db, store⟩
      [.session createOrders, .session fillOrders, .session dropOrders] catalog ∧
    CatalogReader.Resolves ⟨catalog.db, 2⟩ ∧
    ((⟨catalog.db, 2⟩ : CatalogReader).listVisible .deleteFile []).length = 1 ∧
    ((⟨catalog.db, 3⟩ : CatalogReader).listVisible .deleteFile []).length = 0 := by
  refine ⟨_, _, _, rfl, (fun ran => ⟨ran, references_resolve rfl _ ran 2, ?_, ?_⟩)
    (.next ⟨.session rfl, trivial, ⟨keySchema 1, _, ⟨rfl, rfl⟩, rfl⟩, trivial⟩
      (.next ⟨.session rfl, ⟨keyTable 1 2 1, _, ⟨rfl, rfl⟩, rfl⟩, ⟨keyTable 1 2 1, _, ⟨rfl, rfl⟩, rfl⟩,
        ⟨keyDataFile 2 1, _, ⟨rfl, rfl⟩, rfl⟩, trivial⟩
        (.single ⟨.session rfl, ⟨rfl, fun k row live _ => live.1, fun k row live _ => live.1,
          fun k file _ _ k' row live _ => live.1⟩, ⟨fun k table live => ?_, fun k view live => ?_⟩,
          trivial⟩)))⟩
  · rfl
  · rfl
  · cases mem_singleton.mp (OrderedMap.get_eq_some.mp live.1)
    cases live.2
  · cases live.1

/-- The table `orders` stays visible after its schema has been dropped. -/
theorem dropped_schema_leaves_table : ∃ catalog : Catalog, catalog.Reachable Env.trivial ∧
    (catalog.db.get .snapshot (keySnapshot 2)).isSome = true ∧
    ¬ CatalogReader.Resolves ⟨catalog.db, 2⟩ := by
  refine ⟨_, .session (.session (.opened "a" rfl) createOrders rfl) dropMain
    rfl, rfl, fun resolves => ?_⟩
  obtain ⟨schema, member, _⟩ := resolves .tableSchema _ (mem_singleton_self _)
  cases member

end Catalog

end RockLake
