import RockLake.Catalog.Maintenance
import RockLake.PgWire.Copy
import RockLake.PgWire.Transactions

/-! Sessions that attach to one server at the same time. The COMMIT of a session that received
bootstrap rows makes a reader under the lock of the store, looks for a snapshot without the lock, and
takes the lock again to commit. Other sessions may act in between. -/
namespace RockLake

/-- The rows as operations: schemas first, so that the snapshot sees their identifiers. -/
def BootstrapState.ops (bootstrap : BootstrapState) : List BufferedOp :=
  bootstrap.schemas.map .insertSchema ++
    if bootstrap.hasSnapshot then [.insertSnapshot none (some "DuckDB ATTACH bootstrap")] else []

def BootstrapState.received (bootstrap : BootstrapState) : Bool :=
  bootstrap.hasSnapshot || !bootstrap.schemas.isEmpty

/-- The rows of a finished transfer; a malformed one brings none. -/
def BootstrapState.copied (fromUtf8Lossy : Bytes → String) (bootstrap : BootstrapState)
    (table : String) (data : Bytes) : BootstrapState :=
  match Copy.parseBinaryCopyRows data with
  | .ok rows => bootstrap.receive fromUtf8Lossy table rows
  | .error _ => bootstrap

/-- The operations of a bootstrap, given what a reader of the given snapshot finds. -/
def BootstrapState.opsUnless (bootstrap : BootstrapState) (db : Db) (latest : Nat) : List BufferedOp :=
  match CatalogReader.getSnapshot ⟨db, latest⟩ with
  | some _ => []
  | none => bootstrap.ops

inductive AttachPhase where
  | collecting (bootstrap : BootstrapState)
  | observed (bootstrap : BootstrapState) (latest : Nat)
  | checked (ops : List BufferedOp) (latest : Nat)

/-- One store, its sessions, and the sessions whose COMMIT applied bootstrap rows. -/
structure Server (Session : Type) where
  catalog : Catalog
  phase : Session → AttachPhase
  applied : List Session

inductive ServerEvent (Session : Type) where
  | copy (session : Session) (table : String) (data : Bytes)
  | readLatest (session : Session)
  | getSnapshot (session : Session)
  | executeCommit (session : Session) (ctx : CommitContext)

namespace Server

variable {Session : Type} [DecidableEq Session]

def start (catalog : Catalog) : Server Session := ⟨catalog, fun _ => .collecting {}, []⟩

def enter (server : Server Session) (session : Session) (phase : AttachPhase) : Server Session :=
  { server with phase := Function.update server.phase session phase }

inductive Step (fromUtf8Lossy : Bytes → String) (server : Server Session) :
    ServerEvent Session → Server Session → Prop
  | copy {session table data bootstrap} (collecting : server.phase session = .collecting bootstrap) :
      Step fromUtf8Lossy server (.copy session table data)
        (server.enter session (.collecting (bootstrap.copied fromUtf8Lossy table data)))
  | readLatest {session bootstrap}
      (collecting : server.phase session = .collecting bootstrap)
      (received : bootstrap.received = true) :
      Step fromUtf8Lossy server (.readLatest session)
        (server.enter session (.observed bootstrap server.catalog.store.latestSnapshot))
  -- without bootstrap rows nothing is looked up and nothing is committed
  | readNothing {session bootstrap}
      (collecting : server.phase session = .collecting bootstrap)
      (received : bootstrap.received = false) :
      Step fromUtf8Lossy server (.readLatest session)
        (server.enter session (.checked [] server.catalog.store.latestSnapshot))
  | getSnapshot {session bootstrap latest}
      (observed : server.phase session = .observed bootstrap latest) :
      Step fromUtf8Lossy server (.getSnapshot session)
        (server.enter session (.checked (bootstrap.opsUnless server.catalog.db latest) latest))
  | executeCommit {session ctx ops latest catalog result}
      (checked : server.phase session = .checked ops latest)
      (committed : RockLake.executeCommit ctx ops server.catalog = (catalog, result)) :
      Step fromUtf8Lossy server (.executeCommit session ctx)
        { server.enter session (.collecting {}) with
          catalog
          applied := if ops ≠ [] ∧ result = .ok () then session :: server.applied
            else server.applied }

end Server

def BufferedOp.ofBootstrap : BufferedOp → Bool
  | .insertSchema _ | .insertSnapshot .. => true
  | _ => false

theorem BootstrapState.ops_ofBootstrap (bootstrap : BootstrapState) :
    ∀ op ∈ bootstrap.ops, op.ofBootstrap = true := by
  intro op member
  rcases List.mem_append.mp member with schema | snapshot
  · obtain ⟨name, _, rfl⟩ := List.mem_map.mp schema
    rfl
  · split at snapshot
    · cases List.mem_singleton.mp snapshot
      rfl
    · contradiction

theorem BootstrapState.opsUnless_ofBootstrap (bootstrap : BootstrapState) (db : Db) (latest : Nat) :
    ∀ op ∈ bootstrap.opsUnless db latest, op.ofBootstrap = true := by
  simp only [opsUnless]
  split
  · simp
  · exact bootstrap.ops_ofBootstrap

section Commit

variable {ctx : CommitContext} {ops : List BufferedOp}

theorem runOps_bootstrap (ctx : CommitContext) (replaced deleted : List (Nat × Nat × Nat)) (i : Nat)
    (s : CommitState) (bootstrap : ∀ op ∈ ops, op.ofBootstrap = true) :
    ∃ s', runOps ctx replaced deleted i s ops = .ok s' ∧ s'.db = s.db ∧
      StagingFrame s.writer s'.writer := by
  induction ops generalizing i s with
  | nil => exact ⟨s, rfl, rfl, .refl _⟩
  | cons op rest ih =>
    rw [List.forall_mem_cons] at bootstrap
    obtain ⟨first, later⟩ := bootstrap
    have single : ∃ s', op.apply ctx replaced deleted (ctx.uuid i)
        { s with needsSnapshot := s.needsSnapshot || op.needsSnapshot } = .ok s' ∧ s'.db = s.db ∧
        StagingFrame s.writer s'.writer := by
      cases op with
      | insertSchema name =>
        have staged : ∃ reply writer, s.writer.staging ctx.env s.db
          (.createSchema name (ctx.uuid i)) = .ok (reply, writer) := ⟨_, _, rfl⟩
        obtain ⟨reply, writer, called⟩ := staged
        refine ⟨{ s with needsSnapshot := s.needsSnapshot || true, writer }, ?_, rfl,
          CatalogWriter.staging_frame called⟩
        simp only [BufferedOp.apply, BufferedOp.needsSnapshot]
        exact CommitState.staging_ok.mpr ⟨reply, writer, called, rfl⟩
      | insertSnapshot author message => exact ⟨_, rfl, rfl, .refl _⟩
      | _ => contradiction
    obtain ⟨middle, applied, unwritten, frame⟩ := single
    obtain ⟨s', ran, kept, frame'⟩ := ih (i + 1) middle later
    refine ⟨s', ?_, kept.trans unwritten, frame.trans frame'⟩
    simp only [runOps, applied]
    exact ran

theorem executeCommit_bootstrap (bootstrap : ∀ op ∈ ops, op.ofBootstrap = true)
    (committed : executeCommit ctx ops before = (after, result)) :
    if ops ≠ [] ∧ result = .ok () then
      after.store.counters.nextSnapshotId = before.store.counters.nextSnapshotId + 1 ∧
        ∃ row, after.db.get .snapshot (keySnapshot before.store.counters.nextSnapshotId) = some row
    else after = before := by
  obtain ⟨s, ran, unwritten, frame⟩ := runOps_bootstrap ctx (collectReplacedInlinedRows ops)
    (collectDeletedInlinedRows ops) 0 (.start before) bootstrap
  have needs : s.needsSnapshot = decide (ops ≠ []) := by
    rw [runOps_needsSnapshot ran]
    cases ops with
    | nil => rfl
    | cons op rest =>
      have first := bootstrap op List.mem_cons_self
      cases op with
      | insertSchema | insertSnapshot => rfl
      | _ => contradiction
  have next : s.writer.snapshotId = before.store.counters.nextSnapshotId := frame.snapshot
  have stageable : ∀ x ∈ s.writer.staged, x.family.stageable = true := by
    obtain ⟨new, staged, all⟩ := frame.staged
    rw [staged]
    exact all
  simp only [executeCommit, ran] at committed
  by_cases some : ops = []
  · simp only [needs, some, ne_eq, not_true_eq_false, decide_false, Bool.false_eq_true,
      if_false, Prod.mk.injEq] at committed
    rw [if_neg (fun both => both.1 some), ← committed.1, unwritten]
    rfl
  · simp only [needs, some, ne_eq, not_false_eq_true, decide_true, if_true] at committed
    split at committed
    · rename_i result' db created
      obtain ⟨_, _, rfl, rfl⟩ := (s.writer.createSnapshot_ok s.db).mp created
      obtain ⟨rfl, rfl⟩ := Prod.mk.inj committed
      rw [if_pos ⟨some, rfl⟩]
      refine ⟨congrArg (· + 1) next, s.writer.snapshotRow (s.request ctx).now, ?_⟩
      rw [CatalogWriter.commitWrites_snapshot stageable, if_pos (congrArg keySnapshot next.symm)]
    · rename_i e failed
      obtain ⟨rfl, rfl⟩ := Prod.mk.inj committed
      rw [if_neg (by simp), unwritten]
      rfl

end Commit

namespace Server

variable {Session : Type} [DecidableEq Session] {fromUtf8Lossy : Bytes → String}
  {server server' : Server Session} {event : ServerEvent Session}

/-- The snapshot that the check of a COMMIT was made for is still the latest one when bootstrap rows
are committed. -/
def Undisturbed (server : Server Session) : ServerEvent Session → Prop
  | .executeCommit session _ => ∀ ops latest, server.phase session = .checked ops latest → ops ≠ [] →
      latest = server.catalog.store.latestSnapshot
  | _ => True

/-- What the check of a session in progress knows: it is about a snapshot that was the latest one,
and once bootstrap rows are applied, operations are left only for an older one. -/
structure Known (server : Server Session) (session : Session) : Prop where
  observed : ∀ bootstrap latest, server.phase session = .observed bootstrap latest →
    latest ≤ server.catalog.store.latestSnapshot
  checked : ∀ ops latest, server.phase session = .checked ops latest →
    latest ≤ server.catalog.store.latestSnapshot ∧ (∀ op ∈ ops, op.ofBootstrap = true) ∧
      (server.applied ≠ [] → ops ≠ [] → latest < server.catalog.store.latestSnapshot)

structure Once (server : Server Session) : Prop where
  numbered : 0 < server.catalog.store.counters.nextSnapshotId
  known : ∀ session, server.Known session
  single : server.applied.length ≤ 1
  exists_ : server.applied ≠ [] →
    ∃ row, server.catalog.db.get .snapshot (keySnapshot server.catalog.store.latestSnapshot) = some row

omit [DecidableEq Session] in
theorem start_once {catalog : Catalog} (numbered : 0 < catalog.store.counters.nextSnapshotId) :
    (start catalog : Server Session).Once :=
  ⟨numbered, fun _ => ⟨nofun, nofun⟩, Nat.zero_le _, fun some => absurd rfl some⟩

theorem Once.enter (once : server.Once) {phase : AttachPhase}
    (known : (server.enter session phase).Known session) : (server.enter session phase).Once := by
  refine ⟨once.numbered, fun other => ?_, once.single, once.exists_⟩
  by_cases same : other = session
  · exact same ▸ known
  have before := once.known other
  have phase' : (server.enter session phase).phase other = server.phase other :=
    Function.update_of_ne same _ _
  exact ⟨fun bootstrap latest at_ => before.observed bootstrap latest (phase' ▸ at_),
    fun ops latest at_ => before.checked ops latest (phase' ▸ at_)⟩

theorem enter_phase (server : Server Session) (session : Session) (phase : AttachPhase) :
    (server.enter session phase).phase session = phase := Function.update_self _ _ _

theorem Once.step (once : server.Once) (undisturbed : server.Undisturbed event)
    (stepped : Step fromUtf8Lossy server event server') : server'.Once := by
  have latestNumber : ∀ store : CatalogStore, 0 < store.counters.nextSnapshotId →
      store.latestSnapshot + 1 = store.counters.nextSnapshotId := by
    intro store positive
    rw [CatalogStore.latestSnapshot_eq]
    omega
  cases stepped with
  | @copy session table data bootstrap collecting =>
    refine once.enter ⟨?_, ?_⟩ <;> rw [enter_phase] <;> exact nofun
  | @readLatest session bootstrap collecting received =>
    refine once.enter ⟨?_, ?_⟩ <;> rw [enter_phase]
    · intro bootstrap' latest same
      cases same
      exact le_rfl
    · exact nofun
  | @readNothing session bootstrap collecting received =>
    refine once.enter ⟨?_, ?_⟩ <;> rw [enter_phase]
    · exact nofun
    · intro ops latest same
      cases same
      exact ⟨le_rfl, nofun, fun _ some => absurd rfl some⟩
  | @getSnapshot session bootstrap latest observed =>
    have bound := (once.known session).observed bootstrap latest observed
    refine once.enter ⟨?_, ?_⟩ <;> rw [enter_phase]
    · exact nofun
    intro ops latest' same
    cases same
    refine ⟨bound, bootstrap.opsUnless_ofBootstrap _ _, fun applied some => ?_⟩
    -- A snapshot has been committed, so the reader of the latest one would have found it.
    rcases Nat.lt_or_eq_of_le bound with older | current
    · exact older
    · obtain ⟨row, found⟩ := once.exists_ applied
      refine absurd ?_ some
      simp only [BootstrapState.opsUnless, CatalogReader.getSnapshot]
      rw [current, found]
  | @executeCommit session ctx ops latest catalog result checked committed =>
    obtain ⟨bound, ofBootstrap, older⟩ := (once.known session).checked ops latest checked
    have current := undisturbed ops latest checked
    have outcome := executeCommit_bootstrap ofBootstrap committed
    have before := latestNumber server.catalog.store once.numbered
    by_cases applies : ops ≠ [] ∧ result = .ok ()
    · rw [if_pos applies] at outcome ⊢
      obtain ⟨next, row, found⟩ := outcome
      have after := latestNumber catalog.store (by omega)
      have none : server.applied = [] := by
        by_contra some
        have less := older some applies.1
        have same := current applies.1
        omega
      have grown : server.catalog.store.latestSnapshot < catalog.store.latestSnapshot := by omega
      refine ⟨by show 0 < catalog.store.counters.nextSnapshotId; omega, fun other => ?_,
        by simp [none], fun _ => ⟨row, ?_⟩⟩
      · by_cases same : other = session
        · subst same
          have now := enter_phase server other (.collecting {})
          exact ⟨fun _ _ at_ => (nomatch now.symm.trans at_),
            fun _ _ at_ => (nomatch now.symm.trans at_)⟩
        · have known := once.known other
          have phase' : (server.enter session (.collecting {})).phase other = server.phase other :=
            Function.update_of_ne same _ _
          constructor
          · intro bootstrap latest' at_
            exact (known.observed bootstrap latest' (phase' ▸ at_)).trans grown.le
          · intro ops' latest' at_
            obtain ⟨bound', all, _⟩ := known.checked ops' latest' (phase' ▸ at_)
            exact ⟨bound'.trans grown.le, all, fun _ _ => bound'.trans_lt grown⟩
      · have key : catalog.store.latestSnapshot = server.catalog.store.counters.nextSnapshotId := by
          omega
        show catalog.db.get .snapshot (keySnapshot catalog.store.latestSnapshot) = some row
        rw [key]
        exact found
    · rw [if_neg applies] at outcome ⊢
      subst outcome
      refine once.enter ⟨?_, ?_⟩ <;> rw [enter_phase] <;> exact nofun

theorem Once.unchanged (once : server.Once)
    (stepped : Step fromUtf8Lossy server (.executeCommit session ctx) server')
    (same : server'.applied = server.applied) : server'.catalog = server.catalog := by
  cases stepped with
  | @executeCommit _ _ ops latest catalog result checked committed =>
    obtain ⟨_, ofBootstrap, _⟩ := (once.known session).checked ops latest checked
    have outcome := executeCommit_bootstrap ofBootstrap committed
    by_cases applies : ops ≠ [] ∧ result = .ok ()
    · rw [if_pos applies] at same
      exact absurd same (List.cons_ne_self _ _)
    · rwa [if_neg applies] at outcome

def visibleSchemas (server : Server Session) : List SchemaRow :=
  (server.catalog.store.readLatest server.catalog.db).listSchemas

/-- A step before which nothing has come between the check and the commit. -/
def UndisturbedStep (fromUtf8Lossy : Bytes → String) (server : Server Session)
    (event : ServerEvent Session) (server' : Server Session) : Prop :=
  Step fromUtf8Lossy server event server' ∧ server.Undisturbed event

/-- If no snapshot comes between the check of a COMMIT and its commit, bootstrap rows are applied at
most once, and every other COMMIT leaves the visible schemas as they are. -/
theorem bootstrap_once {env : Env} {catalog : Catalog} (maintained : catalog.Maintained env)
    {events : List (ServerEvent Session)} {server : Server Session}
    (ran : Run (UndisturbedStep fromUtf8Lossy) (start catalog) events server) :
    server.applied.length ≤ 1 ∧
      ∀ session ctx server', Step fromUtf8Lossy server (.executeCommit session ctx) server' →
        server'.applied = server.applied → server'.visibleSchemas = server.visibleSchemas := by
  have once : server.Once := ran.invariant Once (fun _ _ _ kept stepped => kept.step stepped.2 stepped.1)
    (start_once maintained.numbered.handle)
  refine ⟨once.single, fun session ctx server' stepped same => ?_⟩
  rw [visibleSchemas, visibleSchemas, once.unchanged stepped same]

def plainText (bytes : Bytes) : String := String.ofList (bytes.map fun byte => Char.ofNat byte.toNat)

theorem Step.copyMain (collecting : server.phase session = .collecting {}) :
    Step plainText server (.copy session "ducklake_schema" Copy.mainSchemaRow)
      (server.enter session (.collecting { schemas := ["main"] })) := by
  have received : BootstrapState.copied plainText {} "ducklake_schema" Copy.mainSchemaRow =
    { schemas := ["main"] } := rfl
  rw [← received]
  exact .copy collecting

/-- Two sessions attach one after the other to a new catalog: the rows of the first are applied, and
the second finds a snapshot. -/
theorem bootstrap_once_apart : ∃ (catalog : Catalog) (server : Server Bool),
    catalog.Maintained Env.trivial ∧
    Run (UndisturbedStep plainText) (start catalog)
      [.copy false "ducklake_schema" Copy.mainSchemaRow, .readLatest false, .getSnapshot false,
        .executeCommit false .trivial, .copy true "ducklake_schema" Copy.mainSchemaRow,
        .readLatest true, .getSnapshot true, .executeCommit true .trivial] server ∧
    server.applied = [false] ∧ server.applied.length ≤ 1 := by
  have maintained : Catalog.Maintained Env.trivial _ := .opened "a" rfl
  refine ⟨_, _, maintained, (fun ran => ⟨ran, ?_, (bootstrap_once maintained ran).1⟩) (.next
    ⟨.copyMain rfl, trivial⟩ (.next ⟨.readLatest rfl rfl, trivial⟩ (.next ⟨.getSnapshot rfl,
    trivial⟩ (.next ⟨.executeCommit rfl rfl, fun _ _ at_ _ => (AttachPhase.checked.inj at_).2.symm⟩
    (.next ⟨.copyMain rfl, trivial⟩ (.next ⟨.readLatest rfl rfl, trivial⟩ (.next ⟨.getSnapshot rfl,
    trivial⟩ (.next ⟨.executeCommit rfl rfl, fun _ _ at_ _ => (AttachPhase.checked.inj at_).2.symm⟩
    .done))))))))⟩
  rfl

/-- Both sessions look for a snapshot before either commits, and both commit: the schema is there
twice. -/
theorem bootstrap_twice : ∃ (catalog : Catalog) (server : Server Bool),
    catalog.Maintained Env.trivial ∧
    Run (Step plainText) (start catalog)
      [.copy false "ducklake_schema" Copy.mainSchemaRow,
        .copy true "ducklake_schema" Copy.mainSchemaRow, .readLatest false, .getSnapshot false,
        .readLatest true, .getSnapshot true, .executeCommit false .trivial,
        .executeCommit true .trivial] server ∧
    server.applied = [true, false] ∧
    server.visibleSchemas.map (fun row => row.schemaName) = ["main", "main"] :=
  ⟨_, _, .opened "a" rfl,
    .next (.copyMain rfl) (.next (.copyMain rfl) (.next (.readLatest rfl rfl) (.next (.getSnapshot rfl)
      (.next (.readLatest rfl rfl) (.next (.getSnapshot rfl) (.next (.executeCommit rfl rfl)
        (.next (.executeCommit rfl rfl) .done))))))), by decide +kernel, by decide +kernel⟩

end Server

end RockLake
