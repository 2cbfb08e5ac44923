import RockLake.PgWire.Copy
import RockLake.PgWire.TableChanges

/-! A client and its connection: settings, subscriptions, transfers and statements in the order in
which they arrive, with the responses they get. Queries read the catalog and are answered by a
function of it. -/
namespace RockLake

structure SessionSettings where
  timezone : String := "UTC"
  clientEncoding : String := "UTF8"
  dateStyle : String := "ISO, MDY"
  applicationName : String := ""
  extra : List (String × String) := []
  deriving DecidableEq

def lowerName (name : String) : String := String.ofList (Text.lower name.toList)

def getShowValue (var : String) (settings : SessionSettings) : String :=
  match lowerName var with
  | "server_version" => "15.0"
  | "datestyle" | "date_style" => settings.dateStyle
  | "timezone" | "time zone" => settings.timezone
  | "client_encoding" => settings.clientEncoding
  | "transaction_isolation" => "read committed"
  | "standard_conforming_strings" => "on"
  | other => (settings.extra.lookup other).getD ""

def applySet (var val : String) (settings : SessionSettings) : SessionSettings :=
  let cleanVal := String.ofList (Text.trimMatches '\'' val.toList)
  match lowerName var with
  | "timezone" | "time zone" => { settings with timezone := cleanVal }
  | "client_encoding" => { settings with clientEncoding := cleanVal }
  | "datestyle" | "date_style" => { settings with dateStyle := cleanVal }
  | "application_name" => { settings with applicationName := cleanVal }
  | other => { settings with
      extra := (other, cleanVal) :: settings.extra.filter fun entry => entry.1 ≠ other }

/-- All of a session's state, beside the catalog it works on. -/
structure ClientState where
  conn : Connection
  settings : SessionSettings := {}
  subscriptions : List String := []
  pendingCopy : Option CopyAccumulator := none

/-- Statements. Those that go through the buffer of a transaction, that end it, or that work on
extension tables are of the kinds of the executor. -/
inductive ClientStatement where
  | classified (kind : StatementKind)
  | query (name : String)
  | tableChanges (tableRef : String) (startSnapshot endSnapshot : Nat)
  | showVariable (var : String)
  | setVariable (var val : String)
  | listen (channel : String)
  | unlisten (channel : String)
  | nextRowidRange (tableRef : String) (count : Nat)
  | holdSnapshot (nowMs minSnapshotId : Nat) (consumerId : String) (ttlSeconds : Nat)
  | releaseSnapshot (consumerId : String)
  | copyFromStdin (table : String)

inductive ClientResponse where
  | executed (response : Response)
  | rows (rows : List (List (Option String)))
  | copyIn
  | copyOut (rows : List (List (Option String)))
  | failed (code message : String)
  deriving DecidableEq

/-- What a session takes from outside: the hash of table references, the lossy decoding of text, the
answers to queries, data files, and the iteration order of hash sets. -/
structure ClientContext extends ExecContext where
  hashTableRef : String → Nat
  fromUtf8Lossy : Bytes → String
  answer : String → List Char → ParamValues → Catalog → ClientResponse
  extract : ExtractRows
  hashOrder : List Nat → List Nat

def ClientContext.trivial : ClientContext :=
  { ExecContext.trivial with
    hashTableRef := fun tableRef => tableRef.length
    fromUtf8Lossy := fun bytes => String.ofList (bytes.map fun byte => Char.ofNat byte.toNat)
    answer := fun _ _ _ _ => .rows []
    extract := fun _ _ _ => .ok []
    hashOrder := id }

namespace ClientState

variable (ctx : ClientContext)

def failure (e : CatalogError) : ClientResponse := .executed (.error (.catalog e))

def direct {R : Type} (state : ClientState) (call : Db → Except CatalogError (R × Db))
    (reply : R → List (Option String)) : ClientState × ClientResponse :=
  match call state.conn.catalog.db with
  | .ok (result, db) =>
    ({ state with conn := { state.conn with catalog := { state.conn.catalog with db } } },
      .rows [reply result])
  | .error e => (state, failure e)

def changeRow (record : ChangeRecord) : List (Option String) :=
  [record.rowid.map toString, some record.changeType.asStr, some record.columnsJson]

def execute (state : ClientState) (sql : List Char) (params : ParamValues) :
    ClientStatement → ClientState × ClientResponse
  | .classified kind =>
    let (conn, response) := Executor.executeClassified ctx.toExecContext state.conn sql params kind
    ({ state with conn }, .executed response)
  | .query name => (state, ctx.answer name sql params state.conn.catalog)
  | .tableChanges tableRef startSnapshot endSnapshot =>
    (state, match executeTableChanges ctx.extract ctx.hashOrder state.conn.catalog tableRef
        startSnapshot endSnapshot with
      | .ok result => .rows (result.records.map changeRow)
      | .error e => .executed (.error e))
  | .showVariable var => (state, .rows [[some (getShowValue var state.settings)]])
  | .setVariable var val =>
    ({ state with settings := applySet var val state.settings }, .executed (.tag "SET"))
  | .listen channel =>
    ({ state with subscriptions := if channel ∈ state.subscriptions then state.subscriptions
        else state.subscriptions ++ [channel] }, .executed (.tag "LISTEN"))
  | .unlisten channel =>
    ({ state with subscriptions := state.subscriptions.filter (· ≠ channel) },
      .executed (.tag "UNLISTEN"))
  | .nextRowidRange tableRef count =>
    state.direct (fun db => (CatalogWriter.nextRowidRange db (ctx.hashTableRef tableRef) count).map
      fun (first, last, db) => ((first, last), db)) fun (first, last) =>
        [some (toString first), some (toString last)]
  | .holdSnapshot nowMs minSnapshotId consumerId ttlSeconds =>
    state.direct (fun db => RockLake.holdSnapshot db nowMs consumerId minSnapshotId ttlSeconds)
      fun _ => [some "OK"]
  | .releaseSnapshot consumerId =>
    state.direct (fun db => RockLake.releaseSnapshot db consumerId) fun released =>
      [some (if released then "OK" else "NOT_FOUND")]
  | .copyFromStdin table => ({ state with pendingCopy := some ⟨table, []⟩ }, .copyIn)

def onCopyData (state : ClientState) (copyData : Bytes) : ClientState :=
  { state with pendingCopy := state.pendingCopy.map fun acc => { acc with data := acc.data ++ copyData } }

/-- Without a transfer under way there is nothing to parse. A malformed stream fails closed. -/
def onCopyDone (state : ClientState) : ClientState × ClientResponse :=
  match state.pendingCopy with
  | none => (state, .executed (.tag "COPY 0"))
  | some acc =>
    match Copy.parseBinaryCopyRows acc.data with
    | .error e =>
      let message := e.message
      let table := acc.table
      ({ state with pendingCopy := none },
        .failed "08P01" s!"binary COPY parse error for table '{table}': {message}")
    | .ok rows =>
      let bootstrap := state.conn.session.bootstrap.receive ctx.fromUtf8Lossy acc.table rows
      let session := { state.conn.session with bootstrap }
      ({ state with pendingCopy := none, conn := { state.conn with session } },
        .executed (.tag ("COPY " ++ toString rows.length)))

/-- The inner statement of COPY TO STDOUT runs like any other; only its response must be rows. -/
def copyToStdout (state : ClientState) (sql : List Char) (params : ParamValues)
    (statement : ClientStatement) : ClientState × ClientResponse :=
  let (state, response) := state.execute ctx sql params statement
  (state, match response with
    | .rows rows => .copyOut rows
    | .executed (.error e) => .executed (.error e)
    | .executed .silent => .executed .silent
    | _ => .failed "XX000" "COPY TO STDOUT inner statement must return rows")

end ClientState

/-- What arrives on a connection. The messages of a transfer come only within it, and it is finished
or given up. Meanwhile other sessions work on the catalog. -/
inductive ClientEvent where
  | statement (sql : List Char) (params : ParamValues) (statement : ClientStatement)
  | copyOut (sql : List Char) (params : ParamValues) (statement : ClientStatement)
  | copyIn (table : String) (chunks : List Bytes) (finished : Bool)
  | elsewhere (change : Catalog → Catalog)

namespace ClientState

variable (ctx : ClientContext)

/-- A transfer: the statement, the messages with the data, and the end. -/
def transfer (state : ClientState) (table : String) (chunks : List Bytes) (finished : Bool) :
    ClientState × List ClientResponse :=
  let (state, response) := state.execute ctx [] [] (.copyFromStdin table)
  let state := chunks.foldl onCopyData state
  if finished then
    let (state, done) := state.onCopyDone ctx
    (state, [response, done])
  else (state, [response])

def handle (state : ClientState) : ClientEvent → ClientState × List ClientResponse
  | .statement sql params statement =>
    let (state, response) := state.execute ctx sql params statement
    (state, [response])
  | .copyOut sql params statement =>
    let (state, response) := state.copyToStdout ctx sql params statement
    (state, [response])
  | .copyIn table chunks finished => state.transfer ctx table chunks finished
  | .elsewhere change =>
    ({ state with conn := { state.conn with catalog := change state.conn.catalog } }, [])

/-- An event with what it takes from outside. -/
abbrev Sent := ClientContext × ClientEvent

/-- The state after some events, and the responses to each of them. -/
def run (state : ClientState) : List Sent → ClientState × List (List ClientResponse)
  | [] => (state, [])
  | (ctx, event) :: rest =>
    let (state, responses) := state.handle ctx event
    let (state, later) := state.run rest
    (state, responses :: later)

def fresh (catalog : Catalog) : ClientState := { conn := ⟨catalog, {}⟩ }

end ClientState

end RockLake
