import Mathlib.Data.List.Induction
import RockLake.Lib.Text

/-! Authentication of a connection: the startup handler with its cleartext and SCRAM-SHA-256 paths.
The hash functions, base64 and the decoding of the wire messages are parameters. A connection that
was closed delivers no further message. -/
namespace RockLake

open Option

/-- The functions of the cryptography and base64 libraries. -/
structure Crypto where
  hiSha256 : List UInt8 → List UInt8 → Nat → Vector UInt8 32
  hmacSha256 : List UInt8 → List UInt8 → Vector UInt8 32
  sha256 : List UInt8 → Vector UInt8 32
  encode : List UInt8 → List Char
  decode : List Char → Option (List UInt8)

def asBytes (text : List Char) : List UInt8 := (String.ofList text).toByteArray.data.toList

def fromUtf8 (bytes : List UInt8) : Option (List Char) :=
  (String.fromUTF8? ⟨bytes.toArray⟩).map String.toList

def ctBytesEq (a b : List UInt8) : Bool :=
  if a.length ≠ b.length then false
  else (a.zip b).foldl (fun diff e => diff ||| (e.1 ^^^ e.2)) 0 = 0

structure ScramState where
  nonce : List Char
  serverFirst : List Char
  clientFirstBare : List Char
  saltedPassword : Vector UInt8 32

namespace ScramState

variable (crypto : Crypto)

def iterations : Nat := 4096

def stripGs2Header (msg : List Char) : Option (List Char) :=
  if "n,,".toList.isPrefixOf msg || "y,,".toList.isPrefixOf msg then some (msg.drop 3) else none

/-- The first step of the server, for any number of iterations. The nonce suffix and the salt are drawn at
random by the server. -/
def fromClientFirstAt (iterations : Nat) (clientFirst : List UInt8) (password serverNonceSuffix : List Char)
    (salt : List UInt8) : Option ScramState := do
  let msg ← fromUtf8 clientFirst
  let clientFirstBare ← stripGs2Header msg
  let clientNonce ← (clientFirstBare.splitOn ',').findSome? (Text.stripPrefix "r=".toList)
  let nonce := clientNonce ++ serverNonceSuffix
  some
    { nonce
      serverFirst := "r=".toList ++ nonce ++ ",s=".toList ++ crypto.encode salt ++
        (",i=".toList ++ Nat.toDigits 10 iterations)
      clientFirstBare
      saltedPassword := crypto.hiSha256 (asBytes password) salt iterations }

def fromClientFirst : List UInt8 → List Char → List Char → List UInt8 → Option ScramState :=
  fromClientFirstAt crypto iterations

variable (state : ScramState)

def authMessage (clientFinalWithoutProof : List Char) : List Char :=
  state.clientFirstBare ++ [','] ++ state.serverFirst ++ [','] ++ clientFinalWithoutProof

def clientKey : Vector UInt8 32 :=
  crypto.hmacSha256 state.saltedPassword.toList (asBytes "Client Key".toList)

def storedKey : Vector UInt8 32 := crypto.sha256 (state.clientKey crypto).toList

def clientSignature (clientFinalWithoutProof : List Char) : Vector UInt8 32 :=
  crypto.hmacSha256 (state.storedKey crypto).toList (asBytes (state.authMessage clientFinalWithoutProof))

def recoveredKey (clientProof : List UInt8) (clientFinalWithoutProof : List Char) : List UInt8 :=
  List.zipWith (· ^^^ ·) clientProof (state.clientSignature crypto clientFinalWithoutProof).toList

def serverFinal (clientFinalWithoutProof : List Char) : List UInt8 :=
  let serverKey := crypto.hmacSha256 state.saltedPassword.toList (asBytes "Server Key".toList)
  let serverSig := crypto.hmacSha256 serverKey.toList
    (asBytes (state.authMessage clientFinalWithoutProof))
  asBytes ("v=".toList ++ crypto.encode serverSig.toList)

def validateClientFinal (clientFinal : List UInt8) : Option (List UInt8) := do
  let msg ← fromUtf8 clientFinal
  let (clientFinalWithoutProof, proof64) ← Text.rsplitAt ",p=".toList msg
  if "r=".toList ++ state.nonce ∈ clientFinalWithoutProof.splitOn ',' then
    let clientProof ← crypto.decode proof64
    if clientProof.length ≠ 32 then none
    else
      let recoveredStored := crypto.sha256 (state.recoveredKey crypto clientProof clientFinalWithoutProof)
      if ctBytesEq recoveredStored.toList (state.storedKey crypto).toList then
        some (state.serverFinal crypto clientFinalWithoutProof)
      else none
  else none

end ScramState

structure AuthConfig where
  username : Option String
  password : Option String
  scramSha256 : Bool

def AuthConfig.isEnabled (auth : AuthConfig) : Bool := auth.username.isSome && auth.password.isSome

/-- What the decoders of the wire library make of the body of a password message. -/
structure PasswordMessage where
  intoPassword : Option String
  intoSaslInitialResponse : Option (Option (List UInt8))
  intoSaslResponse : Option (List UInt8)

inductive FrontendMessage where
  | startup (parameters : String → Option String)
  | passwordMessageFamily (body : PasswordMessage)
  | other

inductive BackendMessage where
  | sasl (mechanisms : List String)
  | saslContinue (data : List UInt8)
  | saslFinal (data : List UInt8)
  | cleartextPassword
  | authenticationOk
  | errorResponse (severity code message : String)

inductive ConnectionState where
  | awaitingStartup | authenticationInProgress | readyForQuery
  deriving DecidableEq

/-- A connection with the handshake state that its startup handler keeps. -/
structure ClientConnection where
  state : ConnectionState
  secure : Bool
  metadata : String → Option String
  scramState : Option ScramState
  closed : Bool
  sent : List BackendMessage

namespace ClientConnection

def opened (secure : Bool) : ClientConnection :=
  { state := .awaitingStartup, secure, metadata := fun _ => none, scramState := none, closed := false,
    sent := [] }

variable (client : ClientConnection)

def send (message : BackendMessage) : ClientConnection := { client with sent := client.sent ++ [message] }

def sendError (code message : String) : ClientConnection :=
  { client.send (.errorResponse "FATAL" code message) with closed := true }

def sendAuthError (message : String) : ClientConnection := client.sendError "28P01" message

def finishAuthentication : ClientConnection :=
  { client.send .authenticationOk with state := .readyForQuery }

def saveStartupParameters (parameters : String → Option String) : ClientConnection :=
  { client with metadata := fun key => (parameters key).or (client.metadata key) }

/-- The user name of the startup message, empty when it has none. -/
def user : String := (client.metadata "user").getD ""

end ClientConnection

/-- What the server draws at random when a handshake begins. -/
structure Draw where
  nonce : List Char
  salt : List UInt8

structure StartupHandler where
  auth : AuthConfig
  tlsRequired : Bool

namespace StartupHandler

variable (crypto : Crypto) (handler : StartupHandler)

def onStartupMessage (client : ClientConnection) (parameters : String → Option String) : ClientConnection :=
  if handler.tlsRequired && !client.secure then
    client.sendError "28000" "SSL connection is required. Connect using SSL/TLS."
  else
    let client := client.saveStartupParameters parameters
    if !handler.auth.isEnabled then client.finishAuthentication
    else if handler.auth.scramSha256 then
      ClientConnection.send { client with state := .authenticationInProgress } (.sasl ["SCRAM-SHA-256"])
    else if client.user ≠ handler.auth.username.getD "" then
      client.sendError "28P01" ("Password authentication failed for user \"" ++ client.user ++ "\"")
    else ClientConnection.send { client with state := .authenticationInProgress } .cleartextPassword

def onClientFirst (client : ClientConnection) (body : PasswordMessage) (draw : Draw) : ClientConnection :=
  match body.intoSaslInitialResponse with
  | none => client.sendAuthError "SCRAM handshake error"
  | some data =>
    match ScramState.fromClientFirst crypto (data.getD []) (handler.auth.password.getD "").toList
      draw.nonce draw.salt with
    | some state =>
      ClientConnection.send { client with scramState := some state } (.saslContinue (asBytes state.serverFirst))
    | none => client.sendAuthError "SCRAM client-first parse error"

/-- Second phase: the client-final-message. The handshake state is taken whatever comes of it. -/
def onClientFinal (client : ClientConnection) (state : ScramState) (body : PasswordMessage) : ClientConnection :=
  let client := { client with scramState := none }
  match body.intoSaslResponse with
  | none => client.sendAuthError "SCRAM handshake error"
  | some data =>
    match state.validateClientFinal crypto data with
    | some serverFinal => (client.send (.saslFinal serverFinal)).finishAuthentication
    | none => client.sendAuthError "SCRAM authentication failed"

/-- A body that holds no password is an error of the wire library. -/
def onPassword (client : ClientConnection) (body : PasswordMessage) : Option ClientConnection :=
  body.intoPassword.map fun password =>
    if ctBytesEq (asBytes password.toList) (asBytes (handler.auth.password.getD "").toList) then
      client.finishAuthentication
    else client.sendAuthError "Password authentication failed"

def onStartup (client : ClientConnection) (draw : Draw) : FrontendMessage → Option ClientConnection
  | .startup parameters => some (handler.onStartupMessage client parameters)
  | .passwordMessageFamily body =>
    if handler.auth.isEnabled then
      if handler.auth.scramSha256 then
        match client.scramState with
        | none => some (handler.onClientFirst crypto client body draw)
        | some state => some (onClientFinal crypto client state body)
      else handler.onPassword client body
    else some client
  | .other => some client

/-- One message of the client. The handler is asked until the connection is authenticated; after an
error it answers the next message from the same state. -/
def serve (client : ClientConnection) (event : FrontendMessage × Draw) : ClientConnection :=
  if client.closed || client.state = .readyForQuery then client
  else (handler.onStartup crypto client event.2 event.1).getD client

def run (secure : Bool) (events : List (FrontendMessage × Draw)) : ClientConnection :=
  events.foldl (handler.serve crypto) (.opened secure)

end StartupHandler

/-! ### What a client has shown -/

/-- A valid proof of a password, for a handshake with the given server draw: the recovered key hashes
to the stored key of the password, and the final message repeats the nonce of the exchange. -/
def ScramProof (crypto : Crypto) (password : String) (draw : Draw)
    (clientFirst clientFinal : List UInt8) : Prop :=
  ∃ (header bare clientNonce withoutProof proof64 : List Char) (clientProof : List UInt8)
    (state : ScramState),
    fromUtf8 clientFirst = some (header ++ bare) ∧
    (header = "n,,".toList ∨ header = "y,,".toList) ∧
    "r=".toList ++ clientNonce ∈ bare.splitOn ',' ∧
    state = ⟨clientNonce ++ draw.nonce, "r=".toList ++ (clientNonce ++ draw.nonce) ++ ",s=".toList ++
      crypto.encode draw.salt ++ ",i=4096".toList, bare,
      crypto.hiSha256 (asBytes password.toList) draw.salt 4096⟩ ∧
    fromUtf8 clientFinal = some (withoutProof ++ ",p=".toList ++ proof64) ∧
    "r=".toList ++ state.nonce ∈ withoutProof.splitOn ',' ∧
    crypto.decode proof64 = some clientProof ∧ clientProof.length = 32 ∧
    crypto.sha256 (state.recoveredKey crypto clientProof withoutProof) = state.storedKey crypto

/-- The client has sent the password, or the two messages of a handshake with a valid proof of it. -/
inductive Presented (crypto : Crypto) (password : String) :
    List (FrontendMessage × Draw) → Prop
  | cleartext {events : List (FrontendMessage × Draw)} {body}
      (sent : (.passwordMessageFamily body, draw) ∈ events)
      (same : body.intoPassword = some password) : Presented crypto password events
  | scram {before between after} {first final : PasswordMessage}
      (opening : first.intoSaslInitialResponse = some data)
      (closing : final.intoSaslResponse = some response)
      (proof : ScramProof crypto password draw (data.getD []) response) :
      Presented crypto password (before ++ (.passwordMessageFamily first, draw) ::
        (between ++ (.passwordMessageFamily final, draw') :: after))

theorem ctBytesEq_fold (pairs : List (UInt8 × UInt8)) (diff : UInt8) :
    pairs.foldl (fun diff e => diff ||| (e.1 ^^^ e.2)) diff = 0 ↔
      diff = 0 ∧ ∀ e ∈ pairs, e.1 = e.2 := by
  induction pairs generalizing diff with
  | nil => simp
  | cons e pairs ih =>
    rw [List.foldl_cons, ih, UInt8.or_eq_zero_iff, UInt8.xor_eq_zero_iff, List.forall_mem_cons,
      and_assoc]

theorem zip_eq_iff {a b : List UInt8} (lengths : a.length = b.length) :
    (∀ e ∈ a.zip b, e.1 = e.2) ↔ a = b := by
  induction a generalizing b with
  | nil => simp [List.length_eq_zero_iff.mp lengths.symm]
  | cons x a ih =>
    cases b with
    | nil => contradiction
    | cons y b =>
      rw [List.zip_cons_cons, List.forall_mem_cons, ih (Nat.succ.inj lengths), List.cons.injEq]

theorem ctBytesEq_iff {a b : List UInt8} : ctBytesEq a b = true ↔ a = b := by
  simp only [ctBytesEq]
  split
  · rename_i lengths
    simp only [Bool.false_eq_true, false_iff]
    exact fun same => lengths (congrArg _ same)
  · rename_i lengths
    rw [decide_eq_true_iff, ctBytesEq_fold, zip_eq_iff (not_not.mp lengths)]
    simp

theorem asBytes_inj : asBytes a = asBytes b ↔ a = b := by
  constructor
  · intro same
    have bytes : (String.ofList a).toByteArray = (String.ofList b).toByteArray :=
      ByteArray.ext (Array.toList_inj.mp same)
    simpa using congrArg String.toList (String.toByteArray_inj.mp bytes)
  · rintro rfl
    rfl

theorem fromUtf8_asBytes (text : List Char) : fromUtf8 (asBytes text) = some text := by
  have bytes : (⟨(asBytes text).toArray⟩ : ByteArray) = (String.ofList text).toByteArray :=
    ByteArray.ext (by rw [asBytes, Array.toArray_toList])
  have decoded : String.fromUTF8? (String.ofList text).toByteArray = some (String.ofList text) :=
    dif_pos (String.ofList text).isValidUTF8
  rw [fromUtf8, bytes, decoded, map_some, String.toList_ofList]

theorem ScramState.stripGs2Header_eq_some :
    stripGs2Header msg = some bare ↔
      ∃ header, msg = header ++ bare ∧ (header = "n,,".toList ∨ header = "y,,".toList) := by
  constructor
  · intro stripped
    rw [stripGs2Header] at stripped
    split at stripped
    · rename_i starts
      cases stripped
      rcases Bool.or_eq_true_iff.mp starts with unbound | unused
      · obtain ⟨rest, rfl⟩ := List.isPrefixOf_iff_prefix.mp unbound
        exact ⟨_, rfl, .inl rfl⟩
      · obtain ⟨rest, rfl⟩ := List.isPrefixOf_iff_prefix.mp unused
        exact ⟨_, rfl, .inr rfl⟩
    · contradiction
  · rintro ⟨_, rfl, rfl | rfl⟩
    · rfl
    · rfl

/-- A handshake begins with a message that names a nonce, the first of them if there are several. -/
theorem ScramState.fromClientFirst_eq_some
    (begun : fromClientFirst crypto clientFirst password suffix salt = some state) :
    ∃ header bare clientNonce, fromUtf8 clientFirst = some (header ++ bare) ∧
      (header = "n,,".toList ∨ header = "y,,".toList) ∧
      (bare.splitOn ',').findSome? (Text.stripPrefix "r=".toList) = some clientNonce ∧
      state = ⟨clientNonce ++ suffix, "r=".toList ++ (clientNonce ++ suffix) ++ ",s=".toList ++
        crypto.encode salt ++ ",i=4096".toList, bare, crypto.hiSha256 (asBytes password) salt 4096⟩ := by
  obtain ⟨msg, decoded, begun⟩ := bind_eq_some_iff.mp begun
  obtain ⟨bare, stripped, begun⟩ := bind_eq_some_iff.mp begun
  obtain ⟨clientNonce, found, begun⟩ := bind_eq_some_iff.mp begun
  cases begun
  obtain ⟨header, rfl, unbound⟩ := stripGs2Header_eq_some.mp stripped
  exact ⟨header, bare, clientNonce, decoded, unbound, found, rfl⟩

theorem ScramState.validateClientFinal_eq_some {state : ScramState}
    (validated : state.validateClientFinal crypto clientFinal = some answer) :
    ∃ withoutProof proof64 clientProof,
      (fromUtf8 clientFinal).bind (Text.rsplitAt ",p=".toList) = some (withoutProof, proof64) ∧
      "r=".toList ++ state.nonce ∈ withoutProof.splitOn ',' ∧
      crypto.decode proof64 = some clientProof ∧ clientProof.length = 32 ∧
      crypto.sha256 (state.recoveredKey crypto clientProof withoutProof) = state.storedKey crypto ∧
      state.serverFinal crypto withoutProof = answer := by
  obtain ⟨msg, decoded, validated⟩ := bind_eq_some_iff.mp validated
  obtain ⟨⟨withoutProof, proof64⟩, parts, validated⟩ := bind_eq_some_iff.mp validated
  simp only at validated
  split at validated
  · rename_i repeated
    obtain ⟨clientProof, proof, validated⟩ := bind_eq_some_iff.mp validated
    split at validated
    · contradiction
    rename_i size
    split at validated
    · rename_i same
      cases validated
      exact ⟨withoutProof, proof64, clientProof, bind_eq_some_iff.mpr ⟨msg, decoded, parts⟩,
        repeated, proof, not_not.mp size, Vector.toList_inj.mp (ctBytesEq_iff.mp same), rfl⟩
    · contradiction
  · contradiction

/-! ### Runs -/

section Runs

variable {crypto : Crypto} {handler : StartupHandler} {username password : String}
  {client client' : ClientConnection} {events later : List (FrontendMessage × Draw)}

theorem Presented.append (presented : Presented crypto password events) :
    Presented crypto password (events ++ later) := by
  cases presented with
  | cleartext sent same => exact .cleartext (List.mem_append_left _ sent) same
  | scram opening closing proof =>
    rw [List.append_assoc, List.cons_append, List.append_assoc, List.cons_append]
    exact .scram opening closing proof

def Begun (crypto : Crypto) (password : String) (events : List (FrontendMessage × Draw))
    (state : ScramState) : Prop :=
  ∃ before first draw after data, events = before ++ (.passwordMessageFamily first, draw) :: after ∧
    first.intoSaslInitialResponse = some data ∧
    ScramState.fromClientFirst crypto (data.getD []) password.toList draw.nonce draw.salt = some state

theorem Begun.append (begun : Begun crypto password events state) :
    Begun crypto password (events ++ later) state := by
  obtain ⟨before, first, draw, after, data, rfl, opening, started⟩ := begun
  refine ⟨before, first, draw, after ++ later, data, ?_, opening, started⟩
  rw [List.append_assoc, List.cons_append]

/-- What the connection rests on. -/
structure Shown (crypto : Crypto) (password : String) (events : List (FrontendMessage × Draw))
    (client : ClientConnection) : Prop where
  handshake : ∀ state, client.scramState = some state → Begun crypto password events state
  presented : client.state = .readyForQuery → Presented crypto password events
  alive : client.state = .readyForQuery → client.closed = false

theorem Shown.append (shown : Shown crypto password events client) :
    Shown crypto password (events ++ later) client :=
  ⟨fun state found => (shown.handshake state found).append, fun ready => (shown.presented ready).append,
    shown.alive⟩

theorem Shown.keep (shown : Shown crypto password events client)
    (handshake : client'.scramState = client.scramState ∨ client'.scramState = none)
    (waiting : client'.state ≠ .readyForQuery) : Shown crypto password (events ++ later) client' := by
  refine ⟨fun state found => ?_, fun ready => absurd ready waiting, fun ready => absurd ready waiting⟩
  rcases handshake with same | dropped
  · exact (shown.handshake state (same ▸ found)).append
  · rw [dropped] at found
    contradiction

theorem Begun.presented (begun : Begun crypto password events state)
    (closing : body.intoSaslResponse = some response)
    (validated : state.validateClientFinal crypto response = some answer) :
    Presented crypto password (events ++ [(.passwordMessageFamily body, draw)]) := by
  obtain ⟨before, first, firstDraw, after, data, rfl, opening, started⟩ := begun
  obtain ⟨header, bare, clientNonce, decoded, bindings, found, rfl⟩ :=
    ScramState.fromClientFirst_eq_some started
  obtain ⟨part, member, named⟩ := List.exists_of_findSome?_eq_some found
  rw [Text.stripPrefix_eq_some.mp named] at member
  obtain ⟨withoutProof, proof64, clientProof, split, repeated, proof, size, stored, _⟩ :=
    ScramState.validateClientFinal_eq_some validated
  obtain ⟨msg, final, parts⟩ := bind_eq_some_iff.mp split
  rw [Text.rsplitAt_eq parts] at final
  rw [List.append_assoc, List.cons_append]
  exact .scram opening closing ⟨header, bare, clientNonce, withoutProof, proof64, clientProof, _,
    decoded, bindings, member, rfl, final, repeated, proof, size, stored⟩

section

variable (shown : Shown crypto password events client)
include shown

theorem Shown.startup
    (enabled : handler.auth.isEnabled = true) (waiting : client.state ≠ .readyForQuery)
    (parameters : String → Option String) :
    Shown crypto password (events ++ later) (handler.onStartupMessage client parameters) := by
  simp only [StartupHandler.onStartupMessage, enabled, Bool.not_true, Bool.false_eq_true, if_false]
  split
  · exact shown.keep (.inl rfl) waiting
  split
  · exact shown.keep (.inl rfl) nofun
  · split
    · exact shown.keep (.inl rfl) waiting
    · exact shown.keep (.inl rfl) nofun

theorem Shown.clientFirst
    (given : handler.auth.password = some password) (waiting : client.state ≠ .readyForQuery)
    (body : PasswordMessage) (draw : Draw) :
    Shown crypto password (events ++ [(.passwordMessageFamily body, draw)])
      (handler.onClientFirst crypto client body draw) := by
  simp only [StartupHandler.onClientFirst, given, getD_some]
  split
  · exact shown.keep (.inl rfl) waiting
  rename_i data opening
  split
  · rename_i state started
    refine ⟨fun state' found => ?_, fun ready => absurd ready waiting,
      fun ready => absurd ready waiting⟩
    cases found
    exact ⟨events, body, draw, [], data, rfl, opening, started⟩
  · exact shown.keep (.inl rfl) waiting

theorem Shown.clientFinal
    (waiting : client.state ≠ .readyForQuery) (alive : client.closed = false)
    (inProgress : client.scramState = some state) (body : PasswordMessage) (draw : Draw) :
    Shown crypto password (events ++ [(.passwordMessageFamily body, draw)])
      (StartupHandler.onClientFinal crypto client state body) := by
  simp only [StartupHandler.onClientFinal]
  split
  · exact shown.keep (.inr rfl) waiting
  rename_i response closing
  split
  · rename_i answer validated
    have begun := shown.handshake state inProgress
    exact ⟨nofun, fun _ => begun.presented closing validated, fun _ => alive⟩
  · exact shown.keep (.inr rfl) waiting

theorem Shown.cleartext
    (given : handler.auth.password = some password) (waiting : client.state ≠ .readyForQuery)
    (alive : client.closed = false) (body : PasswordMessage) (draw : Draw)
    (answered : handler.onPassword client body = some client') :
    Shown crypto password (events ++ [(.passwordMessageFamily body, draw)]) client' := by
  obtain ⟨text, sent, rfl⟩ := map_eq_some_iff.mp answered
  simp only [given, getD_some]
  split
  · rename_i same
    have equal : text = password := String.toList_inj.mp (asBytes_inj.mp (ctBytesEq_iff.mp same))
    refine ⟨fun state found => (shown.handshake state found).append, fun _ => ?_, fun _ => alive⟩
    exact .cleartext (List.mem_append_right _ (List.mem_singleton_self _)) (equal ▸ sent)
  · exact shown.keep (.inl rfl) waiting

theorem Shown.serve
    (enabled : handler.auth.isEnabled = true) (given : handler.auth.password = some password)
    (event : FrontendMessage × Draw) :
    Shown crypto password (events ++ [event]) (handler.serve crypto client event) := by
  obtain ⟨message, draw⟩ := event
  simp only [StartupHandler.serve]
  split
  · exact shown.append
  rename_i pending
  simp only [Bool.or_eq_true, decide_eq_true_eq, not_or, Bool.not_eq_true] at pending
  obtain ⟨alive, waiting⟩ := pending
  cases message with
  | startup parameters => exact shown.startup enabled waiting parameters
  | other => exact shown.append
  | passwordMessageFamily body =>
    simp only [StartupHandler.onStartup, enabled, if_true]
    split
    · split
      · exact shown.clientFirst given waiting body draw
      · rename_i state inProgress
        exact shown.clientFinal waiting alive inProgress body draw
    · cases answered : handler.onPassword client body with
      | none => exact shown.append
      | some client' => exact shown.cleartext given waiting alive body draw answered

end

theorem Shown.run (enabled : handler.auth.isEnabled = true)
    (given : handler.auth.password = some password) (secure : Bool)
    (events : List (FrontendMessage × Draw)) :
    Shown crypto password events (handler.run crypto secure events) := by
  induction events using List.reverseRecOn with
  | nil => exact ⟨nofun, nofun, nofun⟩
  | append_singleton events event ih =>
    rw [StartupHandler.run, List.foldl_append, List.foldl_cons, List.foldl_nil]
    exact ih.serve enabled given event

def Names (username : String) (events : List (FrontendMessage × Draw)) : Prop :=
  ∀ parameters draw, (.startup parameters, draw) ∈ events → parameters "user" = some username

/-- A startup message that is not refused is the one of the user, except that the SCRAM path does
not look at the name. -/
theorem StartupHandler.onStartupMessage_user (enabled : handler.auth.isEnabled = true)
    (given : handler.auth.username = some username)
    (named : handler.auth.scramSha256 = false ∨ parameters "user" = some username) :
    (handler.onStartupMessage client parameters).closed = true ∨
      (handler.onStartupMessage client parameters).user = username := by
  simp only [onStartupMessage, enabled, Bool.not_true, Bool.false_eq_true, if_false]
  split
  · exact .inl rfl
  split
  · rename_i scram
    rw [scram] at named
    have same : parameters "user" = some username := named.resolve_left nofun
    refine .inr ?_
    simp [ClientConnection.user, ClientConnection.send, ClientConnection.saveStartupParameters, same]
  · split
    · exact .inl rfl
    · rename_i same
      rw [given, getD_some, not_not] at same
      exact .inr same

theorem StartupHandler.onStartup_user
    (answered : handler.onStartup crypto client draw (.passwordMessageFamily body) = some client') :
    client'.user = client.user := by
  have kept : client'.metadata = client.metadata := by
    simp only [onStartup] at answered
    split at answered
    · split at answered
      · split at answered
        · cases answered
          simp only [onClientFirst]
          split
          · rfl
          · split <;> rfl
        · cases answered
          simp only [onClientFinal]
          split
          · rfl
          · split <;> rfl
      · obtain ⟨text, _, rfl⟩ := map_eq_some_iff.mp answered
        split <;> rfl
    · cases answered
      rfl
  rw [ClientConnection.user, ClientConnection.user, kept]

theorem StartupHandler.serve_user (enabled : handler.auth.isEnabled = true)
    (given : handler.auth.username = some username)
    (named : handler.auth.scramSha256 = false ∨ Names username [event])
    (before : client.closed = true ∨ client.user = username) :
    (handler.serve crypto client event).closed = true ∨
      (handler.serve crypto client event).user = username := by
  obtain ⟨message, draw⟩ := event
  simp only [serve]
  split
  · exact before
  cases message with
  | startup parameters =>
    refine onStartupMessage_user enabled given ?_
    exact named.imp_right fun names => names parameters draw List.mem_cons_self
  | other => exact before
  | passwordMessageFamily body =>
    cases answered : handler.onStartup crypto client draw (.passwordMessageFamily body) with
    | none => exact before
    | some client' =>
      rename_i pending
      simp only [Bool.or_eq_true, not_or, Bool.not_eq_true] at pending
      refine .inr ((onStartup_user answered).trans (before.resolve_left ?_))
      simp [pending.1]

theorem StartupHandler.run_user (enabled : handler.auth.isEnabled = true)
    (given : handler.auth.username = some username) (secure : Bool)
    (named : handler.auth.scramSha256 = false ∨ Names username ((.startup parameters, draw) :: rest)) :
    (handler.run crypto secure ((.startup parameters, draw) :: rest)).closed = true ∨
      (handler.run crypto secure ((.startup parameters, draw) :: rest)).user = username := by
  induction rest using List.reverseRecOn with
  | nil =>
    refine onStartupMessage_user enabled given ?_
    exact named.imp_right fun names => names parameters draw List.mem_cons_self
  | append_singleton rest event ih =>
    rw [← List.cons_append] at named ⊢
    rw [run, List.foldl_append, List.foldl_cons, List.foldl_nil]
    refine serve_user enabled given (named.imp_right fun names p d member => ?_) (ih ?_)
    · exact names p d (List.mem_append_right _ member)
    · exact named.imp_right fun names p d member => names p d (List.mem_append_left _ member)

end Runs

/-! ### A client that knows the password -/

theorem zipWith_xor_cancel {a b : List UInt8} (lengths : a.length = b.length) :
    List.zipWith (· ^^^ ·) (List.zipWith (· ^^^ ·) a b) b = a := by
  induction a generalizing b with
  | nil => rfl
  | cons x a ih =>
    cases b with
    | nil => contradiction
    | cons y b =>
      simp only [List.zipWith_cons_cons, ih (Nat.succ.inj lengths), UInt8.xor_assoc, UInt8.xor_self, UInt8.xor_zero]

/-- What a proof needs of base64: keys decode to themselves, and encodings hold no comma. -/
structure Crypto.Transparent (crypto : Crypto) : Prop where
  decodes : ∀ key : Vector UInt8 32, crypto.decode (crypto.encode key.toList) = some key.toList
  plain : ∀ bytes, ',' ∉ crypto.encode bytes

namespace ScramState

variable {crypto : Crypto} (state : ScramState)

def clientProof (crypto : Crypto) (withoutProof : List Char) : Vector UInt8 32 :=
  Vector.zipWith (· ^^^ ·) (state.clientKey crypto) (state.clientSignature crypto withoutProof)

theorem recoveredKey_clientProof (withoutProof : List Char) :
    state.recoveredKey crypto (state.clientProof crypto withoutProof).toList withoutProof =
      (state.clientKey crypto).toList := by
  have lengths : (state.clientKey crypto).toList.length =
      (state.clientSignature crypto withoutProof).toList.length := by simp
  rw [recoveredKey, clientProof, Vector.toList_zipWith, zipWith_xor_cancel lengths]

theorem validateClientFinal_proof (transparent : crypto.Transparent)
    (repeated : "r=".toList ++ state.nonce ∈ withoutProof.splitOn ',') (proof : Vector UInt8 32) :
    state.validateClientFinal crypto (asBytes (withoutProof ++ ',' :: ("p=".toList ++
      crypto.encode proof.toList))) =
        if crypto.sha256 (state.recoveredKey crypto proof.toList withoutProof) = state.storedKey crypto then
          some (state.serverFinal crypto withoutProof) else none := by
  have parts : Text.rsplitAt ",p=".toList (withoutProof ++ ',' :: ("p=".toList ++
      crypto.encode proof.toList)) = some (withoutProof, crypto.encode proof.toList) :=
    Text.rsplitAt_append (by decide) (transparent.plain _)
  have size : proof.toList.length = 32 := by simp
  simp only [validateClientFinal, fromUtf8_asBytes, parts, bind_eq_bind, bind_some,
    repeated, if_true, transparent.decodes, size, ne_eq, not_true_eq_false, if_false, ctBytesEq_iff,
    Vector.toList_inj]

theorem validateClientFinal_clientProof (transparent : crypto.Transparent)
    (repeated : "r=".toList ++ state.nonce ∈ withoutProof.splitOn ',') :
    state.validateClientFinal crypto (asBytes (withoutProof ++ ',' :: ("p=".toList ++
      crypto.encode (state.clientProof crypto withoutProof).toList))) =
        some (state.serverFinal crypto withoutProof) := by
  have same : crypto.sha256 (state.recoveredKey crypto (state.clientProof crypto withoutProof).toList
      withoutProof) = state.storedKey crypto := by
    rw [recoveredKey_clientProof, storedKey]
  rw [state.validateClientFinal_proof transparent repeated, if_pos same]

end ScramState

/-- The handshake state after the client-first-message `n,,r=x` and empty draws. -/
def handshakeOf (crypto : Crypto) (password : String) : ScramState :=
  ⟨['x'], "r=x,s=".toList ++ crypto.encode [] ++ ",i=4096".toList, "r=x".toList,
    crypto.hiSha256 (asBytes password.toList) [] ScramState.iterations⟩

theorem fromClientFirst_handshakeOf (crypto : Crypto) (password : String) :
    ScramState.fromClientFirst crypto (asBytes "n,,r=x".toList) password.toList [] [] =
      some (handshakeOf crypto password) := by
  simp only [ScramState.fromClientFirst, ScramState.fromClientFirstAt, fromUtf8_asBytes, bind_eq_bind, bind_some]
  rfl

/-- The messages of a client that knows the password, under a name of its own choice. -/
def handshakeMessages (crypto : Crypto) (password name : String) : List FrontendMessage :=
  let final := "c=biws,r=x".toList ++ ',' :: ("p=".toList ++ crypto.encode
    ((handshakeOf crypto password).clientProof crypto "c=biws,r=x".toList).toList)
  [.startup fun key => if key = "user" then some name else none,
   .passwordMessageFamily ⟨none, some (some (asBytes "n,,r=x".toList)), none⟩,
   .passwordMessageFamily ⟨none, none, some (asBytes final)⟩]

theorem scram_any_user (transparent : crypto.Transparent) (username password : String)
    (admitted : (tlsRequired && !secure) = false) (name : String) :
    let client := StartupHandler.run crypto ⟨⟨some username, some password, true⟩, tlsRequired⟩ secure
      ((handshakeMessages crypto password name).map fun message => (message, ⟨[], []⟩))
    client.state = .readyForQuery ∧ client.user = name := by
  have nonce : "r=".toList ++ (handshakeOf crypto password).nonce ∈ "c=biws,r=x".toList.splitOn ',' := by
    simp only [handshakeOf]
    decide
  have valid := ScramState.validateClientFinal_clientProof _ transparent nonce
  have started : ∀ message, StartupHandler.serve crypto
      ⟨⟨some username, some password, true⟩, tlsRequired⟩ (.opened secure) (.startup message, ⟨[], []⟩) =
        ⟨.authenticationInProgress, secure, fun key => (message key).or none, none, false,
          [.sasl ["SCRAM-SHA-256"]]⟩ := fun message => by
    simp only [StartupHandler.serve, StartupHandler.onStartup, StartupHandler.onStartupMessage,
      ClientConnection.opened, admitted]
    rfl
  have continued : ∀ metadata sent bytes state,
      ScramState.fromClientFirst crypto bytes password.toList [] [] = some state →
      StartupHandler.serve crypto ⟨⟨some username, some password, true⟩, tlsRequired⟩
        ⟨.authenticationInProgress, secure, metadata, none, false, sent⟩
        (.passwordMessageFamily ⟨none, some (some bytes), none⟩, ⟨[], []⟩) =
          ⟨.authenticationInProgress, secure, metadata, some state, false,
            sent ++ [.saslContinue (asBytes state.serverFirst)]⟩ :=
      fun metadata sent bytes state begun => by
    simp [StartupHandler.serve, StartupHandler.onStartup, AuthConfig.isEnabled,
      StartupHandler.onClientFirst, begun, ClientConnection.send]
  have finished : ∀ metadata sent state response answer,
      ScramState.validateClientFinal crypto state response = some answer →
      StartupHandler.serve crypto ⟨⟨some username, some password, true⟩, tlsRequired⟩
        ⟨.authenticationInProgress, secure, metadata, some state, false, sent⟩
        (.passwordMessageFamily ⟨none, none, some response⟩, ⟨[], []⟩) =
          ⟨.readyForQuery, secure, metadata, none, false,
            sent ++ [.saslFinal answer] ++ [.authenticationOk]⟩ :=
      fun metadata sent state response answer validated => by
    simp [StartupHandler.serve, StartupHandler.onStartup, AuthConfig.isEnabled,
      StartupHandler.onClientFinal, validated, ClientConnection.send, ClientConnection.finishAuthentication]
  simp only [handshakeMessages, List.map_cons, List.map_nil, StartupHandler.run, List.foldl_cons,
    List.foldl_nil, started, continued _ _ _ _ (fromClientFirst_handshakeOf crypto password),
    finished _ _ _ _ _ valid, ClientConnection.user]
  exact ⟨trivial, rfl⟩

theorem StartupHandler.foldl_closed {handler : StartupHandler} (closed : client.closed = true)
    (events : List (FrontendMessage × Draw)) :
    events.foldl (handler.serve crypto) client = client := by
  induction events with
  | nil => rfl
  | cons event events ih =>
    have unchanged : handler.serve crypto client event = client := by simp [serve, closed]
    rw [List.foldl_cons, unchanged, ih]

/-- Authenticated only for the configured user, and only with the password shown. -/
def Authenticates (crypto : Crypto) (username password : String)
    (events : List (FrontendMessage × Draw)) (client : ClientConnection) : Prop :=
  client.state = .readyForQuery → client.user = username ∧ Presented crypto password events

theorem run_authenticates
    (named : scramSha256 = false ∨ Names username ((.startup parameters, draw) :: rest)) :
    Authenticates crypto username password ((.startup parameters, draw) :: rest)
      (StartupHandler.run crypto ⟨⟨some username, some password, scramSha256⟩, tlsRequired⟩ secure
        ((.startup parameters, draw) :: rest)) := by
  intro ready
  have shown := @Shown.run crypto ⟨⟨some username, some password, scramSha256⟩, tlsRequired⟩ password
    rfl rfl secure ((.startup parameters, draw) :: rest)
  refine ⟨?_, shown.presented ready⟩
  refine (StartupHandler.run_user rfl rfl secure named).resolve_left ?_
  rw [shown.alive ready]
  exact Bool.false_ne_true

/-- A connection is authenticated only for the configured user and with the password shown, on the
cleartext path always and on the SCRAM path if the client gives the right name: there the handler
does not look at it, and a client that knows the password is let in under every other name. -/
theorem authentication_sound (crypto : Crypto) (username password : String)
    (scramSha256 tlsRequired secure : Bool) :
    (∀ parameters draw rest,
      scramSha256 = false ∨ Names username ((.startup parameters, draw) :: rest) →
      Authenticates crypto username password ((.startup parameters, draw) :: rest)
        (StartupHandler.run crypto ⟨⟨some username, some password, scramSha256⟩, tlsRequired⟩ secure
          ((.startup parameters, draw) :: rest))) ∧
    (crypto.Transparent → ∀ name,
      ((∀ parameters draw rest, Names name ((.startup parameters, draw) :: rest) →
        Authenticates crypto username password ((.startup parameters, draw) :: rest)
          (StartupHandler.run crypto ⟨⟨some username, some password, scramSha256⟩, tlsRequired⟩ secure
            ((.startup parameters, draw) :: rest))) ↔
        scramSha256 = false ∨ name = username ∨ (tlsRequired && !secure) = true)) := by
  refine ⟨fun parameters draw rest => run_authenticates, fun transparent name => ⟨fun sound => ?_, ?_⟩⟩
  · by_contra other
    simp only [not_or, Bool.not_eq_false, Bool.not_eq_true] at other
    obtain ⟨rfl, different, admitted⟩ := other
    obtain ⟨ready, called⟩ := scram_any_user transparent username password admitted name
    refine different (called.symm.trans (sound _ _ _ (fun parameters draw member => ?_) ready).1)
    rcases List.mem_cons.mp member with same | member
    · cases same
      rfl
    · simp at member
  · rintro (cleartext | rfl | refused) parameters draw rest named
    · exact run_authenticates (.inl cleartext)
    · exact run_authenticates (.inr named)
    · intro ready
      have closed : StartupHandler.serve crypto
          ⟨⟨some username, some password, scramSha256⟩, tlsRequired⟩ (.opened secure)
            (.startup parameters, draw) = ClientConnection.sendError (.opened secure) "28000"
              "SSL connection is required. Connect using SSL/TLS." := by
        simp only [StartupHandler.serve, StartupHandler.onStartup, StartupHandler.onStartupMessage,
          ClientConnection.opened, refused]
        rfl
      rw [StartupHandler.run, List.foldl_cons, closed, StartupHandler.foldl_closed rfl] at ready
      contradiction

/-- Stand-ins for the library functions that can be evaluated. -/
def Crypto.sample : Crypto where
  hiSha256 password _ _ := Vector.ofFn fun i => password.getD i 0
  hmacSha256 key data := Vector.ofFn fun i => key.getD i 0 ^^^ data.getD i 0
  sha256 data := Vector.ofFn fun i => data.getD i 0 + 1
  encode bytes := bytes.map fun b => Char.ofNat (256 + b.toNat)
  decode text := some (text.map fun c => UInt8.ofNat (c.toNat - 256))

theorem Crypto.sample_code (b : UInt8) : (Char.ofNat (256 + b.toNat)).toNat = 256 + b.toNat := by
  have small := b.toNat_lt
  have valid : (256 + b.toNat).isValidChar := .inl (by omega)
  rw [Char.ofNat, dif_pos valid]
  rfl

theorem Crypto.sample_transparent : Crypto.sample.Transparent := by
  refine ⟨fun key => ?_, fun bytes member => ?_⟩
  · simp [Crypto.sample, Function.comp_def, Crypto.sample_code]
  obtain ⟨b, _, same⟩ := List.mem_map.mp member
  have number := congrArg Char.toNat same
  rw [Crypto.sample_code] at number
  have comma : ','.toNat = 44 := rfl
  omega

/-- SCRAM-SHA-256 for the user `alice`: a client that calls itself `mallory` is authenticated. -/
theorem scram_accepts_other_user : ∃ (crypto : Crypto) (events : List (FrontendMessage × Draw))
    (parameters : String → Option String) (draw : Draw),
    events.head? = some (.startup parameters, draw) ∧ parameters "user" = some "mallory" ∧
    (StartupHandler.run crypto ⟨⟨some "alice", some "secret", true⟩, true⟩ true events).state =
      .readyForQuery ∧
    (StartupHandler.run crypto ⟨⟨some "alice", some "secret", true⟩, true⟩ true events).user =
      "mallory" := by
  have admitted : (true && !true) = false := rfl
  obtain ⟨ready, called⟩ := scram_any_user Crypto.sample_transparent "alice" "secret" admitted "mallory"
  exact ⟨Crypto.sample, _, _, _, rfl, rfl, ready, called⟩

end RockLake
