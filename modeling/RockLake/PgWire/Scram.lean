import RockLake.PgWire.Authentication

/-! The two sides of a SCRAM-SHA-256 exchange. A client as RFC 5802 describes it is modelled beside the
server: it prepares its password, reads the challenge and computes its proof and the signature that it
expects. The checks that the RFC asks of a server are stated on the messages exchanged. -/
namespace RockLake

open Option Crypto ScramState Text

/-- What is assumed of base64: it is read back, and its alphabet has no comma. -/
structure Crypto.Base64 (crypto : Crypto) : Prop where
  roundTrip : ∀ bytes, crypto.decode (crypto.encode bytes) = some bytes
  alphabet : ∀ bytes, ',' ∉ crypto.encode bytes

theorem Crypto.Base64.transparent {crypto : Crypto} (base64 : crypto.Base64) : crypto.Transparent :=
  ⟨fun key => base64.roundTrip key.toList, base64.alphabet⟩

/-! ### The client -/

/-- A client of RFC 5802 without channel binding. No part of its first message has a comma in it. -/
structure ScramClient where
  header : List Char
  unbound : header = "n,,".toList ∨ header = "y,,".toList
  username : List Char
  usernameFree : ',' ∉ username
  nonce : List Char
  nonceFree : ',' ∉ nonce
  extensions : List (List Char)
  extensionsFree : ∀ extension ∈ extensions, ',' ∉ extension

/-- The challenge of the server. -/
structure ServerFirst where
  nonce : List Char
  salt : List UInt8
  iterations : Nat

def ServerFirst.read (crypto : Crypto) (message : List Char) : Option ServerFirst :=
  match message.splitOn ',' with
  | nonce :: salt :: iterations :: _ => do
      let nonce ← Text.stripPrefix "r=".toList nonce
      let salt ← (Text.stripPrefix "s=".toList salt).bind crypto.decode
      let iterations ← (Text.stripPrefix "i=".toList iterations).bind Text.parseDigits
      some { nonce, salt, iterations }
  | _ => none

namespace ScramClient

variable (client : ScramClient) (crypto : Crypto)

def clientFirstBare : List Char :=
  [','].intercalate (("n=".toList ++ client.username) :: ("r=".toList ++ client.nonce) :: client.extensions)

def clientFirst : List Char := client.header ++ client.clientFirstBare

def clientFinalWithoutProof (nonce : List Char) : List Char :=
  [','].intercalate ["c=".toList ++ crypto.encode (asBytes client.header), "r=".toList ++ nonce]

/-- The final message of the client and the answer it expects, for a prepared password. -/
def respond (password serverFirst : List Char) : Option (List Char × List Char) := do
  let challenge ← ServerFirst.read crypto serverFirst
  if client.nonce.isPrefixOf challenge.nonce then
    let saltedPassword := crypto.hiSha256 (asBytes password) challenge.salt challenge.iterations
    let clientKey := crypto.hmacSha256 saltedPassword.toList (asBytes "Client Key".toList)
    let storedKey := crypto.sha256 clientKey.toList
    let withoutProof := client.clientFinalWithoutProof crypto challenge.nonce
    let authMessage := asBytes (client.clientFirstBare ++ [','] ++ serverFirst ++ [','] ++ withoutProof)
    let clientSignature := crypto.hmacSha256 storedKey.toList authMessage
    let clientProof := Vector.zipWith (· ^^^ ·) clientKey clientSignature
    let serverKey := crypto.hmacSha256 saltedPassword.toList (asBytes "Server Key".toList)
    let serverSignature := crypto.hmacSha256 serverKey.toList authMessage
    some (withoutProof ++ ",p=".toList ++ crypto.encode clientProof.toList,
      "v=".toList ++ crypto.encode serverSignature.toList)
  else none

end ScramClient

/-- The exchange of a client that has the password of the server goes through: its proof is accepted,
and the answer is the one it expects. The client prepares the password before it uses it. -/
def ScramCompletes (crypto : Crypto) (normalize : List Char → List Char) (password : List Char)
    (client : ScramClient) (suffix : List Char) (salt : List UInt8) (iterations : Nat) : Prop :=
  ∃ state final signature,
    ScramState.fromClientFirstAt crypto iterations (asBytes client.clientFirst) password suffix salt =
      some state ∧
    client.respond crypto (normalize password) state.serverFirst = some (final, signature) ∧
    state.validateClientFinal crypto (asBytes final) = some (asBytes signature)

section Exchange

variable {crypto : Crypto} (base64 : crypto.Base64) (client : ScramClient) {suffix : List Char}
  (suffixFree : ',' ∉ suffix) (salt : List UInt8) (iterations : Nat)

def ScramClient.begun (crypto : Crypto) (password suffix : List Char) (salt : List UInt8)
    (iterations : Nat) : ScramState :=
  ⟨client.nonce ++ suffix, "r=".toList ++ (client.nonce ++ suffix) ++ ",s=".toList ++
    crypto.encode salt ++ (",i=".toList ++ Nat.toDigits 10 iterations), client.clientFirstBare,
    crypto.hiSha256 (asBytes password) salt iterations⟩

theorem ScramClient.splitOn_clientFirstBare :
    client.clientFirstBare.splitOn ',' =
      ("n=".toList ++ client.username) :: ("r=".toList ++ client.nonce) :: client.extensions := by
  refine List.splitOn_intercalate ',' ?_ (List.cons_ne_nil _ _)
  simp only [List.forall_mem_cons, List.mem_append, not_or]
  exact ⟨⟨by decide, client.usernameFree⟩, ⟨by decide, client.nonceFree⟩, client.extensionsFree⟩

theorem ScramClient.fromClientFirstAt_eq (password : List Char) :
    ScramState.fromClientFirstAt crypto iterations (asBytes client.clientFirst) password suffix salt =
      some (client.begun crypto password suffix salt iterations) := by
  have header : ScramState.stripGs2Header client.clientFirst = some client.clientFirstBare :=
    stripGs2Header_eq_some.mpr ⟨client.header, rfl, client.unbound⟩
  have name : Text.stripPrefix "r=".toList ("n=".toList ++ client.username) = none := rfl
  have nonce : Text.stripPrefix "r=".toList ("r=".toList ++ client.nonce) = some client.nonce :=
    stripPrefix_eq_some.mpr rfl
  simp only [ScramState.fromClientFirstAt, fromUtf8_asBytes, bind_eq_bind, bind_some,
    header, client.splitOn_clientFirstBare, List.findSome?_cons, name, nonce, begun]

include base64 suffixFree in
theorem ScramClient.read_serverFirst (password : List Char) :
    ServerFirst.read crypto (client.begun crypto password suffix salt iterations).serverFirst =
      some ⟨client.nonce ++ suffix, salt, iterations⟩ := by
  have digits : ',' ∉ Nat.toDigits 10 iterations := by
    intro member
    have digit := Nat.isDigit_of_mem_toDigits (by decide) (by decide) member
    contradiction
  have parts : (client.begun crypto password suffix salt iterations).serverFirst.splitOn ',' =
      ["r=".toList ++ (client.nonce ++ suffix), "s=".toList ++ crypto.encode salt,
        "i=".toList ++ Nat.toDigits 10 iterations] := by
    have joined : (client.begun crypto password suffix salt iterations).serverFirst =
        [','].intercalate ["r=".toList ++ (client.nonce ++ suffix), "s=".toList ++ crypto.encode salt,
          "i=".toList ++ Nat.toDigits 10 iterations] := by
      simp [begun, List.intercalate]
    rw [joined]
    refine List.splitOn_intercalate ',' ?_ (List.cons_ne_nil _ _)
    simp only [List.forall_mem_cons, List.mem_append, not_or, List.not_mem_nil, false_imp_iff,
      implies_true, and_true]
    exact ⟨⟨by decide, client.nonceFree, suffixFree⟩, ⟨by decide, base64.alphabet salt⟩,
      ⟨by decide, digits⟩⟩
  have strip : ∀ start rest : List Char, Text.stripPrefix start (start ++ rest) = some rest :=
    fun start rest => stripPrefix_eq_some.mpr rfl
  simp only [ServerFirst.read, parts, strip, bind_eq_bind, bind_some,
    base64.roundTrip, parseDigits_toDigits]

include base64 suffixFree in
theorem ScramClient.splitOn_clientFinalWithoutProof :
    (client.clientFinalWithoutProof crypto (client.nonce ++ suffix)).splitOn ',' =
      ["c=".toList ++ crypto.encode (asBytes client.header), "r=".toList ++ (client.nonce ++ suffix)] := by
  refine List.splitOn_intercalate ',' ?_ (List.cons_ne_nil _ _)
  simp only [List.forall_mem_cons, List.mem_append, not_or, List.not_mem_nil, false_imp_iff,
    implies_true, and_true]
  exact ⟨⟨by decide, base64.alphabet _⟩, by decide, client.nonceFree, suffixFree⟩

include base64 suffixFree in
/-- The client proves the key that the server would have for the prepared password. -/
theorem ScramClient.respond_eq (password prepared : List Char) :
    let withoutProof := client.clientFinalWithoutProof crypto (client.nonce ++ suffix)
    ∃ signature, client.respond crypto prepared
        (client.begun crypto password suffix salt iterations).serverFirst =
      some (withoutProof ++ ',' :: ("p=".toList ++ crypto.encode
        ((client.begun crypto prepared suffix salt iterations).clientProof crypto withoutProof).toList),
        signature) ∧
      asBytes signature = (client.begun crypto prepared suffix salt iterations).serverFinal crypto
        withoutProof := by
  have challenge := client.read_serverFirst base64 suffixFree salt iterations password
  have own : client.nonce.isPrefixOf (client.nonce ++ suffix) = true :=
    List.isPrefixOf_iff_prefix.mpr (List.prefix_append _ _)
  simp only [respond, challenge, bind_eq_bind, bind_some, own, if_true]
  exact ⟨_, congrArg some (Prod.ext (List.append_assoc _ _ _) rfl), rfl⟩

include base64 suffixFree in
theorem scramCompletes_of_prepared {normalize : List Char → List Char}
    (prepared : normalize password = password) :
    ScramCompletes crypto normalize password client suffix salt iterations := by
  obtain ⟨signature, response, expected⟩ :=
    client.respond_eq base64 suffixFree salt iterations password password
  rw [ScramCompletes, prepared]
  refine ⟨_, _, signature, client.fromClientFirstAt_eq salt iterations password, response, ?_⟩
  rw [expected]
  refine validateClientFinal_clientProof _ base64.transparent ?_
  rw [client.splitOn_clientFinalWithoutProof base64 suffixFree]
  exact List.mem_cons_of_mem _ List.mem_cons_self

end Exchange

/-- Stand-ins for the library functions that tell one password from every other. Keys repeat one byte. -/
def Crypto.separating (password : List Char) : Crypto where
  hiSha256 input _ _ := Vector.replicate 32 (if input = asBytes password then 0 else 1)
  hmacSha256 key data := Vector.replicate 32 (if data = asBytes "Client Key".toList then key.headD 0 else 0)
  sha256 data := Vector.replicate 32 (data.headD 0)
  encode := Crypto.sample.encode
  decode := Crypto.sample.decode

theorem Crypto.sample_base64 : Crypto.sample.Base64 := by
  refine ⟨fun bytes => ?_, sample_transparent.plain⟩
  simp [sample, Function.comp_def, sample_code]

theorem Crypto.separating_base64 (password : List Char) : (Crypto.separating password).Base64 :=
  ⟨sample_base64.roundTrip, sample_base64.alphabet⟩

section Separating

variable {password : List Char} {state : ScramState} {byte : UInt8}

theorem Crypto.separating_keys (salted : state.saltedPassword = Vector.replicate 32 byte) :
    state.clientKey (Crypto.separating password) = Vector.replicate 32 byte ∧
      state.storedKey (Crypto.separating password) = Vector.replicate 32 byte := by
  have key : state.clientKey (separating password) = Vector.replicate 32 byte := by
    rw [ScramState.clientKey, salted]
    exact congrArg (Vector.replicate 32) (if_pos rfl)
  refine ⟨key, ?_⟩
  rw [ScramState.storedKey, key]
  rfl

theorem Crypto.separating_signature (withoutProof : List Char) :
    state.clientSignature (Crypto.separating password) withoutProof = Vector.replicate 32 0 := by
  have other : asBytes (state.authMessage withoutProof) ≠ asBytes "Client Key".toList := by
    intro same
    have comma : ',' ∈ state.authMessage withoutProof := by simp [ScramState.authMessage]
    rw [asBytes_inj.mp same] at comma
    contradiction
  exact congrArg (Vector.replicate 32) (if_neg other)

theorem Crypto.separating_clientProof (salted : state.saltedPassword = Vector.replicate 32 byte)
    (withoutProof : List Char) :
    state.clientProof (Crypto.separating password) withoutProof = Vector.replicate 32 byte := by
  rw [ScramState.clientProof, (separating_keys salted).1, separating_signature]
  ext i bound
  simp

theorem Crypto.separating_recovered (withoutProof : List Char) :
    (Crypto.separating password).sha256 (state.recoveredKey (Crypto.separating password)
      (Vector.replicate 32 byte).toList withoutProof) = Vector.replicate 32 byte := by
  have same : List.zipWith (· ^^^ ·) (List.replicate 32 byte) (List.replicate 32 0) =
      List.replicate 32 byte := by
    simp
  rw [ScramState.recoveredKey, separating_signature, Vector.toList_replicate, Vector.toList_replicate, same]
  rfl

end Separating

theorem ScramClient.refused (client : ScramClient) {normalize : List Char → List Char}
    (changed : normalize password ≠ password) (suffixFree : ',' ∉ suffix) (salt : List UInt8)
    (iterations : Nat) :
    ¬ ScramCompletes (.separating password) normalize password client suffix salt iterations := by
  rintro ⟨state, final, signature, begun, response, accepted⟩
  have base64 := separating_base64 password
  rw [client.fromClientFirstAt_eq] at begun
  cases begun
  obtain ⟨_, sent, _⟩ := client.respond_eq base64 suffixFree salt iterations password (normalize password)
  rw [response] at sent
  cases sent
  have repeated : "r=".toList ++ (client.nonce ++ suffix) ∈
      (client.clientFinalWithoutProof (.separating password) (client.nonce ++ suffix)).splitOn ',' := by
    rw [client.splitOn_clientFinalWithoutProof base64 suffixFree]
    exact List.mem_cons_of_mem _ List.mem_cons_self
  rw [validateClientFinal_proof _ base64.transparent repeated] at accepted
  split at accepted
  · rename_i stored
    have other : asBytes (normalize password) ≠ asBytes password := mt asBytes_inj.mp changed
    have salted : (client.begun (.separating password) password suffix salt iterations).saltedPassword =
        Vector.replicate 32 0 := congrArg (Vector.replicate 32) (if_pos rfl)
    have salted' : (client.begun (.separating password) (normalize password) suffix salt
        iterations).saltedPassword = Vector.replicate 32 1 := congrArg (Vector.replicate 32) (if_neg other)
    rw [separating_clientProof salted', separating_recovered,
      (separating_keys salted).2] at stored
    exact absurd (congrArg (fun key : Vector UInt8 32 => key[0]) stored) (by decide)
  · contradiction

def ScramClient.plain : ScramClient := ⟨"n,,".toList, .inl rfl, [], nofun, [], nofun, [], nofun⟩

/-- Every exchange of a client with the server's password goes through, whatever the cryptography, if
the client's preparation leaves the password as it is, and not otherwise. -/
theorem scramCompletes_iff (normalize : List Char → List Char) (password : List Char) :
    (∀ crypto : Crypto, crypto.Base64 → ∀ (client : ScramClient) (suffix : List Char), ',' ∉ suffix →
      ∀ (salt : List UInt8) (iterations : Nat),
        ScramCompletes crypto normalize password client suffix salt iterations) ↔
      normalize password = password := by
  constructor
  · intro completes
    by_contra changed
    exact ScramClient.plain.refused changed List.not_mem_nil [] 4096
      (completes _ (separating_base64 password) .plain [] List.not_mem_nil [] 4096)
  · intro prepared crypto base64 client suffix suffixFree salt iterations
    exact scramCompletes_of_prepared base64 client suffixFree salt iterations prepared

/-- The part of SASLprep that turns a no-break space into a space. -/
def mapSpaces (text : List Char) : List Char := text.map fun c => if c = '\u00a0' then ' ' else c

/-- The password is one no-break space, and the client prepares it as RFC 5802 asks. -/
theorem scram_refuses_prepared :
    ¬ ScramCompletes (.separating ['\u00a0']) mapSpaces ['\u00a0'] .plain [] [] 4096 :=
  ScramClient.plain.refused (by decide) List.not_mem_nil [] 4096

/-! ### The checks of a server -/

def attributes (name : String) (message : List Char) : List (List Char) :=
  (message.splitOn ',').filterMap (Text.stripPrefix (name.toList ++ ['=']))

/-- The first message opens a handshake in which the second is accepted. -/
def ScramAccepts (crypto : Crypto) (password : String) (draw : Draw)
    (clientFirst clientFinal : List UInt8) : Prop :=
  ∃ state answer,
    ScramState.fromClientFirst crypto clientFirst password.toList draw.nonce draw.salt = some state ∧
    state.validateClientFinal crypto clientFinal = some answer

/-- The checks that RFC 5802 asks of a server, on the messages as they were exchanged: the final message
repeats the header of the first and the nonce of the challenge, once each, and its proof is right. -/
def RfcServerChecks (crypto : Crypto) (password : String) (draw : Draw)
    (clientFirst clientFinal : List UInt8) : Prop :=
  ∃ (header bare clientNonce withoutProof proof64 : List Char) (clientProof : List UInt8),
    fromUtf8 clientFirst = some (header ++ bare) ∧
    (header = "n,,".toList ∨ header = "y,,".toList) ∧
    (attributes "r" bare).head? = some clientNonce ∧
    (fromUtf8 clientFinal).bind (Text.rsplitAt ",p=".toList) = some (withoutProof, proof64) ∧
    attributes "c" withoutProof = [crypto.encode (asBytes header)] ∧
    attributes "r" withoutProof = [clientNonce ++ draw.nonce] ∧
    crypto.decode proof64 = some clientProof ∧ clientProof.length = 32 ∧
    (let serverFirst := "r=".toList ++ (clientNonce ++ draw.nonce) ++ ",s=".toList ++
        crypto.encode draw.salt ++ ",i=4096".toList
     let saltedPassword := crypto.hiSha256 (asBytes password.toList) draw.salt 4096
     let clientKey := crypto.hmacSha256 saltedPassword.toList (asBytes "Client Key".toList)
     let storedKey := crypto.sha256 clientKey.toList
     let authMessage := bare ++ [','] ++ serverFirst ++ [','] ++ withoutProof
     crypto.sha256 (List.zipWith (· ^^^ ·) clientProof
       (crypto.hmacSha256 storedKey.toList (asBytes authMessage)).toList) = storedKey)

def gs2Header (clientFirst : List UInt8) : List Char := ((fromUtf8 clientFirst).getD []).take 3

def clientFinalWithoutProof (clientFinal : List UInt8) : List Char :=
  (((fromUtf8 clientFinal).bind (Text.rsplitAt ",p=".toList)).map Prod.fst).getD []

section Checks

variable {crypto : Crypto} {password : String} {draw : Draw} {clientFirst clientFinal : List UInt8}

theorem mem_attributes :
    value ∈ attributes "r" message ↔ "r=".toList ++ value ∈ message.splitOn ',' := by
  rw [attributes, List.mem_filterMap]
  constructor
  · rintro ⟨part, member, named⟩
    rwa [stripPrefix_eq_some.mp named] at member
  · intro member
    exact ⟨_, member, stripPrefix_eq_some.mpr rfl⟩

theorem gs2Header_eq (decoded : fromUtf8 clientFirst = some (header ++ bare))
    (unbound : header = "n,,".toList ∨ header = "y,,".toList) : gs2Header clientFirst = header := by
  have long : header.length = 3 := by
    rcases unbound with rfl | rfl
    · rfl
    · rfl
  rw [gs2Header, decoded, getD_some, List.take_left' long]

theorem clientFinalWithoutProof_eq
    (parts : (fromUtf8 clientFinal).bind (Text.rsplitAt ",p=".toList) = some (withoutProof, proof64)) :
    clientFinalWithoutProof clientFinal = withoutProof := by
  rw [clientFinalWithoutProof, parts]
  rfl

/-- Header and nonce are attributes of the final message, and the only ones of their names. -/
theorem RfcServerChecks.named (checks : RfcServerChecks crypto password draw clientFirst clientFinal) :
    attributes "c" (clientFinalWithoutProof clientFinal) =
        [crypto.encode (asBytes (gs2Header clientFirst))] ∧
      (attributes "r" (clientFinalWithoutProof clientFinal)).length = 1 := by
  obtain ⟨header, bare, clientNonce, withoutProof, proof64, _, decoded, unbound, _, parts, binding,
    nonces, _⟩ := checks
  rw [gs2Header_eq decoded unbound, clientFinalWithoutProof_eq parts, nonces]
  exact ⟨binding, rfl⟩

/-- The server makes the checks of the RFC but two: it does not look at the channel binding, and it
looks for the nonce among all attributes of that name. -/
theorem scramAccepts_checks_iff (accepts : ScramAccepts crypto password draw clientFirst clientFinal) :
    RfcServerChecks crypto password draw clientFirst clientFinal ↔
      attributes "c" (clientFinalWithoutProof clientFinal) =
        [crypto.encode (asBytes (gs2Header clientFirst))] ∧
      (attributes "r" (clientFinalWithoutProof clientFinal)).length = 1 := by
  refine ⟨RfcServerChecks.named, ?_⟩
  rintro ⟨binding, single⟩
  obtain ⟨state, answer, begun, validated⟩ := accepts
  obtain ⟨header, bare, clientNonce, decoded, unbound, found, rfl⟩ :=
    fromClientFirst_eq_some begun
  obtain ⟨withoutProof, proof64, clientProof, parts, repeated, proof, size, same, _⟩ :=
    validateClientFinal_eq_some validated
  rw [gs2Header_eq decoded unbound, clientFinalWithoutProof_eq parts] at binding
  rw [clientFinalWithoutProof_eq parts] at single
  obtain ⟨nonce, only⟩ := List.length_eq_one_iff.mp single
  have nonces : attributes "r" withoutProof = [clientNonce ++ draw.nonce] := by
    have member : clientNonce ++ draw.nonce ∈ attributes "r" withoutProof := mem_attributes.mpr repeated
    rw [only, List.mem_singleton] at member
    rw [only, member]
  exact ⟨header, bare, clientNonce, withoutProof, proof64, clientProof, decoded, unbound,
    List.head?_filterMap.trans found, parts, binding, nonces, proof, size, same⟩

/-- A final message with the proof of a client that has the password. -/
def finalMessage (crypto : Crypto) (password : String) (withoutProof : List Char) : List Char :=
  withoutProof ++ ',' :: ("p=".toList ++
    crypto.encode ((handshakeOf crypto password).clientProof crypto withoutProof).toList)

theorem scramAccepts_finalMessage (base64 : crypto.Base64) {withoutProof : List Char}
    (repeated : "r=x".toList ∈ withoutProof.splitOn ',') :
    ScramAccepts crypto password ⟨[], []⟩ (asBytes "n,,r=x".toList)
      (asBytes (finalMessage crypto password withoutProof)) :=
  ⟨_, _, fromClientFirst_handshakeOf crypto password,
    validateClientFinal_clientProof _ base64.transparent repeated⟩

theorem clientFinalWithoutProof_finalMessage (base64 : crypto.Base64) (withoutProof : List Char) :
    clientFinalWithoutProof (asBytes (finalMessage crypto password withoutProof)) = withoutProof := by
  have parts := @Text.rsplitAt_append ',' "p=".toList withoutProof _ (by decide)
    (base64.alphabet ((handshakeOf crypto password).clientProof crypto withoutProof).toList)
  refine clientFinalWithoutProof_eq (bind_eq_some_iff.mpr ⟨_, ?_, parts⟩)
  rw [fromUtf8_asBytes, finalMessage]

end Checks

/-- A final message with the channel binding and one nonce passes. -/
theorem scramAccepts_checks_sample :
    RfcServerChecks .sample "secret" ⟨[], []⟩ (asBytes "n,,r=x".toList) (asBytes (finalMessage .sample
      "secret" ("c=".toList ++ Crypto.sample.encode (asBytes "n,,".toList) ++ ",r=x".toList))) := by
  refine (scramAccepts_checks_iff (scramAccepts_finalMessage sample_base64 (by decide))).mpr ?_
  rw [clientFinalWithoutProof_finalMessage sample_base64]
  exact ⟨by decide, by decide⟩

/-- A final message without channel binding is accepted, and so is one with another nonce before the
right one. -/
theorem scram_accepts_unchecked :
    (ScramAccepts .sample "secret" ⟨[], []⟩ (asBytes "n,,r=x".toList)
        (asBytes (finalMessage .sample "secret" "r=x".toList)) ∧
      ¬ RfcServerChecks .sample "secret" ⟨[], []⟩ (asBytes "n,,r=x".toList)
        (asBytes (finalMessage .sample "secret" "r=x".toList))) ∧
    ScramAccepts .sample "secret" ⟨[], []⟩ (asBytes "n,,r=x".toList)
        (asBytes (finalMessage .sample "secret" "c=biws,r=y,r=x".toList)) ∧
      ¬ RfcServerChecks .sample "secret" ⟨[], []⟩ (asBytes "n,,r=x".toList)
        (asBytes (finalMessage .sample "secret" "c=biws,r=y,r=x".toList)) := by
  refine ⟨⟨scramAccepts_finalMessage sample_base64 (by decide), fun checks => ?_⟩,
    scramAccepts_finalMessage sample_base64 (by decide), fun checks => ?_⟩
  · have binding := checks.named.1
    rw [clientFinalWithoutProof_finalMessage sample_base64] at binding
    exact absurd (congrArg List.length binding) (by decide)
  · have single := checks.named.2
    rw [clientFinalWithoutProof_finalMessage sample_base64] at single
    exact absurd single (by decide)

end RockLake
