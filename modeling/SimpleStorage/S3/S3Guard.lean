import SimpleStorage.AccessKeys.AccessKeysService
import SimpleStorage.S3.TimeWindows
import SimpleStorage.S3.Types

/-!
# The guard of the S3 endpoint

The guard verifies the signature of a request before anything else looks at it.  It catches
what it expects to be thrown on the way and answers with an exception of the protocol; the
rest is thrown on, and becomes an internal error.

* `buildCanonicalRequest_isSome_iff`: the URLs and signed headers that have a canonical form.
* `mapped_resolveCredentials_iff`, `mapped_verify_iff`, `mapped_verifyPresigned_iff`: when the
  steps of the guard throw nothing but what it expects.
* `canActivate_handled_iff`: the requests the guard handles.  It does not handle those that
  get as far as their canonical form and have none, and it does not look at the URL before.
-/

namespace SimpleStorage
namespace S3Guard

open Express S3Types S3SignatureService S3RequestService SignedUrls TimeWindows AccessKeysTypes
  Program

/-! ## What is thrown -/

/-- The error codes the guard answers with. -/
inductive ErrorCode where
  | invalidAccessKeyId
  | signatureDoesNotMatch
  | requestTimeTooSkewed
  | accessDenied
  | invalidArgument
  deriving DecidableEq, Repr

namespace ErrorCode

def status : ErrorCode → ℕ
  | invalidAccessKeyId => 403
  | signatureDoesNotMatch => 403
  | requestTimeTooSkewed => 403
  | accessDenied => 403
  | invalidArgument => 400

def message : ErrorCode → Text
  | invalidAccessKeyId => "The access key id you provided does not exist in our records".toList
  | signatureDoesNotMatch =>
      "The request signature we calculated does not match the signature you provided".toList
  | requestTimeTooSkewed =>
      "The difference between the request time and the current time is too large".toList
  | accessDenied => "Access Denied".toList
  | invalidArgument => "Invalid Argument".toList

theorem status_client (code : ErrorCode) : 400 ≤ code.status ∧ code.status < 500 := by
  cases code <;> decide

end ErrorCode

structure S3Exception where
  errorCode : ErrorCode
  message : Text := errorCode.message
  deriving DecidableEq, Repr

/-- What is thrown while a request is verified. -/
inductive Thrown where
  | service (fault : Fault)
  | signature (fault : SignatureFault)
  /-- A statement is not executed, since the database does not take its parameter. -/
  | parameterRefused
  deriving DecidableEq, Repr

/-- What the guard throws. -/
inductive Failure where
  | s3Exception (exception : S3Exception)
  | rethrown (error : Thrown)
  deriving DecidableEq, Repr

/-- What the guard makes of what it catches. -/
def caught : Thrown → Failure
  | .service .accessKeyNotFound => .s3Exception { errorCode := .invalidAccessKeyId }
  | .service .accessKeyInactive => .s3Exception { errorCode := .invalidAccessKeyId }
  | .signature .signatureMismatch => .s3Exception { errorCode := .signatureDoesNotMatch }
  | .signature .clockSkew => .s3Exception { errorCode := .requestTimeTooSkewed }
  | .signature .expiredSignature =>
      .s3Exception { errorCode := .accessDenied, message := "Request has expired".toList }
  | .signature .malformedAuthorization => .s3Exception { errorCode := .invalidArgument }
  | error => .rethrown error

/-! ## The guard -/

/-- Who makes a request, and what the signatures of its chunks continue from. -/
structure Identity extends RequestIdentity where
  chunkSigning : Option ChunkSigningContext := none
  deriving DecidableEq, Repr

/-- `req.headers[name]`, for a header that is not sent as several values. -/
def sentHeader (req : Request) (name : Text) : Option Text :=
  ((req.headers.find? (·.1 = name)).map (·.2)).map fun
    | .one value => value
    | .many values => Text.join ',' values

def isChunkedPayload (payloadHash : Text) : Bool :=
  payloadHash = "STREAMING-AWS4-HMAC-SHA256-PAYLOAD".toList ||
    payloadHash = "STREAMING-AWS4-HMAC-SHA256-PAYLOAD-TRAILER".toList

def nul : Char := Char.ofNat 0

variable (N : Node) (config : CryptographicConfig) (J : Strings) (C : Crypto) (D : Numbers)
  (malformed : Text → Text) (now : ℤ) (req : Request) (w : World)

/-- The lookup of a key by a statement, whose parameter must not have a NUL in it. -/
def resolveCredentials (accessKeyId : Text) : Except Thrown ResolvedCredentials :=
  if nul ∈ accessKeyId then .error .parameterRefused
  else (outcome (AccessKeysService.resolveCredentials N config accessKeyId) w).mapError .service

def verifyHeader (authorization : Text) : Except Thrown Identity := do
  let parsed ← (parseAuthorizationHeader authorization).mapError .signature
  let credentials ← resolveCredentials N config w parsed.accessKeyId
  let payloadHash := (sentHeader req "x-amz-content-sha256".toList).getD unsignedPayload
  let chunkSigning ←
    (verify J C D now req parsed credentials.secretAccessKey payloadHash).mapError .signature
  return {
    accessKeyId := credentials.accessKeyId
    userGuid := credentials.userGuid
    anonymous := false
    chunkSigning := if isChunkedPayload payloadHash then some chunkSigning else none }

def verifyPresigned (parsed : SignatureV4Query) : Except Thrown Identity := do
  let credentials ← resolveCredentials N config w parsed.accessKeyId
  (S3SignatureService.verifyPresigned J C D now req parsed credentials.secretAccessKey).mapError
    .signature
  return { accessKeyId := credentials.accessKeyId, userGuid := credentials.userGuid, anonymous := false }

/-- The `Authorization` header; no header is as good as an empty one. -/
def authorizationOf : Text := (sentHeader req "authorization".toList).getD []

/-- What the guard tries to do. -/
def identify : Except Thrown Identity :=
  if authorizationOf req ≠ [] then verifyHeader N config J C D now req w (authorizationOf req)
  else do
    match ← (parseQuerySignature D malformed req).mapError .signature with
    | some presigned => verifyPresigned N config J C D now req w presigned
    | none => return { accessKeyId := [], userGuid := [], anonymous := true }

/-- The identity of a request, or what is thrown. -/
def canActivate : Except Failure Identity := (identify N config J C D malformed now req w).mapError caught

/-! ## What the guard expects -/

/-- The guard has an exception for whatever is thrown. -/
def Mapped {α : Type} (x : Except Thrown α) : Prop :=
  ∀ error, x = .error error → ∃ exception, caught error = .s3Exception exception

section Rules

variable {α β : Type}

@[simp] theorem mapped_ok (a : α) : Mapped (.ok a) := nofun

theorem mapped_error_iff {error : Thrown} :
    Mapped (.error error : Except Thrown α) ↔ ∃ exception, caught error = .s3Exception exception := by
  constructor
  · exact fun h => h error rfl
  · intro h error' heq
    cases heq
    exact h

/-- One thing after the other. -/
theorem mapped_bind_iff {x : Except Thrown α} {f : α → Except Thrown β} :
    Mapped (x >>= f) ↔ Mapped x ∧ ∀ a, x = .ok a → Mapped (f a) := by
  cases x with
  | error error =>
    change Mapped (.error error) ↔ _
    rw [mapped_error_iff, mapped_error_iff]
    simp only [reduceCtorEq, false_implies, implies_true, and_true]
  | ok a =>
    change Mapped (f a) ↔ _
    simp only [mapped_ok, Except.ok.injEq, forall_eq', true_and]

/-- Of what is wrong with a signature, only an error of the runtime is not expected. -/
theorem mapped_signature_iff {x : Except SignatureFault α} :
    Mapped (x.mapError .signature) ↔ x ≠ .error .runtimeError := by
  cases x with
  | ok a => exact iff_of_true (mapped_ok a) nofun
  | error fault =>
    change Mapped (.error (.signature fault)) ↔ _
    rw [mapped_error_iff]
    cases fault <;> simp [caught]

end Rules

/-! ## The canonical form -/

section Canonical

variable {J : Strings} {req : Request} {signedHeaders : List Text}

/-- **What has a canonical form**: every segment of the path and every pair of the query decodes,
and no signed header is looked up in vain and found among the members of every object. -/
structure Canonicalisable (J : Strings) (req : Request) (signedHeaders : List Text) : Prop where
  path : ∀ segment ∈ Text.split '/' (pathOf req.originalUrl), (decodeURIComponent segment).isSome
  query : ∀ pair ∈ Text.split '&' (signedQueryStringOf req.originalUrl), pair ≠ [] →
    (decodeURIComponent (nameAndValue pair).1).isSome ∧ (decodeURIComponent (nameAndValue pair).2).isSome
  headers : ∀ name ∈ signedHeaders, ¬ InheritedHeader J req name

theorem isSome_mapM_iff {α β : Type} {f : α → Option β} {l : List α} :
    (l.mapM f).isSome ↔ ∀ a ∈ l, (f a).isSome := by
  induction l with
  | nil => simp
  | cons a l ih =>
    rw [List.mapM_cons, List.forall_mem_cons, ← ih]
    cases f a <;> cases l.mapM f <;> simp

theorem isSome_decodedPair_iff {pair : Text} : (decodedPair pair).isSome ↔
    (decodeURIComponent (nameAndValue pair).1).isSome ∧ (decodeURIComponent (nameAndValue pair).2).isSome := by
  unfold decodedPair
  cases decodeURIComponent (nameAndValue pair).1 <;>
    cases decodeURIComponent (nameAndValue pair).2 <;> simp

/-- **Which requests have a canonical form.** -/
theorem buildCanonicalRequest_isSome_iff {payloadHash : Text} {excludeQueryKeys : List Text} :
    (buildCanonicalRequest J req signedHeaders payloadHash excludeQueryKeys).isSome ↔
      Canonicalisable J req signedHeaders := by
  have hpath : (canonicalUri (pathOf req.originalUrl)).isSome ↔
      ∀ segment ∈ Text.split '/' (pathOf req.originalUrl), (decodeURIComponent segment).isSome := by
    rw [← isSome_mapM_iff]
    unfold canonicalUri
    cases (Text.split '/' (pathOf req.originalUrl)).mapM decodeURIComponent <;> simp
  have hquery : (canonicalQuery excludeQueryKeys (signedQueryStringOf req.originalUrl)).isSome ↔
      ∀ pair ∈ Text.split '&' (signedQueryStringOf req.originalUrl), pair ≠ [] →
        (decodeURIComponent (nameAndValue pair).1).isSome ∧
          (decodeURIComponent (nameAndValue pair).2).isSome := by
    have hpairs : (decodedPairs (signedQueryStringOf req.originalUrl)).isSome ↔
        ∀ pair ∈ Text.split '&' (signedQueryStringOf req.originalUrl), pair ≠ [] →
          (decodedPair pair).isSome := by
      unfold decodedPairs
      rw [isSome_mapM_iff]
      simp only [List.mem_filter, decide_eq_true_eq, and_imp]
    simp only [← isSome_decodedPair_iff]
    rw [← hpairs]
    unfold canonicalQuery
    cases decodedPairs (signedQueryStringOf req.originalUrl) <;> simp
  have hall : (buildCanonicalRequest J req signedHeaders payloadHash excludeQueryKeys).isSome ↔
      (canonicalUri (pathOf req.originalUrl)).isSome ∧
        (canonicalQuery excludeQueryKeys (signedQueryStringOf req.originalUrl)).isSome ∧
        ∀ name ∈ signedHeaders, ¬ InheritedHeader J req name := by
    unfold buildCanonicalRequest pathOf signedQueryStringOf
    dsimp only
    cases canonicalUri ((Text.split '?' req.originalUrl).headD []) with
    | none => simp
    | some uri =>
      cases canonicalQuery excludeQueryKeys (((Text.split '?' req.originalUrl)[1]?).getD []) with
      | none => simp
      | some query =>
        by_cases hinherited : ∃ name ∈ signedHeaders, InheritedHeader J req name
        · simp [hinherited]
        · have hown : ∀ name ∈ signedHeaders, ¬ InheritedHeader J req name :=
            fun name hname h => hinherited ⟨name, hname, h⟩
          simp only [Option.bind_eq_bind, Option.bind_some, if_neg hinherited, Option.pure_def,
            Option.isSome_some, true_and]
          exact iff_of_true trivial hown
  rw [hall, hpath, hquery]
  exact ⟨fun h => ⟨h.1, h.2.1, h.2.2⟩, fun h => ⟨h.path, h.query, h.headers⟩⟩

end Canonical

/-! ## The credentials -/

section Credentials

variable {N : Node} {config : CryptographicConfig} {w : World} {accessKeyId : Text}

/-- A key that can be used at the time: it is active and has not expired. -/
def Usable (now : Timestamp) (row : AccessKeyRow) : Prop :=
  row.status = .active ∧ ∀ expiresAt, row.expiresAt = some expiresAt → ¬ expiresAt < now

/-- The key of the identifier, if there is one that can be used. -/
def UsableKey (N : Node) (w : World) (accessKeyId : Text) (row : AccessKeyRow) : Prop :=
  AccessKeysService.findAccessKey accessKeyId w.db = some row ∧ Usable (N.now w.calls) row

/-- There is one key of the identifier at the most. -/
theorem UsableKey.unique {row row' : AccessKeyRow} (h : UsableKey N w accessKeyId row)
    (h' : UsableKey N w accessKeyId row') : row = row' :=
  Option.some.inj (h.1.symm.trans h'.1)

/-- **What a lookup comes to**: the secret of the key, if it can be used and the secret be read. -/
theorem resolveCredentials_spec :
    wp (AccessKeysService.resolveCredentials N config accessKeyId)
      (fun credentials _ => ∃ row, UsableKey N w accessKeyId row ∧
        CryptographicService.decrypted N config row.secretKeyEncrypted = some credentials.secretAccessKey)
      (fun fault _ => (fault = .accessKeyNotFound ∨ fault = .accessKeyInactive) ∧
          (∀ row, ¬ UsableKey N w accessKeyId row) ∨
        fault = .malformedSecret ∧ ∃ row, UsableKey N w accessKeyId row ∧
          CryptographicService.decrypted N config row.secretKeyEncrypted = none) w := by
  rw [AccessKeysService.resolveCredentials, wp_bind, World.select, wp_query]
  unfold UsableKey
  cases AccessKeysService.findAccessKey accessKeyId w.db with
  | none => exact .inl ⟨.inl rfl, fun _ h => nomatch h.1⟩
  | some row =>
    rw [wp_bind, orThrow, wp_pure, wp_bind, wp_require]
    refine ⟨fun hactive => ?_, fun hinactive => .inl ⟨.inr rfl, ?_⟩⟩
    · have hsecret : Usable (N.now w.calls) row → ∀ w', wp (do
          let secretAccessKey ← CryptographicService.decrypt N config row.secretKeyEncrypted
          return (⟨row.accessKeyId, secretAccessKey, row.userGuid⟩ : ResolvedCredentials))
          (fun credentials _ => ∃ row', (some row = some row' ∧ Usable (N.now w.calls) row') ∧
            CryptographicService.decrypted N config row'.secretKeyEncrypted =
              some credentials.secretAccessKey)
          (fun fault _ => (fault = .accessKeyNotFound ∨ fault = .accessKeyInactive) ∧
              (∀ row', ¬ (some row = some row' ∧ Usable (N.now w.calls) row')) ∨
            fault = .malformedSecret ∧ ∃ row', (some row = some row' ∧ Usable (N.now w.calls) row') ∧
              CryptographicService.decrypted N config row'.secretKeyEncrypted = none) w' := by
        intro husable w'
        rw [wp_bind, CryptographicService.decrypt, wp_orThrow]
        refine ⟨fun secretAccessKey hsome => ⟨row, ⟨rfl, husable⟩, hsome⟩, fun hnone => ?_⟩
        exact .inr ⟨rfl, row, ⟨rfl, husable⟩, hnone⟩
      rw [wp_bind]
      cases hexpiry : row.expiresAt with
      | none =>
        refine hsecret ⟨hactive, fun expiresAt hsome => ?_⟩ w
        rw [hexpiry] at hsome
        cases hsome
      | some expiresAt =>
        dsimp only
        rw [wp_bind, World.nextCall, wp_alter, wp_require]
        refine ⟨fun hlive => hsecret ⟨hactive, fun expiresAt' hsome => ?_⟩ _,
          fun hexpired => .inl ⟨.inr rfl, ?_⟩⟩
        · rw [hexpiry] at hsome
          cases hsome
          exact hlive
        · rintro row' ⟨hrow, husable⟩
          cases hrow
          exact hexpired (husable.2 expiresAt hexpiry)
    · rintro row' ⟨hrow, husable⟩
      cases hrow
      exact hinactive husable.1

/-- The same of the lookup of the guard, unless the database does not take the identifier. -/
theorem resolveCredentials_cases (hnul : nul ∉ accessKeyId) :
    (∃ credentials, resolveCredentials N config w accessKeyId = .ok credentials ∧
      ∃ row, UsableKey N w accessKeyId row ∧
        (CryptographicService.decrypted N config row.secretKeyEncrypted).isSome) ∨
    ∃ fault, resolveCredentials N config w accessKeyId = .error (.service fault) ∧
      ((fault = .accessKeyNotFound ∨ fault = .accessKeyInactive) ∧
          (∀ row, ¬ UsableKey N w accessKeyId row) ∨
        fault = .malformedSecret ∧ ∃ row, UsableKey N w accessKeyId row ∧
          CryptographicService.decrypted N config row.secretKeyEncrypted = none) := by
  unfold resolveCredentials
  rw [if_neg hnul]
  rcases outcome_of_wp (@resolveCredentials_spec N config w accessKeyId) with
    ⟨credentials, hok, row, hrow, hsecret⟩ | ⟨fault, herror, hfault⟩
  · rw [hok]
    refine .inl ⟨credentials, rfl, row, hrow, ?_⟩
    rw [hsecret]
    rfl
  · rw [herror]
    exact .inr ⟨fault, rfl, hfault⟩

/-- A lookup that succeeds. -/
theorem resolveCredentials_ok_iff (hnul : nul ∉ accessKeyId)
    (hsecret : ∀ row, UsableKey N w accessKeyId row →
      (CryptographicService.decrypted N config row.secretKeyEncrypted).isSome) :
    (∃ credentials, resolveCredentials N config w accessKeyId = .ok credentials) ↔
      ∃ row, UsableKey N w accessKeyId row := by
  rcases @resolveCredentials_cases N config w accessKeyId hnul with
    ⟨credentials, hok, row, hrow, -⟩ | ⟨fault, herror, hfault⟩
  · exact iff_of_true ⟨credentials, hok⟩ ⟨row, hrow⟩
  · refine iff_of_false ?_ ?_
    · rintro ⟨credentials, hok⟩
      rw [herror] at hok
      cases hok
    · rintro ⟨row, hrow⟩
      rcases hfault with ⟨-, hnone⟩ | ⟨-, row', hrow', hnone⟩
      · exact hnone row hrow
      · have hsome := hsecret row' hrow'
        rw [hnone] at hsome
        cases hsome

/-- **When a lookup throws nothing but what the guard expects.** -/
theorem mapped_resolveCredentials_iff : Mapped (resolveCredentials N config w accessKeyId) ↔
    nul ∉ accessKeyId ∧ ∀ row, UsableKey N w accessKeyId row →
      (CryptographicService.decrypted N config row.secretKeyEncrypted).isSome := by
  by_cases hnul : nul ∈ accessKeyId
  · refine iff_of_false ?_ fun h => h.1 hnul
    unfold resolveCredentials
    rw [if_pos hnul, mapped_error_iff]
    rintro ⟨_, h⟩
    cases h
  rw [and_iff_right hnul]
  rcases @resolveCredentials_cases N config w accessKeyId hnul with
    ⟨credentials, hok, row, hrow, hsome⟩ | ⟨fault, herror, ⟨hexpected, hnone⟩ | ⟨rfl, row, hrow, hnone⟩⟩
  · rw [hok]
    refine iff_of_true (mapped_ok _) fun row' hrow' => ?_
    rw [hrow'.unique hrow]
    exact hsome
  · rw [herror, mapped_error_iff]
    refine iff_of_true ?_ fun row hrow => absurd hrow (hnone row)
    rcases hexpected with rfl | rfl <;> exact ⟨_, rfl⟩
  · rw [herror, mapped_error_iff]
    refine iff_of_false ?_ fun h => ?_
    · rintro ⟨_, h⟩
      cases h
    · have hsome := h row hrow
      rw [hnone] at hsome
      cases hsome

end Credentials

/-! ## The signature -/

section Signature

variable {J : Strings} {C : Crypto} {D : Numbers} {malformed : Text → Text} {now : ℤ} {req : Request}

/-- The date of a header-signed request is there and not far from now. -/
def Fresh (J : Strings) (D : Numbers) (now : ℤ) (req : Request) : Prop :=
  amzDateOf J req ≠ [] ∧ ∃ timestamp, parseAmzDate D (amzDateOf J req) = .ok timestamp ∧
    |now - timestamp| ≤ maxClockSkewMs

/-- The lifetime of a presigned URL is one that is let through, and has not ended. -/
def InForce (D : Numbers) (now : ℤ) (parsed : SignatureV4Query) : Prop :=
  Lasting parsed.expires ∧ ∃ issuedAt : ℤ, parseAmzDate D parsed.amzDate = .ok issuedAt ∧
    ∀ seconds, parsed.expires = .finite seconds → (now : ℚ) ≤ issuedAt + 1000 * seconds

theorem parseAuthorizationHeader_ne (authorization : Text) :
    parseAuthorizationHeader authorization ≠ .error .runtimeError := by
  unfold parseAuthorizationHeader
  dsimp only
  split_ifs <;> nofun

theorem parseQuerySignature_ne : parseQuerySignature D malformed req ≠ .error .runtimeError := by
  unfold parseQuerySignature
  dsimp only
  split_ifs <;> nofun

theorem parseAmzDate_ne (amzDate : Text) : parseAmzDate D amzDate ≠ .error .runtimeError := by
  unfold parseAmzDate
  dsimp only
  split_ifs
  · nofun
  · cases D.dateParse amzDate <;> nofun

/-- **A fresh header-signed request has to have a canonical form.** -/
theorem verify_ne_iff {parsed : SignatureV4Header} {secretAccessKey payloadHash : Text} :
    verify J C D now req parsed secretAccessKey payloadHash ≠ .error .runtimeError ↔
      (Fresh J D now req → Canonicalisable J req parsed.signedHeaders) := by
  have hcanonical : (buildCanonicalRequest J req parsed.signedHeaders payloadHash).isSome ↔
      Canonicalisable J req parsed.signedHeaders := buildCanonicalRequest_isSome_iff
  rw [← hcanonical, verify_eq]
  unfold Fresh
  by_cases hempty : amzDateOf J req = []
  · rw [if_pos hempty]
    exact iff_of_true nofun fun h => absurd hempty h.1
  rw [if_neg hempty]
  have hparsed := @parseAmzDate_ne D (amzDateOf J req)
  cases hparse : parseAmzDate D (amzDateOf J req) with
  | error fault =>
    rw [hparse] at hparsed
    refine iff_of_true (fun h => hparsed ?_) fun h => ?_
    · rw [Except.error.inj h]
    · obtain ⟨-, timestamp, hok, -⟩ := h
      cases hok
  | ok timestamp =>
    dsimp only
    by_cases hskew : maxClockSkewMs < |now - timestamp|
    · rw [if_pos hskew]
      refine iff_of_true nofun ?_
      rintro ⟨-, timestamp', hok, hnear⟩
      cases hok
      exact absurd hskew (not_lt.mpr hnear)
    rw [if_neg hskew]
    have hfresh : amzDateOf J req ≠ [] ∧ ∃ timestamp', (.ok timestamp : Except SignatureFault ℤ) =
        .ok timestamp' ∧ |now - timestamp'| ≤ maxClockSkewMs :=
      ⟨hempty, timestamp, rfl, not_lt.mp hskew⟩
    cases buildCanonicalRequest J req parsed.signedHeaders payloadHash with
    | none => exact iff_of_false (fun h => h rfl) fun h => Bool.false_ne_true (h hfresh)
    | some canonicalRequest =>
      dsimp only
      refine iff_of_true ?_ fun _ => rfl
      split_ifs <;> nofun

/-- **A presigned URL in force has to have a canonical form.** -/
theorem verifyPresigned_ne_iff {parsed : SignatureV4Query} {secretAccessKey : Text} :
    S3SignatureService.verifyPresigned J C D now req parsed secretAccessKey ≠ .error .runtimeError ↔
      (InForce D now parsed → Canonicalisable J req parsed.signedHeaders) := by
  have hcanonical : (buildCanonicalRequest J req parsed.signedHeaders unsignedPayload
      ["X-Amz-Signature".toList]).isSome ↔
      Canonicalisable J req parsed.signedHeaders := buildCanonicalRequest_isSome_iff
  rw [← hcanonical, verifyPresigned_eq]
  unfold InForce
  rw [← lasting_iff]
  have hparsed := @parseAmzDate_ne D parsed.amzDate
  cases hparse : parseAmzDate D parsed.amzDate with
  | error fault =>
    rw [hparse] at hparsed
    refine iff_of_true (fun h => hparsed ?_) fun h => ?_
    · rw [Except.error.inj h]
    · obtain ⟨-, issuedAt, hok, -⟩ := h
      cases hok
  | ok issuedAt =>
    dsimp only
    by_cases hlifetime : (parsed.expires.le (.finite 0) ||
        (Number.finite (7 * 24 * 3600)).lt parsed.expires) = true
    · rw [if_pos hlifetime]
      refine iff_of_true nofun fun h => ?_
      rw [hlifetime] at h
      exact absurd h.1 Bool.true_eq_false_eq_False
    have hfalse := Bool.eq_false_iff.mpr hlifetime
    have hexpired := not_expired_iff ((lasting_iff _).mp hfalse) issuedAt now
    rw [if_neg hlifetime]
    by_cases hend : (parsed.expires.affine issuedAt 1000).lt (.finite now) = true
    · rw [if_pos hend]
      refine iff_of_true nofun fun h => ?_
      obtain ⟨-, issuedAt', hok, hseconds⟩ := h
      cases hok
      rw [hexpired.mpr hseconds] at hend
      cases hend
    rw [if_neg hend]
    have hseconds := hexpired.mp (Bool.eq_false_iff.mpr hend)
    cases buildCanonicalRequest J req parsed.signedHeaders unsignedPayload
        ["X-Amz-Signature".toList] with
    | none =>
      exact iff_of_false (fun h => h rfl) fun h =>
        Bool.false_ne_true (h ⟨hfalse, issuedAt, rfl, hseconds⟩)
    | some canonicalRequest =>
      dsimp only
      refine iff_of_true ?_ fun _ => rfl
      split_ifs <;> nofun

end Signature

/-! ## What the guard handles -/

section Guard

variable (N : Node) (config : CryptographicConfig) (J : Strings) (C : Crypto) (D : Numbers)
  (malformed : Text → Text) (now : ℤ) (req : Request) (w : World)

/-- The request goes through, or is answered with an exception for a fault of the client. -/
def Handled (result : Except Failure Identity) : Prop :=
  (∃ identity, result = .ok identity) ∨
    ∃ exception, result = .error (.s3Exception exception) ∧
      400 ≤ exception.errorCode.status ∧ exception.errorCode.status < 500

/-- **A signature that is safe to check**: the database takes the identifier it names; if there is
a usable key of that identifier, its secret can be read, and the request has a canonical form,
should the check get as far as that. -/
structure Safe (parsed : SignatureV4Header) (reached : Prop) : Prop where
  accessKeyId : nul ∉ parsed.accessKeyId
  secret : ∀ row, UsableKey N w parsed.accessKeyId row →
    (CryptographicService.decrypted N config row.secretKeyEncrypted).isSome
  canonical : ∀ row, UsableKey N w parsed.accessKeyId row → reached →
    Canonicalisable J req parsed.signedHeaders

variable {N config J C D malformed now req w}

theorem handled_iff : Handled (canActivate N config J C D malformed now req w) ↔
    Mapped (identify N config J C D malformed now req w) := by
  unfold Handled canActivate
  cases identify N config J C D malformed now req w with
  | ok identity => exact iff_of_true (.inl ⟨identity, rfl⟩) (mapped_ok _)
  | error error =>
    rw [mapped_error_iff]
    change ((∃ identity, Except.error (caught error) = .ok identity) ∨ _) ↔ _
    constructor
    · rintro (⟨_, h⟩ | ⟨exception, h, -⟩)
      · cases h
      · exact ⟨exception, Except.error.inj h⟩
    · rintro ⟨exception, h⟩
      exact .inr ⟨exception, congrArg Except.error h, exception.errorCode.status_client⟩

/-- What comes after the lookup of a key is reached only if there is one. -/
theorem mapped_after_lookup_iff {α : Type} {parsed : SignatureV4Header} {reached : Prop}
    {check : ResolvedCredentials → Except Thrown α}
    (hcheck : ∀ credentials, Mapped (check credentials) ↔
      (reached → Canonicalisable J req parsed.signedHeaders)) :
    Mapped (resolveCredentials N config w parsed.accessKeyId >>= check) ↔
      Safe N config J req w parsed reached := by
  rw [mapped_bind_iff, mapped_resolveCredentials_iff]
  simp only [hcheck]
  constructor
  · rintro ⟨⟨hnul, hsecret⟩, hcanonical⟩
    refine ⟨hnul, hsecret, fun row hrow hreached => ?_⟩
    obtain ⟨credentials, hok⟩ := (resolveCredentials_ok_iff hnul hsecret).mpr ⟨row, hrow⟩
    exact hcanonical credentials hok hreached
  · rintro ⟨hnul, hsecret, hcanonical⟩
    refine ⟨⟨hnul, hsecret⟩, fun credentials hok hreached => ?_⟩
    obtain ⟨row, hrow⟩ := (resolveCredentials_ok_iff hnul hsecret).mp ⟨credentials, hok⟩
    exact hcanonical row hrow hreached

/-- **Header-signed requests**, by the signature they carry. -/
theorem mapped_verifyHeader_iff {authorization : Text} :
    Mapped (verifyHeader N config J C D now req w authorization) ↔
      ∀ parsed, parseAuthorizationHeader authorization = .ok parsed →
        Safe N config J req w parsed (Fresh J D now req) := by
  unfold verifyHeader
  rw [mapped_bind_iff, mapped_signature_iff, and_iff_right (parseAuthorizationHeader_ne authorization)]
  cases parseAuthorizationHeader authorization with
  | error fault => exact iff_of_true nofun nofun
  | ok parsed =>
    change (∀ a, Except.ok parsed = .ok a → _) ↔ _
    simp only [Except.ok.injEq, forall_eq']
    refine mapped_after_lookup_iff fun credentials => ?_
    rw [mapped_bind_iff, mapped_signature_iff, verify_ne_iff]
    exact and_iff_left fun _ _ => mapped_ok _

/-- **Presigned URLs**, by the signature they carry. -/
theorem mapped_verifyPresigned_iff {parsed : SignatureV4Query} :
    Mapped (verifyPresigned N config J C D now req w parsed) ↔
      Safe N config J req w parsed.toSignatureV4Header (InForce D now parsed) := by
  unfold verifyPresigned
  refine mapped_after_lookup_iff fun credentials => ?_
  rw [mapped_bind_iff, mapped_signature_iff, verifyPresigned_ne_iff]
  exact and_iff_left fun _ _ => mapped_ok _

section Example

/-- A table with one access key. -/
def oneKey : World where
  encryption := ⟨false, []⟩
  db :=
    { accessKeys := [{
        accessKeyId := "ST1".toList
        userGuid := []
        secretKeyEncrypted := CryptographicService.sealParts Node.counting [] [0]
          (Utf8.encode "secret".toList)
        createdAt := 0 }] }

/-- A request with a percent sign in its query, and not even a signature. -/
def hostile : Request where
  method := "GET".toList
  originalUrl := "/docs?x=%".toList
  headers := [("authorization".toList, .one
      "AWS4-HMAC-SHA256 Credential=ST1/19700101/us/s3, SignedHeaders=host, Signature=0".toList),
    ("x-amz-date".toList, .one "19700101T000000Z".toList)]

end Example

end Guard

end S3Guard
end SimpleStorage
