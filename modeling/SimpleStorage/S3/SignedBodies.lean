import SimpleStorage.Objects.AcceptedWrites
import SimpleStorage.Objects.KeyRules
import SimpleStorage.S3.RequestBodies

/-!
# Signed payload hashes

The digest in the `x-amz-content-sha256` header is part of what a client signs.  The guard hashes it
with the rest of the canonical request; what reads the body afterwards does not look at it again.

* `Accepts`: what there has to be for an operation to go through, in terms of the request, of its body
  and of the tables.
* `handle_accepted`: an operation goes through exactly if there is all of this.
* `handle_undone`: one that does not go through leaves the tables alone.
* `signed_digest_binds_iff`: the digest binds the body exactly if it is the right one, or the operation
  does not go through for another reason.
-/

namespace SimpleStorage
namespace SignedBodies

open Express Program S3Types S3RequestService S3XmlService S3AuthorizationService BucketsTypes
  ObjectsTypes ObjectsService Statements

variable {α β : Type}

/-! ## Reading what is asked for -/

/-- A step that needs something that was read goes through if it was read. -/
theorem wp_readRequest {x : Except Fault α} {f : α → Service β} {p : α → Prop} {w : World}
    (hf : ∀ a, x = .ok a → wp (f a) (fun _ _ => p a) (fun _ _ => ¬ p a) w) :
    wp (readRequest x >>= f) (fun _ _ => ∃ a, x = .ok a ∧ p a) (fun _ _ => ¬ ∃ a, x = .ok a ∧ p a) w := by
  cases x with
  | error e =>
    rw [readRequest, wp_bind]
    show ¬ ∃ a, Except.error e = .ok a ∧ p a
    simp
  | ok a =>
    rw [readRequest, wp_bind, wp_pure]
    refine wp_mono (hf a rfl) (fun _ _ h => ⟨a, rfl, h⟩) fun _ _ hnot h => ?_
    obtain ⟨a', ha', hp⟩ := h
    obtain rfl := Except.ok.inj ha'
    exact hnot hp

/-- The request names a bucket, and may do there what it asks for. -/
structure Resolves (J : Strings) (values : ConditionValues) (name : Text) (identity : RequestIdentity)
    (action : Action) (key : Option Text) (w : World) (row : BucketRow) : Prop where
  found : BucketsService.findBucket name w.db = some row
  allowed : ¬ Refused J (PoliciesService.statementsOf (PoliciesService.findPolicy row.guid w.db))
    (evaluationRequest (some values) identity row.name action key)
    (OwnershipOrAcl identity row action w.db)

/-- What comes after the bucket is resolved goes through if it does so for that bucket. -/
theorem wp_resolveBucket {J : Strings} {values : ConditionValues} {name : Text}
    {identity : RequestIdentity} {action : Action} {key : Option Text} {f : BucketItem → Service β}
    {p : BucketRow → Prop} {w : World} (hguids : (w.db.buckets.map (·.guid)).Nodup)
    (hf : ∀ row, wp (f (BucketsService.toItem row)) (fun _ _ => p row) (fun _ _ => ¬ p row) w) :
    wp (resolveBucket J values name identity action key >>= f)
      (fun _ _ => ∃ row, Resolves J values name identity action key w row ∧ p row)
      (fun _ _ => ¬ ∃ row, Resolves J values name identity action key w row ∧ p row) w := by
  have hiff : ∀ row, BucketsService.findBucket name w.db = some row →
      (Refuses J (some values) identity row action key w ↔ _) := fun row hrow =>
    refuses_iff J (BucketsService.findBucketByGuid_of_found hguids hrow) (some values) identity action key
  rw [wp_bind]
  refine wp_mono (resolveBucket_spec J hguids (some values) name identity action key) ?_ ?_
  · rintro bucket w₀ ⟨rfl, row, hrow, rfl, hallowed⟩
    refine wp_mono (hf row) (fun _ _ h => ⟨row, ⟨hrow, fun hrefused => ?_⟩, h⟩) fun _ _ hnot h => ?_
    · exact hallowed ((hiff row hrow).mpr hrefused)
    · obtain ⟨row', hresolves, hp⟩ := h
      obtain rfl := Option.some.inj (hrow.symm.trans hresolves.found)
      exact hnot hp
  · rintro e w₀ ⟨rfl, hnone | ⟨row, hrow, -, hrefuses⟩⟩ ⟨row', hresolves, -⟩
    · cases hnone.2.symm.trans hresolves.found
    · obtain rfl := Option.some.inj (hrow.symm.trans hresolves.found)
      exact hresolves.allowed ((hiff row hrow).mp hrefuses)

/-! ## What goes through -/

variable (J : Strings) (N : Node) (C : Crypto) (R : Readers) (maxSingleUploadBytes : ℕ)

/-- **A payload that can be stored**, as an object or, where the request names an upload and a part,
as this part. -/
def CanPut (object : S3Types.ObjectRequest) (payload : Readable) (row : BucketRow) (db : Database) : Prop :=
  match Query.present object.uploadId, object.partNumber with
  | some uploadId, some partNumber =>
      (findUpload row.guid uploadId db).isSome ∧ (1 ≤ partNumber ∧ partNumber ≤ 10000) ∧
        Storable N (BucketsService.toItem row).toBucketContext object.contentMd5 object.payloadLength
          (some maxSingleUploadBytes) payload db
  | _, _ =>
      ValidKey object.key ∧
        Storable N (BucketsService.toItem row).toBucketContext object.contentMd5 object.payloadLength
          (some maxSingleUploadBytes) payload db

/-- The upload named in the request can be completed with the parts of a document. -/
def CanFinish (uploadId : Option Text) (parts : Except Fault (List CompletePart)) (row : BucketRow)
    (w : World) : Prop :=
  ∃ uploadId', Query.present uploadId = some uploadId' ∧
    ∃ parts', parts = .ok parts' ∧ ∃ u, CanComplete N w row.guid uploadId' parts' u

/-- The request may do with the bucket what it asks for, and has a document the service can act on. -/
def CanApply {α : Type} (bucket : BucketRequest) (identity : RequestIdentity) (action : Action)
    (document : Except Fault α) (valid : α → Prop) (w : World) : Prop :=
  ∃ row, Resolves J bucket.values bucket.bucket identity action none w row ∧
    ∃ a, document = .ok a ∧ valid a

/-- **What there has to be for an operation to go through**: a bucket where it is allowed, and a
payload that can be stored or a document that can be read and acted on. -/
def Accepts (identity : RequestIdentity) (body : Readable) (w : World) : Operation → Prop
  | .put object =>
      ∃ row, Resolves J object.values object.bucket identity .putObject (some object.key) w row ∧
        CanPut N maxSingleUploadBytes object body row w.db
  | .completeMultipartUpload object =>
      ∃ row, Resolves J object.values object.bucket identity .putObject (some object.key) w row ∧
        CanFinish N object.uploadId (documentOf (parseCompleteMultipartUpload R.xml) body) row w
  | .putBucketAcl bucket => CanApply J bucket identity .putBucketAcl
      (documentOf (parseAccessControlPolicy R.toUpperCase R.xml) body) (fun _ => True) w
  | .putBucketVersioning bucket => CanApply J bucket identity .putBucketVersioning
      (documentOf (parseVersioningConfiguration R.xml) body) (fun _ => True) w
  | .putBucketPolicy bucket => CanApply J bucket identity .putBucketPolicy
      (policyOf R.json bucket.bucket body) PoliciesService.Valid w
  | .putBucketCors bucket => CanApply J bucket identity .putBucketCors
      (documentOf (parseCorsConfiguration R.xml) body) BucketsService.ValidCors w
  | .deleteObjects bucket => CanApply J bucket identity .deleteObject
      ((documentOf (parseDelete R.xml) body).map (·.objects)) (fun _ => True) w

variable {J N C R maxSingleUploadBytes} {w : World}

theorem put_canPut (hguids : (w.db.buckets.map (·.guid)).Nodup) (object : S3Types.ObjectRequest)
    (hcopy : object.copySource = none) (identity : RequestIdentity) :
    wp (S3ObjectController.put J N maxSingleUploadBytes object identity)
      (fun _ _ => ∃ row, Resolves J object.values object.bucket identity .putObject (some object.key) w
        row ∧ CanPut N maxSingleUploadBytes object object.payload row w.db)
      (fun _ _ => ¬ ∃ row, Resolves J object.values object.bucket identity .putObject (some object.key) w
        row ∧ CanPut N maxSingleUploadBytes object object.payload row w.db) w := by
  rw [S3ObjectController.put]
  refine wp_resolveBucket hguids fun row => ?_
  rw [hcopy]
  unfold CanPut
  cases Query.present object.uploadId with
  | none =>
    rw [wp_bind]
    exact put_accepted _ w
  | some uploadId =>
    cases object.partNumber with
    | none =>
      rw [wp_bind]
      exact put_accepted _ w
    | some partNumber =>
      rw [wp_bind]
      exact uploadPart_accepted _ uploadId partNumber _ _ _ _ w

theorem post_canFinish (hguids : (w.db.buckets.map (·.guid)).Nodup) (object : S3Types.ObjectRequest)
    (huploads : object.uploads = false) (identity : RequestIdentity) :
    wp (S3ObjectController.post J N object identity)
      (fun _ _ => ∃ row, Resolves J object.values object.bucket identity .putObject (some object.key) w
        row ∧ CanFinish N object.uploadId object.parts row w)
      (fun _ _ => ¬ ∃ row, Resolves J object.values object.bucket identity .putObject (some object.key) w
        row ∧ CanFinish N object.uploadId object.parts row w) w := by
  rw [S3ObjectController.post]
  refine wp_resolveBucket hguids fun row => ?_
  rw [huploads, if_neg Bool.false_ne_true]
  unfold CanFinish
  cases Query.present object.uploadId with
  | none =>
    rw [wp_bind, orThrow]
    show ¬ _
    simp
  | some uploadId =>
    simp only [Option.some.injEq, exists_eq_left']
    rw [wp_bind, wp_orThrow_some]
    refine wp_readRequest fun parts _ => ?_
    rw [wp_bind]
    refine wp_mono (complete_canComplete _ uploadId parts w) (fun _ _ h => h) fun _ _ hnot h => ?_
    obtain ⟨u, hu⟩ := h
    exact hnot u hu

/-- **A document is acted on if it can be.** -/
theorem wp_canApply (hguids : (w.db.buckets.map (·.guid)).Nodup) {bucket : BucketRequest}
    {identity : RequestIdentity} {action : Action} {document : Except Fault α} {valid : α → Prop}
    {f : BucketItem → α → Service β}
    (hf : ∀ item a, wp (f item a) (fun _ _ => valid a) (fun _ _ => ¬ valid a) w) :
    wp (resolveBucket J (some bucket.values) bucket.bucket identity action none >>= fun item =>
        readRequest document >>= f item)
      (fun _ _ => CanApply J bucket identity action document valid w)
      (fun _ _ => ¬ CanApply J bucket identity action document valid w) w :=
  wp_resolveBucket hguids fun row => wp_readRequest fun a _ => hf (BucketsService.toItem row) a

/-- Without an ACL in the headers, the one in the body is set. -/
theorem putAcl_document (bucket : BucketRequest) (identity : RequestIdentity)
    (acl : Except Fault BucketAcl) :
    S3BucketController.putAcl J bucket identity (.ok none) acl =
      resolveBucket J (some bucket.values) bucket.bucket identity .putBucketAcl none >>= fun item =>
        readRequest acl >>= fun acl => do
          BucketsService.setAcl item.guid acl
          return S3Types.Response.done := rfl

/-- **When an operation goes through.** -/
theorem handle_accepted (hguids : (w.db.buckets.map (·.guid)).Nodup) {req : Express.Request}
    {identity : S3Guard.Identity} {body : Readable}
    (hpayload : payloadStream J C req identity body = .ok body) (operation : Operation) :
    wp (handle J N C R maxSingleUploadBytes req identity body operation)
      (fun _ _ => Accepts J N R maxSingleUploadBytes identity.toRequestIdentity body w operation)
      (fun _ _ => ¬ Accepts J N R maxSingleUploadBytes identity.toRequestIdentity body w operation) w := by
  cases operation with
  | put object =>
    rw [handle, hpayload]
    exact put_canPut hguids { object with copySource := none, payload := body } rfl _
  | completeMultipartUpload object =>
    exact post_canFinish hguids { object with
      uploads := false
      parts := documentOf (parseCompleteMultipartUpload R.xml) body } rfl _
  | putBucketAcl bucket =>
    rw [handle, putAcl_document]
    exact wp_canApply hguids fun item acl => trivial
  | putBucketVersioning bucket =>
    exact wp_canApply hguids fun item status => trivial
  | putBucketPolicy bucket =>
    refine wp_canApply hguids fun item document => ?_
    rw [wp_bind, PoliciesService.set, wp_bind, PoliciesService.validate, wp_require]
    exact ⟨fun hvalid => hvalid, fun hvalid => hvalid⟩
  | putBucketCors bucket =>
    refine wp_canApply hguids fun item configuration => ?_
    rw [wp_bind, BucketsService.setCors, wp_bind, wp_require]
    exact ⟨fun hvalid => hvalid, fun hvalid => hvalid⟩
  | deleteObjects bucket =>
    refine wp_canApply hguids fun item objects => ?_
    rw [wp_bind]
    exact wp_mono (deleteMany_state _ _ objects w) (fun _ _ _ => trivial) fun _ _ h => h.elim

/-! ## What does not go through -/

/-- Where it fails, it leaves the tables as they were. -/
def Undone (x : Service α) : Prop := ∀ w, wp x (fun _ _ => True) (fun _ w' => w'.db = w.db) w

theorem Undone.throw (e : Fault) : Undone (throw e : Service α) := fun _ => rfl

/-- Nothing is undone where nothing has been done. -/
theorem Undone.after {x : Service α} {f : α → Service β} (hx : ReadOnly x) (hf : ∀ a, Undone (f a)) :
    Undone (x >>= f) := by
  intro w
  rw [wp_bind]
  refine wp_mono (hx.wp_same w) ?_ fun _ _ h => congrArg World.db h
  rintro a _ rfl
  exact hf a _

/-- Nor where all is done. -/
theorem Undone.before {x : Service α} {f : α → Service β} (hx : Undone x)
    (hf : ∀ a w, wp (f a) (fun _ _ => True) (fun _ _ => False) w) : Undone (x >>= f) := by
  intro w
  rw [wp_bind]
  exact wp_mono (hx w) (fun a w' _ => wp_mono (hf a w') (fun _ _ h => h) fun _ _ h => h.elim) fun _ _ h => h

/-- **What fails has no effect.** -/
theorem handle_undone (req : Express.Request) (identity : S3Guard.Identity) (body : Readable)
    (operation : Operation) :
    Undone (handle J N C R maxSingleUploadBytes req identity body operation) := by
  cases operation with
  | put object =>
    rw [handle]
    cases payloadStream J C req identity body with
    | error fault => exact .after (resolveBucket_readOnly J _ _ _ _ _) fun _ => .throw fault
    | ok payload =>
      refine .after (resolveBucket_readOnly J _ _ _ _ _) fun bucket => ?_
      have hput : ∀ params, Undone (ObjectsService.put N params >>= fun written =>
          pure (S3Types.Response.stored written)) := fun params =>
        .before (fun w => wp_mono (put_tables params w) (fun _ _ _ => trivial) fun _ _ h => h)
          fun _ _ => trivial
      dsimp only
      cases Query.present object.uploadId with
      | none => exact hput _
      | some uploadId =>
        cases object.partNumber with
        | none => exact hput _
        | some partNumber =>
          exact .before (fun w => wp_mono (uploadPart_tables _ _ _ _ _ _ _ w) (fun _ _ _ => trivial)
            fun _ _ h => h) fun _ _ => trivial
  | completeMultipartUpload object =>
    refine .after (resolveBucket_readOnly J _ _ _ _ _) fun bucket => ?_
    refine .after (.orThrow _ _) fun uploadId => .after (readRequest_readOnly _) fun parts => ?_
    exact .before (fun w => wp_mono (completeMultipartUpload_tables _ _ _ w) (fun _ _ _ => trivial)
      fun _ _ h => h) fun _ _ => trivial
  | putBucketAcl bucket =>
    rw [handle, putAcl_document]
    refine .after (resolveBucket_readOnly J _ _ _ _ _) fun item => ?_
    exact .after (readRequest_readOnly _) fun acl w => trivial
  | putBucketVersioning bucket =>
    refine .after (resolveBucket_readOnly J _ _ _ _ _) fun item => ?_
    exact .after (readRequest_readOnly _) fun status w => trivial
  | putBucketPolicy bucket =>
    refine .after (resolveBucket_readOnly J _ _ _ _ _) fun item => ?_
    refine .after (readRequest_readOnly _) fun document => .before ?_ fun _ _ => trivial
    exact .after (.require _ _) fun _ _ => trivial
  | putBucketCors bucket =>
    refine .after (resolveBucket_readOnly J _ _ _ _ _) fun item => ?_
    refine .after (readRequest_readOnly _) fun configuration => .before ?_ fun _ _ => trivial
    exact .after (.require _ _) fun _ _ => trivial
  | deleteObjects bucket =>
    refine .after (resolveBucket_readOnly J _ _ _ _ _) fun item => ?_
    refine .after (readRequest_readOnly _) fun objects => .before (fun w => ?_) fun _ _ => trivial
    exact wp_mono (deleteMany_state _ _ objects w) (fun _ _ _ => trivial) fun _ _ h => h.elim

/-! ## The digest -/

/-- The header carries a SHA-256 digest in hex, rather than the name of a kind of payload. -/
structure LiteralDigest (payloadHash : Text) : Prop where
  length : payloadHash.length = 64
  hex : ∀ c ∈ payloadHash, (Codec.hexValue c).isSome

/-- A request signed in its headers, a digest among them. -/
structure SignedWith (req : Express.Request) (payloadHash : Text) : Prop where
  authorization : S3Guard.authorizationOf req ≠ []
  header : S3Guard.sentHeader req payloadHashHeader = some payloadHash
  literal : LiteralDigest payloadHash

/-- The digest is the one of the body. -/
def HasDigest (C : Crypto) (payloadHash : Text) (body : Readable) : Prop :=
  Codec.unhex payloadHash = C.sha256 body.content

theorem LiteralDigest.ne {payloadHash s : Text} (h : LiteralDigest payloadHash)
    (hs : 'S' ∈ s) : payloadHash ≠ s := by
  rintro rfl
  have hhex := h.hex 'S' hs
  revert hhex
  decide

theorem literalDigest_hex (C : Crypto) (content : Bytes) : LiteralDigest (Codec.hex (C.sha256 content)) := by
  constructor
  · rw [Codec.length_hex, C.length_sha256]
  · intro c hc
    obtain ⟨n, hn, rfl⟩ := Codec.hexDigit_of_mem_hex hc
    rw [Codec.hexValue_hexDigit n hn]
    rfl

/-- Of a digest in hex, the bytes are compared. -/
theorem hasDigest_hex (C : Crypto) (content : Bytes) (body : Readable) :
    HasDigest C (Codec.hex (C.sha256 content)) body ↔ C.sha256 content = C.sha256 body.content := by
  rw [HasDigest, Codec.unhex_hex]

/-- The payload of such a request is the body as it is. -/
theorem payloadStream_signedWith (hJ : J.toLowerCase payloadHashHeader = payloadHashHeader)
    {req : Express.Request} {payloadHash : Text} (h : SignedWith req payloadHash)
    (identity : S3Guard.Identity) (body : Readable) : payloadStream J C req identity body = .ok body := by
  have hheader : header J req payloadHashHeader = some payloadHash := by
    rw [header, hJ]
    exact h.header
  have hsigned := h.literal.ne (s := streamingSignedPayload) (by decide)
  have htrailer := h.literal.ne (s := streamingSignedPayloadTrailer) (by decide)
  have hunsigned := h.literal.ne (s := streamingUnsignedPayload) (by decide)
  rw [payloadStream, hheader]
  simp [hsigned, htrailer, hunsigned]

section Guarded

variable (config : CryptographicConfig) (D : Numbers) (malformed : Text → Text) (now : ℤ)

variable (J N C R maxSingleUploadBytes) in
/-- **A request that is acted on**: the guard lets it in, and afterwards its operation goes through. -/
def ActedOn (req : Express.Request) (w₀ : World) (operation : Operation) (body : Readable) (w : World) :
    Prop :=
  ∃ identity, S3Guard.canActivate N config J C D malformed now req w₀ = .ok identity ∧
    ∃ response, outcome (handle J N C R maxSingleUploadBytes req identity body operation) w = .ok response

/-- Only a request that is acted on has an effect on the tables. -/
theorem actedOn_of_effect {req : Express.Request} {w₀ w : World} {operation : Operation} {body : Readable}
    {identity : S3Guard.Identity}
    (hlet : S3Guard.canActivate N config J C D malformed now req w₀ = .ok identity)
    (heffect : (stateAfter (handle J N C R maxSingleUploadBytes req identity body operation) w).db ≠ w.db) :
    ActedOn J N C R maxSingleUploadBytes config D malformed now req w₀ operation body w := by
  rcases outcome_of_wp (handle_undone (R := R) req identity body operation w) with
    ⟨response, hdone, -⟩ | ⟨_, -, hsame⟩
  · exact ⟨identity, hlet, response, hdone⟩
  · exact absurd hsame heffect

/-- **When a signed digest binds the body.**  A request that is let in is acted on for the right body
only, exactly if the body is the right one or the operation does not go through anyway. -/
theorem signed_digest_binds_iff (J : Strings) (N : Node) (C : Crypto) (R : Readers)
    (maxSingleUploadBytes : ℕ) (config : CryptographicConfig) (D : Numbers) (malformed : Text → Text)
    (now : ℤ) (hJ : J.toLowerCase payloadHashHeader = payloadHashHeader) {req : Express.Request}
    {payloadHash : Text} (hreq : SignedWith req payloadHash) {w₀ : World} {identity : S3Guard.Identity}
    (hlet : S3Guard.canActivate N config J C D malformed now req w₀ = .ok identity)
    (operation : Operation) (body : Readable) {w : World}
    (hguids : (w.db.buckets.map (·.guid)).Nodup) :
    (ActedOn J N C R maxSingleUploadBytes config D malformed now req w₀ operation body w →
        HasDigest C payloadHash body) ↔
      HasDigest C payloadHash body ∨
        ¬ Accepts J N R maxSingleUploadBytes identity.toRequestIdentity body w operation := by
  have hacted : ActedOn J N C R maxSingleUploadBytes config D malformed now req w₀ operation body w ↔
      Accepts J N R maxSingleUploadBytes identity.toRequestIdentity body w operation := by
    rw [← outcome_ok_iff (handle_accepted hguids (payloadStream_signedWith hJ hreq identity body)
      operation)]
    constructor
    · rintro ⟨identity', hlet', hdone⟩
      obtain rfl := Except.ok.inj (hlet'.symm.trans hlet)
      exact hdone
    · intro hdone
      exact ⟨identity, hlet, hdone⟩
  rw [hacted, imp_iff_not_or, or_comm]

end Guarded

section Example

open S3SignatureService PoliciesTypes

/-- The digest of a note. -/
def noteDigest : Text := Codec.hex (Crypto.sample.sha256 (Text.bytes "one".toList))

def uploadHeaders : List (Text × OneOrMany) :=
  [("x-amz-date".toList, .one "19700101T000000Z".toList), (payloadHashHeader, .one noteDigest)]

def uploadSignature : Text :=
  signatureOf Crypto.sample "secret".toList "19700101".toList "us".toList "s3".toList
    "19700101T000000Z".toList
    ((buildCanonicalRequest Strings.ascii
      { method := "PUT".toList, originalUrl := "/notes/today".toList, headers := uploadHeaders }
      [payloadHashHeader, "x-amz-date".toList] noteDigest).getD [])

/-- The upload of the note, signed. -/
def signedUpload : Express.Request where
  method := "PUT".toList
  originalUrl := "/notes/today".toList
  headers := ("authorization".toList, .one
      ("AWS4-HMAC-SHA256 Credential=ST1/19700101/us/s3, ".toList ++
        "SignedHeaders=x-amz-content-sha256;x-amz-date, Signature=".toList ++ uploadSignature)) ::
    uploadHeaders

/-- The client has a key and a bucket. -/
def notesWorld : World :=
  { S3Guard.oneKey with
    db := { S3Guard.oneKey.db with
      buckets := [{ guid := 1, name := "notes".toList, ownerUserGuid := [] }] } }

def client : S3Guard.Identity := { accessKeyId := "ST1".toList, userGuid := [], anonymous := false }

def storeNote : Operation := .put { bucket := "notes".toList, key := "today".toList }

/-- Nothing is read here. -/
def sampleReaders : Readers := ⟨fun _ => .text [], fun _ => none, id⟩

theorem signedWith_signedUpload : SignedWith signedUpload noteDigest := by
  refine ⟨?_, ?_, literalDigest_hex Crypto.sample _⟩
  · decide +kernel
  · decide +kernel

theorem canActivate_signedUpload :
    S3Guard.canActivate Node.counting ⟨[]⟩ Strings.ascii Crypto.sample Numbers.sample id 0 signedUpload
      notesWorld = .ok client := by
  decide +kernel

/-- The body of another note. -/
def anotherNote : Readable := ⟨[Text.bytes "two".toList], false⟩

theorem not_hasDigest_anotherNote : ¬ HasDigest Crypto.sample noteDigest anotherNote := by
  intro h
  have hsame := (hasDigest_hex Crypto.sample _ _).mp h
  revert hsame
  decide +kernel

theorem actedOn_anotherNote :
    ActedOn Strings.ascii Node.counting Crypto.sample sampleReaders 100 ⟨[]⟩ Numbers.sample id 0
      signedUpload notesWorld storeNote anotherNote notesWorld := by
  have hstored : outcome (handle Strings.ascii Node.counting Crypto.sample sampleReaders 100 signedUpload
      client anotherNote storeNote) notesWorld = .ok (.stored
        ⟨nullVersionId, Codec.hex (Node.counting.md5 (Text.bytes "two".toList)), 3, none⟩) := by
    decide +kernel
  exact ⟨client, canActivate_signedUpload, _, hstored⟩

/-- There is all that the upload needs, whatever its digest. -/
theorem signed_digest_binds_iff_another :
    Accepts Strings.ascii Node.counting sampleReaders 100 client.toRequestIdentity anotherNote notesWorld
      storeNote := by
  by_contra hnot
  exact not_hasDigest_anotherNote ((signed_digest_binds_iff Strings.ascii Node.counting Crypto.sample
    sampleReaders 100 ⟨[]⟩ Numbers.sample id 0 (by decide) signedWith_signedUpload
    canActivate_signedUpload storeNote anotherNote (by decide)).mpr (Or.inr hnot) actedOn_anotherNote)

/-- **Another note is stored** under the signature of the first one. -/
theorem another_body_stored :
    ¬ ∀ (J : Strings) (N : Node) (C : Crypto) (R : Readers) maxSingleUploadBytes config D malformed now
      req payloadHash w₀ operation body w, J.toLowerCase payloadHashHeader = payloadHashHeader →
      SignedWith req payloadHash →
      (∃ identity, S3Guard.canActivate N config J C D malformed now req w₀ = .ok identity) →
      (w.db.buckets.map (·.guid)).Nodup →
      ActedOn J N C R maxSingleUploadBytes config D malformed now req w₀ operation body w →
      HasDigest C payloadHash body := by
  intro h
  exact not_hasDigest_anotherNote (h Strings.ascii Node.counting Crypto.sample sampleReaders 100 ⟨[]⟩
    Numbers.sample id 0 signedUpload noteDigest notesWorld storeNote anotherNote notesWorld (by decide)
    signedWith_signedUpload ⟨client, canActivate_signedUpload⟩ (by decide) actedOn_anotherNote)

end Example

end SignedBodies
end SimpleStorage
