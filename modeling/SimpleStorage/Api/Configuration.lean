import SimpleStorage.Api.Mediation
import SimpleStorage.Buckets.Registry

/-!
# Settings follow the requests that set them

To both endpoints, the settings of the buckets are a registry.  A request that succeeds makes the
change it asks for, and one that fails makes none - but for `CreateBucket`, which reads the
header with the ACL when the bucket is there already.

* `Request.made`: the change that a request makes, by its outcome.
* `request_follows`: a request makes this change, and it was possible.
* `registry_follows`: so does a run, and what is set stays valid.
-/

namespace SimpleStorage

open Program

/-- The name of a canned ACL. -/
def BucketAcl.name (acl : BucketAcl) : Text :=
  String.toList <| match acl with
    | .privateAcl => "private"
    | .publicRead => "public-read"
    | .publicReadWrite => "public-read-write"
    | .authenticatedRead => "authenticated-read"

namespace S3RequestService

/-- `x-amz-acl`, if it is one of the canned ACLs. -/
def cannedAcl (header : Option Text) : Except Fault (Option BucketAcl) :=
  match Query.present header with
  | none => .ok none
  | some value =>
      match [BucketAcl.privateAcl, .publicRead, .publicReadWrite, .authenticatedRead].find? (·.name = value) with
      | some known => .ok (some known)
      | none => .error (.invalidArgument "x-amz-acl".toList)

theorem cannedAcl_error {header : Option Text} {e : Fault} (h : cannedAcl header = .error e) :
    e = .invalidArgument "x-amz-acl".toList := by
  rw [cannedAcl] at h
  split at h
  · cases h
  · split at h <;> cases h
    rfl

end S3RequestService

namespace S3BucketController

/-- `CreateBucket`, from its headers.  The ACL is read when the bucket is there. -/
def createBucketFrom (req : S3Types.BucketRequest) (identity : S3Types.RequestIdentity)
    (aclHeader : Option Text) : Service S3Types.Response := do
  require (identity.anonymous = false) (.accessDenied req.bucket)
  let existing ← BucketsService.findByName req.bucket
  match existing with
  | some existing =>
      throw (if existing.ownerUserGuid = identity.userGuid then .bucketAlreadyOwnedByYou
        else .bucketAlreadyExists)
  | none =>
      let created ← BucketsService.create req.bucket identity.userGuid
      let cannedAcl ← readRequest (S3RequestService.cannedAcl aclHeader)
      match cannedAcl with
      | some acl => BucketsService.setAcl created.guid acl
      | none => pure ()
      return .done

end S3BucketController

namespace Configuration

open BucketsService ObjectsService PoliciesService

/-! ## Requests -/

inductive Request where
  | access (r : Access.Request)
  | createBucket (req : S3Types.BucketRequest) (identity : S3Types.RequestIdentity)
      (aclHeader : Option Text)

def Request.program (D : Retention.Deployment) : Request → Service Unit
  | .access r => r.program D
  | .createBucket req identity aclHeader => do
      let _ ← S3BucketController.createBucketFrom req identity aclHeader

/-- The change a request asks for, if it can be read and asks for one. -/
def asks : Access.Request → Option (Text × Change)
  | .s3 (.createBucket req _ cannedAcl) => some (req.bucket, .create (cannedAcl.getD .privateAcl))
  | .s3 (.putVersioning req _ status) => status.toOption.map fun status =>
      (req.bucket, .set (.versioning (match status with
        | .enabled => .enabled
        | .suspended => .suspended)))
  | .s3 (.deleteBucket req _) => some (req.bucket, .delete)
  | .putAcl req _ (.ok (some acl)) _ => some (req.bucket, .set (.acl acl))
  | .putAcl req _ (.ok none) acl => acl.toOption.map fun acl => (req.bucket, .set (.acl acl))
  | .putPolicy req _ document => document.toOption.map fun document =>
      (req.bucket, .set (.policy (some document)))
  | .deletePolicy req _ => some (req.bucket, .set (.policy none))
  | .putCors req _ configuration => configuration.toOption.map fun configuration =>
      (req.bucket, .set (.cors (some configuration)))
  | .deleteCors req _ => some (req.bucket, .set (.cors none))
  | .api (.createBucket name _) => some (name, .create .privateAcl)
  | .api (.deleteBucket bucketName _) => some (bucketName, .delete)
  | .api (.setAcl bucketName acl _) => some (bucketName, .set (.acl acl))
  | .api (.setVersioning bucketName versioning _) => some (bucketName, .set (.versioning versioning))
  | .setQuota bucketName quotaBytes user =>
      if user.role = .admin then some (bucketName, .set (.quotaBytes quotaBytes)) else none
  | .setPolicy bucketName document _ => some (bucketName, .set (.policy (some document)))
  | .removePolicy bucketName _ => some (bucketName, .set (.policy none))
  | _ => none

/-- **The change a request makes**, by its outcome.  A bucket is there though its ACL is refused. -/
def Request.made : Request → Except Fault Unit → Option (Text × Change)
  | .access r, .ok _ => asks r
  | .access _, .error _ => none
  | .createBucket req _ aclHeader, outcome =>
      match outcome, S3RequestService.cannedAcl aclHeader with
      | .ok _, .ok cannedAcl => some (req.bucket, .create (cannedAcl.getD .privateAcl))
      | .error (.invalidArgument _), .error _ => some (req.bucket, .create .privateAcl)
      | _, _ => none

/-- What a request makes of the registry. -/
def Request.next (r : Request) (outcome : Except Fault Unit) (m : Registry) : Registry :=
  (r.made outcome).elim m fun x => x.2.apply x.1 m

/-- What it makes of it was possible. -/
def Request.Answers (r : Request) (outcome : Except Fault Unit) (m : Registry) : Prop :=
  ∀ x ∈ r.made outcome, x.2.Possible x.1 m

/-! ## What programs do to the settings -/

/-- **What the settings are looked up by**: the keys of the tables, and that policies belong to
buckets that were created. -/
structure Registered (w : World) : Prop extends Access.Tables w where
  policy_lt : ∀ p ∈ w.db.bucketPolicies, p.bucketGuid < w.calls

/-- The settings have become these. -/
def Became (m : Registry) (w : World) : Prop :=
  registry w.db = m ∧ ∀ p ∈ w.db.bucketPolicies, p.bucketGuid < w.calls

variable {D : Retention.Deployment} {w : World} {α : Type}

/-- The settings become what the request makes of them. -/
def Follows (w : World) (r : Request) (x : Service α) : Prop :=
  wp x (fun _ w' => r.Answers (.ok ()) (registry w.db) ∧ Became (r.next (.ok ()) (registry w.db)) w')
    (fun e w' => r.Answers (.error e) (registry w.db) ∧
      Became (r.next (.error e) (registry w.db)) w') w

/-- The change is possible and made, or nothing is done. -/
def Makes (w : World) (name : Text) (change : Change) (x : Service α) : Prop :=
  wp x (fun _ w' => change.Possible name (registry w.db) ∧ Became (change.apply name (registry w.db)) w')
    (fun _ w' => Became (registry w.db) w') w

theorem Follows.discard {r : Request} {x : Service α} (h : Follows w r x) :
    Follows w r (do let _ ← x) := by
  rw [Follows, wp_bind]
  exact h

theorem Makes.answer {name : Text} {change : Change} {x : Service α} (h : Makes w name change x) {β : Type}
    (b : β) : Makes w name change (do
      let _ ← x
      return b) := by
  rw [Makes, wp_bind]
  exact h

theorem answers_of_made_none {r : Request} {outcome : Except Fault Unit} {m : Registry}
    (h : r.made outcome = none) {w' : World} (hw' : Became m w') :
    r.Answers outcome m ∧ Became (r.next outcome m) w' := by
  rw [Request.Answers, Request.next, h]
  exact ⟨by simp, hw'⟩

theorem answers_of_made {r : Request} {outcome : Except Fault Unit} {m : Registry} {name : Text}
    {change : Change} (h : r.made outcome = some (name, change)) {w' : World}
    (hw' : change.Possible name m ∧ Became (change.apply name m) w') :
    r.Answers outcome m ∧ Became (r.next outcome m) w' := by
  rw [Request.Answers, Request.next, h]
  exact ⟨by simpa using hw'.1, hw'.2⟩

section Access

variable {r : Access.Request} {x : Service α}

theorem follows_of_makes {name : Text} {change : Change} (hasks : asks r = some (name, change))
    (h : Makes w name change x) : Follows w (.access r) x := by
  have hmade : (Request.access r).made (.ok ()) = some (name, change) := hasks
  exact wp_mono h (fun _ _ h' => answers_of_made hmade h') fun _ _ h' => answers_of_made_none rfl h'

theorem follows_of_keeps (hw : Registered w) (hasks : asks r = none)
    (h : ∀ m, Keeps (Became m) x) : Follows w (.access r) x := by
  have hmade : (Request.access r).made (.ok ()) = none := hasks
  exact wp_mono (h (registry w.db) w ⟨rfl, hw.policy_lt⟩) (fun _ _ h' => answers_of_made_none hmade h')
    fun _ _ h' => answers_of_made_none rfl h'

/-- A handler of the S3 endpoint fails, or goes on with the bucket of the name. -/
theorem follows_signed (hw : Registered w) {req : S3Types.ConditionValues} {name : Text}
    {identity : S3Types.RequestIdentity} {action : S3Types.Action} {key : Option Text}
    {f : BucketsTypes.BucketItem → Service α}
    (hf : ∀ row, findBucket name w.db = some row → Follows w (.access r) (f (toItem row))) :
    Follows w (.access r)
      (S3AuthorizationService.resolveBucket D.strings req name identity action key >>= f) := by
  rw [Follows, wp_bind]
  refine wp_mono (S3AuthorizationService.resolveBucket_spec D.strings hw.guid req name identity action key)
    ?_ ?_
  · rintro _ _ ⟨rfl, row, hrow, rfl, -⟩
    exact hf row hrow
  · rintro _ _ ⟨rfl, -⟩
    exact answers_of_made_none rfl ⟨rfl, hw.policy_lt⟩

/-- … and so does a handler of the management API. -/
theorem follows_opened (hw : Registered w) {name : Text} {user : AuthTypes.Identity}
    {permission : BucketPermission} {f : BucketsTypes.BucketItem → Service α}
    (hf : ∀ row, findBucket name w.db = some row → Follows w (.access r) (f (toItem row))) :
    Follows w (.access r) (getForUser name user.guid user.role permission >>= f) := by
  rw [Follows, wp_bind]
  refine wp_mono (getForUser_spec name user.guid user.role permission w) ?_ ?_
  · rintro _ _ ⟨rfl, row, hrow, rfl⟩
    exact hf row hrow
  · intro _ w' hsame
    rw [hsame]
    exact answers_of_made_none rfl ⟨rfl, hw.policy_lt⟩

end Access

/-! ## Operations on objects -/

section Objects

variable {N : Node} {m : Registry}

/-- No step of an operation on objects changes the settings. -/
theorem became_of_atomic {x : Service α} (h : x.Every (Atomic N)) : Keeps (Became m) x := by
  intro w hw
  refine h.wp_keeps (fun event effect hp w hw => ?_) hw
  have hsame := Access.sameAccess_of_atomic hp w
  refine ⟨(registry_congr hsame.buckets hsame.bucketPolicies).trans hw.1, fun p hmem => ?_⟩
  exact (hw.2 p (hsame.bucketPolicies ▸ hmem)).trans_le (hp.calls_le w)

theorem Became.draw {w : World} (h : Became m w) : Became m { w with calls := w.calls + 1 } :=
  ⟨h.1, fun p hmem => (h.2 p hmem).trans (Nat.lt_succ_self _)⟩

theorem put_became (params : ObjectsTypes.PutObjectParams) : Keeps (Became m) (put N params) :=
  became_of_atomic (put_atomic params)

theorem delete_became (bucket : ObjectsTypes.BucketContext) (key : Text)
    (versionId accessKeyId : Option Text) :
    Keeps (Became m) (ObjectsService.delete N bucket key versionId accessKeyId) :=
  became_of_atomic (delete_atomic _ _ _ _)

end Objects

/-! ## What the services set -/

section Services

variable {row : BucketRow} {name : Text} (hw : Registered w) (hrow : findBucket name w.db = some row)

include hrow in
theorem possible_of_found {s : Setting} (hvalid : s.Valid) :
    (Change.set s).Possible name (registry w.db) := by
  refine ⟨?_, hvalid⟩
  rw [registry_of_found hrow]
  exact Option.some_ne_none _

include hw hrow

theorem updateBucket_makes (f : BucketRow → BucketRow) (s : Setting) (hname : ∀ b, (f b).name = b.name)
    (hdeleted : ∀ b, (f b).deletedAt = b.deletedAt) (hvalid : s.Valid)
    (hf : settingsOf w.db (f row) = s.apply (settingsOf w.db row)) :
    Makes w name (.set s) (World.execute fun db => ((), updateBucket row.guid f db)) :=
  ⟨possible_of_found hrow hvalid, registry_updateBucket hw.guid hrow hname hdeleted hf, hw.policy_lt⟩

theorem setAcl_makes (acl : BucketAcl) : Makes w name (.set (.acl acl)) (setAcl row.guid acl) :=
  updateBucket_makes hw hrow (fun b => { b with acl }) (.acl acl) (fun _ => rfl) (fun _ => rfl) trivial rfl

theorem setVersioning_makes {versioning : BucketVersioning} (h : versioning ≠ .disabled) :
    Makes w name (.set (.versioning versioning)) (setVersioning row.guid versioning) :=
  updateBucket_makes hw hrow (fun b => { b with versioning }) (.versioning versioning) (fun _ => rfl) (fun _ => rfl) h rfl

theorem setQuota_makes (quotaBytes : Option ℤ) :
    Makes w name (.set (.quotaBytes quotaBytes)) (setQuota row.guid quotaBytes) :=
  updateBucket_makes hw hrow (fun b => { b with quotaBytes }) (.quotaBytes quotaBytes) (fun _ => rfl) (fun _ => rfl) trivial rfl

theorem deleteCors_makes : Makes w name (.set (.cors none)) (deleteCors row.guid) :=
  updateBucket_makes hw hrow (fun b => { b with cors := none }) (.cors none) (fun _ => rfl) (fun _ => rfl) trivial rfl

theorem setCors_makes (configuration : S3Types.CorsConfiguration) :
    Makes w name (.set (.cors (some configuration))) (setCors row.guid configuration) := by
  rw [Makes, setCors, wp_bind, wp_require]
  refine ⟨fun hvalid => ?_, fun _ => ⟨rfl, hw.policy_lt⟩⟩
  exact updateBucket_makes hw hrow (fun b => { b with cors := some configuration })
    (.cors (some configuration)) (fun _ => rfl) (fun _ => rfl) hvalid rfl

theorem deleteBucket_makes (N : Node) : Makes w name .delete (BucketsService.delete N row.guid) := by
  rw [Makes, BucketsService.delete, wp_bind, World.selectFor, wp_observe, wp_bind, wp_require]
  refine ⟨fun _ => ⟨?_, ?_, fun p hp => ?_⟩, fun _ => ⟨rfl, hw.policy_lt⟩⟩
  · rw [Change.Possible, registry_of_found hrow]
    exact Option.some_ne_none _
  · exact registry_deleteBucket hw.guid hw.name hrow _
  · exact (hw.policy_lt p hp).trans (Nat.lt_succ_self _)

theorem setPolicy_makes (document : PoliciesTypes.PolicyDocument) :
    Makes w name (.set (.policy (some document))) (PoliciesService.set row.guid document) := by
  rw [Makes, PoliciesService.set, wp_bind, PoliciesService.validate, wp_require]
  refine ⟨fun hvalid => ⟨possible_of_found (s := .policy (some document)) hrow hvalid, ?_, fun p hp => ?_⟩,
    fun _ => ⟨rfl, hw.policy_lt⟩⟩
  · have hothers : ∀ guid ≠ row.guid, findPolicy guid (upsertPolicy row.guid document w.db) =
        findPolicy guid w.db := fun guid h => findPolicy_upsertPolicy_of_ne h document w.db
    have hregistry := @registry_policies w.db name row hw.guid hrow (upsertPolicy row.guid document w.db) rfl
      hothers
    rwa [findPolicy_upsertPolicy] at hregistry
  · -- Its bucket is there, so it was created.
    rcases mem_upsertPolicy hp with ⟨p', hp', hguid⟩ | hguid
    · exact hguid ▸ hw.policy_lt p' hp'
    · exact hguid ▸ hw.guid_lt row (findBucket_eq_some hrow).1

theorem deletePolicy_makes : Makes w name (.set (.policy none)) (PoliciesService.delete row.guid) := by
  refine ⟨possible_of_found (s := .policy none) hrow trivial, ?_, fun p hp => ?_⟩
  · have hothers : ∀ guid ≠ row.guid, findPolicy guid (removePolicy row.guid w.db) =
        findPolicy guid w.db := fun guid h => (findPolicy_removePolicy row.guid guid w.db).trans (if_neg h)
    have hregistry := @registry_policies w.db name row hw.guid hrow (removePolicy row.guid w.db) rfl hothers
    rwa [removePolicy, findPolicy_removePolicy row.guid row.guid w.db, if_pos rfl] at hregistry
  · exact hw.policy_lt p (List.mem_of_mem_filter hp)

end Services

/-- A bucket is created if its name is a good one and was never used. -/
theorem create_makes (hw : Registered w) (name : Text) (ownerUserGuid : UserGuid) :
    wp (BucketsService.create name ownerUserGuid)
      (fun bucket w' => (Change.create .privateAcl).Possible name (registry w.db) ∧
        Became ((Change.create .privateAcl).apply name (registry w.db)) w' ∧
        ∃ row, findBucket name w'.db = some row ∧ bucket = toItem row)
      (fun e w' => (e = .invalidBucketName ∨ e = .bucketAlreadyExists) ∧ Became (registry w.db) w') w := by
  rw [BucketsService.create, wp_bind, assertValidName, wp_require]
  refine ⟨fun hname => ?_, fun _ => ⟨.inl rfl, rfl, hw.policy_lt⟩⟩
  rw [wp_bind, World.insertFor, wp_perform, wp_bind, wp_orThrow, insertBucket]
  have hpolicy : ∀ p ∈ w.db.bucketPolicies, p.bucketGuid < w.calls + 1 := fun p hp =>
    (hw.policy_lt p hp).trans (Nat.lt_succ_self _)
  split_ifs with htaken
  · refine ⟨fun row hrow => ?_, fun _ => ⟨.inr rfl, rfl, hpolicy⟩⟩
    cases hrow
  have hnew : ∀ b ∈ w.db.buckets, b.name ≠ name := fun b hb h =>
    htaken (List.any_eq_true.mpr ⟨b, hb, decide_eq_true h⟩)
  have hnone : findBucket name w.db = none := by
    rw [findBucket, List.find?_eq_none]
    intro b hb
    simp [hnew b hb]
  refine ⟨fun row hrow => ⟨⟨registry_eq_none_iff.mpr hnone, ?_⟩, ⟨?_, hpolicy⟩, row, ?_, rfl⟩, fun h => ?_⟩
  · by_contra hpattern
    exact hname (.inl hpattern)
  · exact registry_insertBucket (fun p hp => (hw.policy_lt p hp).ne) rfl hnew
  · rw [findBucket] at hnone
    rw [findBucket, List.find?_append, hnone, Option.none_or, ← Option.some.inj hrow]
    simp
  · cases h

/-- … and the tables keep their keys. -/
theorem create_registered (hw : Registered w) (name : Text) (ownerUserGuid : UserGuid) :
    wp (BucketsService.create name ownerUserGuid)
      (fun bucket w' => Registered w' ∧ (Change.create .privateAcl).Possible name (registry w.db) ∧
        registry w'.db = (Change.create .privateAcl).apply name (registry w.db) ∧
        ∃ row, findBucket name w'.db = some row ∧ bucket = toItem row)
      (fun _ w' => Became (registry w.db) w') w := by
  have htouches := Access.create_touches (N := Node.counting) (G := ∅) name ownerUserGuid w
  refine wp_mono (wp_and htouches (create_makes hw name ownerUserGuid)) ?_ fun _ _ h => h.2.2
  rintro bucket w' ⟨⟨htouches, -⟩, hpossible, hbecame, hrow⟩
  exact ⟨⟨htouches.tables hw.toTables, hbecame.2⟩, hpossible, hbecame.1, hrow⟩

/-- A bucket is created and, if one is named, gets its ACL. -/
theorem createWithAcl_makes (hw : Registered w) (name : Text) (ownerUserGuid : UserGuid)
    (cannedAcl : Option BucketAcl) :
    Makes w name (.create (cannedAcl.getD .privateAcl)) (do
      let created ← BucketsService.create name ownerUserGuid
      match cannedAcl with
      | some acl => setAcl created.guid acl
      | none => pure ()
      return S3Types.Response.done) := by
  rw [Makes, wp_bind]
  refine wp_mono (create_registered hw name ownerUserGuid) ?_ fun _ _ h => h
  rintro bucket w' ⟨hw', hpossible, hregistry, row, hrow, rfl⟩
  cases cannedAcl with
  | none => exact ⟨hpossible, hregistry, hw'.policy_lt⟩
  | some acl =>
    have hset := setAcl_makes hw' hrow acl
    rw [Makes, setAcl, World.execute, wp_alter] at hset
    rw [wp_bind]
    show wp (setAcl row.guid acl) _ _ w'
    rw [setAcl, World.execute, wp_alter]
    refine ⟨hpossible, hset.2.1.trans ?_, hset.2.2⟩
    rw [hregistry, Change.set_acl_create]
    rfl

/-! ## Requests -/

section Handlers

variable {m : Registry}

theorem readRequest_became (x : Except Fault α) : Keeps (Became m) (readRequest x) :=
  (readRequest_readOnly x).keeps _

theorem getForUser_became (name : Text) (user : AuthTypes.Identity) (permission : BucketPermission) :
    Keeps (Became m) (getForUser name user.guid user.role permission) := by
  intro w hw
  refine wp_mono (getForUser_spec name user.guid user.role permission w) (fun _ w' h => ?_) fun _ w' h => ?_
  · rw [h.1]
    exact hw
  · rw [h]
    exact hw

/-- A handler for objects leaves the settings alone. -/
theorem follows_of_resolved (hw : Registered w) {r : Access.Request} (hasks : asks r = none)
    {req : S3Types.ConditionValues} {name : Text} {identity : S3Types.RequestIdentity}
    {action : S3Types.Action} {key : Option Text} {f : BucketsTypes.BucketItem → Service α}
    (hf : ∀ bucket m, Keeps (Became m) (f bucket)) :
    Follows w (.access r)
      (S3AuthorizationService.resolveBucket D.strings req name identity action key >>= f) :=
  follows_signed hw fun _ _ => follows_of_keeps hw hasks (hf _)

theorem follows_of_opened (hw : Registered w) {r : Access.Request} (hasks : asks r = none) {name : Text}
    {user : AuthTypes.Identity} {permission : BucketPermission}
    {f : BucketsTypes.BucketItem → Service α} (hf : ∀ bucket m, Keeps (Became m) (f bucket)) :
    Follows w (.access r) (getForUser name user.guid user.role permission >>= f) :=
  follows_opened hw fun _ _ => follows_of_keeps hw hasks (hf _)

/-- How `CreateBucket` begins. -/
theorem wp_created {req : S3Types.BucketRequest} {identity : S3Types.RequestIdentity}
    {x : Service S3Types.Response} {post : S3Types.Response → World → Prop} {fail : Fault → World → Prop}
    (hrefused : fail (.accessDenied req.bucket) w) (howned : fail .bucketAlreadyOwnedByYou w)
    (hexists : fail .bucketAlreadyExists w) (hx : wp x post fail w) :
    wp (do
      require (identity.anonymous = false) (.accessDenied req.bucket)
      let existing ← BucketsService.findByName req.bucket
      match existing with
      | some existing =>
          throw (if existing.ownerUserGuid = identity.userGuid then .bucketAlreadyOwnedByYou
            else .bucketAlreadyExists)
      | none => x) post fail w := by
  rw [wp_bind, wp_require]
  refine ⟨fun _ => ?_, fun _ => hrefused⟩
  rw [wp_bind, BucketsService.findByName, wp_bind, World.select, wp_query]
  show wp (match (findBucket req.bucket w.db).map toItem with
    | some existing => _
    | none => _) _ _ w
  cases (findBucket req.bucket w.db).map toItem with
  | none => exact hx
  | some existing =>
    show fail _ w
    split_ifs
    · exact howned
    · exact hexists

end Handlers

theorem s3_follows (hw : Registered w) (r : Retention.S3Request) :
    Follows w (.access (.s3 r)) (r.program D) := by
  cases r with
  | put req identity =>
    refine Follows.discard (follows_of_resolved hw rfl fun bucket m => ?_)
    split
    · exact .bind ((S3AuthorizationService.resolveCopySource_readOnly _ _ _ _).keeps _) fun _ =>
        .bind (readRequest_became _) fun _ =>
          .bind (uploadPartCopy_keeps (fun _ => became_of_atomic (uploadPart_atomic _ _ _ _ _ _ _)) _ _)
            fun _ => .pure _
    · exact .bind (became_of_atomic (uploadPart_atomic _ _ _ _ _ _ _)) fun _ => .pure _
    · exact .bind ((S3AuthorizationService.resolveCopySource_readOnly _ _ _ _).keeps _) fun _ =>
        .bind (became_of_atomic (copy_atomic _ _ _ _ _ _)) fun _ => .pure _
    · exact .bind (put_became _) fun _ => .pure _
  | delete req identity =>
    refine Follows.discard ?_
    rw [S3ObjectController.delete]
    cases Query.present req.uploadId with
    | some uploadId =>
      exact follows_of_resolved hw rfl fun _ _ =>
        .bind (became_of_atomic (N := D.node) (abortMultipartUpload_atomic _ _)) fun _ => .pure _
    | none => exact follows_of_resolved hw rfl fun _ _ => .bind (delete_became _ _ _ _) fun _ => .pure _
  | post req identity =>
    refine Follows.discard (follows_of_resolved hw rfl fun bucket m => .ite ?_ ?_)
    · exact .bind (became_of_atomic (createMultipartUpload_atomic _ _ _ _)) fun _ => .pure _
    · exact .bind (.orThrow _ _) fun _ => .bind (readRequest_became _) fun _ =>
        .bind (became_of_atomic (completeMultipartUpload_atomic _ _ _)) fun _ => .pure _
  | createBucket req identity cannedAcl =>
    have hsame : Became (registry w.db) w := ⟨rfl, hw.policy_lt⟩
    exact Follows.discard (wp_created (answers_of_made_none rfl hsame) (answers_of_made_none rfl hsame)
      (answers_of_made_none rfl hsame) (follows_of_makes rfl (createWithAcl_makes hw _ _ cannedAcl)))
  | putVersioning req identity status =>
    refine Follows.discard (follows_signed hw fun row hrow => ?_)
    cases status with
    | error e => exact answers_of_made_none rfl ⟨rfl, hw.policy_lt⟩
    | ok status =>
      have hstatus : (match status with
          | .enabled => .enabled
          | .suspended => .suspended : BucketVersioning) ≠ .disabled := by
        cases status <;> simp
      exact follows_of_makes rfl ((setVersioning_makes hw hrow hstatus).answer _)
  | deleteBucket req identity =>
    exact Follows.discard (follows_signed hw fun row hrow =>
      follows_of_makes rfl ((deleteBucket_makes hw hrow _).answer _))
  | deleteObjects req identity objects =>
    exact Follows.discard (follows_of_resolved hw rfl fun _ _ =>
      .bind (readRequest_became _) fun _ => .bind (deleteMany_keeps fun _ _ => delete_became _ _ _ _)
        fun _ => .pure _)

theorem api_follows (hw : Registered w) (r : Retention.ApiRequest) :
    Follows w (.access (.api r)) (r.program D) := by
  cases r with
  | createBucket name user =>
    refine Follows.discard (follows_of_makes rfl (wp_mono (create_makes hw name user.guid) ?_ fun _ _ h => h.2))
    exact fun _ _ h => ⟨h.1, h.2.1⟩
  | deleteBucket bucketName user =>
    exact follows_opened hw fun row hrow => follows_of_makes rfl (deleteBucket_makes hw hrow _)
  | setAcl bucketName acl user =>
    exact follows_opened hw fun row hrow => follows_of_makes rfl (setAcl_makes hw hrow acl)
  | setVersioning bucketName versioning user =>
    show Follows w _ (BucketsController.setVersioning bucketName versioning user)
    rw [Follows, BucketsController.setVersioning, wp_bind, wp_require]
    refine ⟨fun hvalid => ?_, fun _ => answers_of_made_none rfl ⟨rfl, hw.policy_lt⟩⟩
    exact follows_opened hw fun row hrow => follows_of_makes rfl (setVersioning_makes hw hrow hvalid)
  | upload req user => exact Follows.discard (follows_of_opened hw rfl fun _ _ => put_became _)
  | delete bucketName key pre versionId user =>
    refine Follows.discard ?_
    rw [Follows, ObjectsController.delete, wp_bind, wp_require]
    refine ⟨fun _ => ?_, fun _ => answers_of_made_none rfl ⟨rfl, hw.policy_lt⟩⟩
    refine follows_of_opened hw rfl fun bucket m => ?_
    cases Query.present pre with
    | some pre => exact .bind (deleteByPrefix_keeps (fun _ => delete_became _ _ _ _) _) fun _ => .pure _
    | none => exact .bind (delete_became _ _ _ _) fun _ => .pure _
  | createFolder bucketName key user =>
    exact Follows.discard (follows_of_opened hw rfl fun _ _ =>
      createFolder_keeps (fun _ _ => put_became _) _ _)
  | copy req user =>
    exact Follows.discard (follows_of_opened hw rfl fun _ _ =>
      .bind (getForUser_became _ _ _) fun _ => became_of_atomic (copyKeys_atomic _ _ _ _ _ _))

theorem access_follows (hw : Registered w) (r : Access.Request) : Follows w (.access r) (r.program D) := by
  cases r with
  | s3 r => exact s3_follows hw r
  | api r => exact api_follows hw r
  | putAcl req identity cannedAcl acl =>
    refine Follows.discard (follows_signed hw fun row hrow => ?_)
    cases cannedAcl with
    | error e => exact answers_of_made_none rfl ⟨rfl, hw.policy_lt⟩
    | ok cannedAcl =>
      cases cannedAcl with
      | some acl => exact follows_of_makes rfl ((setAcl_makes hw hrow acl).answer _)
      | none =>
        cases acl with
        | error e => exact answers_of_made_none rfl ⟨rfl, hw.policy_lt⟩
        | ok acl => exact follows_of_makes rfl ((setAcl_makes hw hrow acl).answer _)
  | putPolicy req identity document =>
    refine Follows.discard (follows_signed hw fun row hrow => ?_)
    cases document with
    | error e => exact answers_of_made_none rfl ⟨rfl, hw.policy_lt⟩
    | ok document => exact follows_of_makes rfl ((setPolicy_makes hw hrow document).answer _)
  | deletePolicy req identity =>
    exact Follows.discard (follows_signed hw fun row hrow =>
      follows_of_makes rfl ((deletePolicy_makes hw hrow).answer _))
  | putCors req identity configuration =>
    refine Follows.discard (follows_signed hw fun row hrow => ?_)
    cases configuration with
    | error e => exact answers_of_made_none rfl ⟨rfl, hw.policy_lt⟩
    | ok configuration => exact follows_of_makes rfl ((setCors_makes hw hrow configuration).answer _)
  | deleteCors req identity =>
    exact Follows.discard (follows_signed hw fun row hrow =>
      follows_of_makes rfl ((deleteCors_makes hw hrow).answer _))
  | setQuota bucketName quotaBytes user =>
    rw [Follows, Access.Request.program, wp_ite]
    split_ifs with hadmin
    · refine wp_getByName (answers_of_made_none rfl ⟨rfl, hw.policy_lt⟩) fun row hrow => ?_
      exact follows_of_makes (if_pos hadmin) (setQuota_makes hw hrow quotaBytes)
    · have hmade : (Request.access (.setQuota bucketName quotaBytes user)).made (.ok ()) = none := if_neg hadmin
      exact answers_of_made_none hmade ⟨rfl, hw.policy_lt⟩
  | setGrant bucketName userGuid permissions user =>
    refine follows_of_opened hw rfl fun bucket m => .bind (fun w hw => ?_) fun _ => .orThrow _ _
    obtain ⟨bucketAccess, hframe⟩ := upsertGrant_others ⟨bucket.guid, userGuid, permissions⟩ w.db
    show Became m { w with db := (upsertGrant ⟨bucket.guid, userGuid, permissions⟩ w.db).2 }
    rw [hframe]
    exact hw
  | removeGrant bucketName userGuid user => exact follows_of_opened hw rfl fun bucket m w hw => hw
  | setPolicy bucketName document user =>
    exact follows_opened hw fun row hrow => follows_of_makes rfl (setPolicy_makes hw hrow document)
  | removePolicy bucketName user =>
    exact follows_opened hw fun row hrow => follows_of_makes rfl (deletePolicy_makes hw hrow)

/-- **A request makes the change it asks for**, if it succeeds. -/
theorem request_follows (hw : Registered w) (r : Request) : Follows w r (r.program D) := by
  cases r with
  | access r => exact access_follows hw r
  | createBucket req identity aclHeader =>
    have hsame : Became (registry w.db) w := ⟨rfl, hw.policy_lt⟩
    refine Follows.discard (wp_created (answers_of_made_none rfl hsame) (answers_of_made_none rfl hsame)
      (answers_of_made_none rfl hsame) ?_)
    cases hacl : S3RequestService.cannedAcl aclHeader with
    | ok cannedAcl =>
      have hmade : (Request.createBucket req identity aclHeader).made (.ok ()) =
          some (req.bucket, .create (cannedAcl.getD .privateAcl)) := by
        simp only [Request.made, hacl]
      have hfailed : ∀ e, (Request.createBucket req identity aclHeader).made (.error e) = none := by
        intro e
        cases e <;> simp [Request.made, hacl]
      exact wp_mono (createWithAcl_makes hw _ _ cannedAcl) (fun _ _ h => answers_of_made hmade h)
        fun e _ h => answers_of_made_none (hfailed e) h
    | error e =>
      -- The bucket is there, and the request fails.
      obtain rfl := S3RequestService.cannedAcl_error hacl
      have hmade : (Request.createBucket req identity aclHeader).made
          (.error (.invalidArgument "x-amz-acl".toList)) = some (req.bucket, .create .privateAcl) := by
        simp only [Request.made, hacl]
      rw [wp_bind]
      refine wp_mono (create_makes hw req.bucket identity.userGuid) ?_ ?_
      · intro _ _ h
        exact answers_of_made hmade ⟨h.1, h.2.1⟩
      · rintro _ _ ⟨rfl | rfl, hbecame⟩
        · exact answers_of_made_none rfl hbecame
        · exact answers_of_made_none rfl hbecame

/-! ## Runs -/

/-- A bucket is created, whatever is said of its ACL. -/
theorem createBucketFrom_tables (hw : Registered w) (req : S3Types.BucketRequest)
    (identity : S3Types.RequestIdentity) (aclHeader : Option Text) :
    wp (S3BucketController.createBucketFrom req identity aclHeader) (fun _ w' => Access.Tables w')
      (fun _ w' => Access.Tables w') w := by
  refine wp_created hw.toTables hw.toTables hw.toTables ?_
  rw [wp_bind]
  refine wp_mono (Access.create_touches (N := Node.counting) (G := ∅) req.bucket identity.userGuid w) ?_
    fun _ _ h => h.tables hw.toTables
  rintro created w' ⟨htouches, hnew⟩
  rw [wp_bind]
  cases S3RequestService.cannedAcl aclHeader with
  | error e => exact htouches.tables hw.toTables
  | ok cannedAcl =>
    cases cannedAcl with
    | none => exact htouches.tables hw.toTables
    | some acl =>
      show wp (do
        setAcl created.guid acl
        return S3Types.Response.done) (fun _ w' => Access.Tables w') (fun _ w' => Access.Tables w') w'
      rw [wp_bind]
      exact wp_mono (Access.setAcl_touches hnew w acl w' htouches) (fun _ _ h => h.tables hw.toTables)
        fun _ _ h => h.tables hw.toTables

/-- **A request keeps what the settings are looked up by.** -/
theorem request_registered (hw : Registered w) (r : Request) :
    wp (r.program D) (fun _ w' => Registered w') (fun _ w' => Registered w') w := by
  have htables : wp (r.program D) (fun _ w' => Access.Tables w') (fun _ w' => Access.Tables w') w := by
    cases r with
    | access r =>
      exact wp_mono (Access.request_mediated D hw.toTables r) (fun _ _ h => h.tables hw.toTables)
        fun _ _ h => h.tables hw.toTables
    | createBucket req identity aclHeader =>
      rw [Request.program, wp_bind]
      exact createBucketFrom_tables hw req identity aclHeader
  exact wp_mono (wp_and htables (request_follows hw r)) (fun _ _ h => ⟨h.1, h.2.2.2⟩)
    fun _ _ h => ⟨h.1, h.2.2.2⟩

/-- What was possible is valid. -/
theorem valid_follow {log : List (Request × Except Fault Unit)} {m : Registry}
    (hlog : Answered Request.next Request.Answers log m) (hm : m.Valid) :
    (follow Request.next log m).Valid := by
  induction log generalizing m with
  | nil => exact hm
  | cons entry log ih =>
    refine ih hlog.2 ?_
    have hanswer := hlog.1
    show ((entry.1.made entry.2).elim m fun x => x.2.apply x.1 m).Valid
    cases hmade : entry.1.made entry.2 with
    | none => exact hm
    | some x => exact hm.apply (hanswer x hmade)

variable (D)

theorem runAll_registered (hw : Registered w) (requests : List Request) :
    Registered (runAll (Request.program D) requests w) :=
  runAll_keeps _ (fun r _ _ hs => stateAfter_of_wp (request_registered hs r)) hw

theorem runAll_registry (hw : Registered w) (requests : List Request) :
    Answered Request.next Request.Answers (trace (Request.program D) requests w) (registry w.db) ∧
      registry (runAll (Request.program D) requests w).db =
        follow Request.next (trace (Request.program D) requests w) (registry w.db) := by
  have hstep : ∀ (r : Request) (n : ℕ) (s : World) (m : Registry), Registered s ∧ registry s.db = m →
      wp (r.program D)
        (fun a s' => r.Answers (.ok a) m ∧ Registered s' ∧ registry s'.db = r.next (.ok a) m)
        (fun e s' => r.Answers (.error e) m ∧ Registered s' ∧ registry s'.db = r.next (.error e) m) s := by
    rintro r n s m ⟨hs, rfl⟩
    exact wp_mono (wp_and (request_registered hs r) (request_follows hs r))
      (fun _ _ h => ⟨h.2.1, h.1, h.2.2.1⟩) fun _ _ h => ⟨h.2.1, h.1, h.2.2.1⟩
  obtain ⟨hanswered, -, hregistry⟩ := @runAll_refines _ _ _ _ _ _ (Request.program D) Request.next
    Request.Answers (fun _ s m => Registered s ∧ registry s.db = m) hstep requests w (registry w.db) ⟨hw, rfl⟩
  exact ⟨hanswered, hregistry⟩

theorem runAll_valid (hw : Registered w) (hvalid : (registry w.db).Valid) (requests : List Request) :
    (registry (runAll (Request.program D) requests w).db).Valid := by
  obtain ⟨hanswered, hregistry⟩ := runAll_registry D hw requests
  rw [hregistry]
  exact valid_follow hanswered hvalid

theorem registered_nobody : Registered Access.nobody where
  toTables := Access.Pristine.tables ⟨⟨rfl, rfl, rfl, rfl⟩, rfl, rfl⟩
  policy_lt := by simp [Access.nobody]

/-- A bucket is to be created with an ACL there is none of, and later gets one. -/
def mistyped : List Request :=
  [.createBucket { bucket := Retention.diary.name } ⟨[], Retention.writer.guid, false⟩ (some "public".toList),
    .access (.api (.setAcl Retention.diary.name .publicRead Retention.writer))]

/-- The first request fails, and the bucket is there. -/
example : registry (runAll (Request.program Retention.smallDeployment) (mistyped.take 1) Access.nobody).db
    Retention.diary.name = some {} := by decide +kernel

example : registry (runAll (Request.program Retention.smallDeployment) mistyped Access.nobody).db
    Retention.diary.name = some { acl := .publicRead } := by decide +kernel

end Configuration
end SimpleStorage
