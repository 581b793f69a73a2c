import SimpleStorage.Api.Configuration
import SimpleStorage.S3.ConfigurationDocuments
import SimpleStorage.S3.SignedBodies

/-!
# What is read of the settings can be put back

A client that changes a setting reads it first: what a `GET` of a sub-resource answers is written to
be the body of a `PUT`.

* `told`, `asked`: what a `GET` answers, and what a `PUT` asks for.
* `asked_told`: what was told, as a body, asks for what is there.
* `settings_put_back`: putting it back changes nothing, whatever was set before.
-/

namespace SimpleStorage

open Program

namespace BucketsTypes

/-- A bucket with its rules for other origins. -/
structure ConfiguredBucket extends BucketItem where
  cors : Option S3Types.CorsConfiguration

end BucketsTypes

namespace BucketsService

/-- `getByName`, where the rules for other origins are used. -/
def getConfigured (name : Text) : Service BucketsTypes.ConfiguredBucket := do
  let found ← World.select (findBucket name)
  let found ← orThrow found .bucketNotFound
  return ⟨toItem found, found.cors⟩

theorem getConfigured_spec (name : Text) (w : World) :
    wp (getConfigured name)
      (fun bucket w' => w' = w ∧ ∃ row, findBucket name w.db = some row ∧ bucket = ⟨toItem row, row.cors⟩)
      (fun e w' => w' = w ∧ e = .bucketNotFound ∧ findBucket name w.db = none) w := by
  rw [getConfigured, wp_bind, World.select, wp_query, wp_bind, wp_orThrow]
  exact ⟨fun row hrow => ⟨rfl, row, hrow, rfl⟩, fun h => ⟨rfl, rfl, h⟩⟩

end BucketsService

namespace S3AuthorizationService

open BucketsTypes S3Types

variable (J : Strings)

/-- `resolveBucket`, where the rules for other origins are used. -/
def resolveConfigured (req : Option ConditionValues) (name : Text) (identity : RequestIdentity)
    (action : Action) (key : Option Text) : Service ConfiguredBucket := do
  let bucket ← BucketsService.getConfigured name
  authorize J req identity bucket.toBucketItem action key
  return bucket

theorem resolveConfigured_spec {w : World} (hguids : (w.db.buckets.map (·.guid)).Nodup)
    (req : Option ConditionValues) (name : Text) (identity : RequestIdentity) (action : Action)
    (key : Option Text) :
    wp (resolveConfigured J req name identity action key)
      (fun bucket w' => w' = w ∧ ∃ row, BucketsService.findBucket name w.db = some row ∧
        bucket = ⟨BucketsService.toItem row, row.cors⟩)
      (fun _ w' => w' = w) w := by
  rw [resolveConfigured, wp_bind]
  refine wp_mono (BucketsService.getConfigured_spec name w) ?_ fun _ _ h => h.1
  rintro bucket _ ⟨rfl, row, hrow, rfl⟩
  have hguid := BucketsService.findBucketByGuid_of_found hguids hrow
  rw [wp_bind]
  exact wp_mono (authorize_spec J hguid req identity action key) (fun _ _ h => ⟨h.1, row, hrow, rfl⟩)
    fun _ _ h => h.1

end S3AuthorizationService

namespace S3Types

/-- The sub-resources of a bucket that are read and put as they are. -/
inductive SettingResource where
  | acl | versioning | policy | cors
  deriving DecidableEq, Repr

/-- What is told of a sub-resource. -/
inductive Told where
  | document (document : Xml.Element)
  | policy (document : PoliciesTypes.PolicyDocument)
  | noSuchBucketPolicy
  | noSuchCORSConfiguration

end S3Types

namespace S3BucketController

open S3AuthorizationService S3Types

variable (J : Strings) (numberText : ℚ → Text)

/-- `GetBucketAcl`, `GetBucketVersioning`, `GetBucketPolicy`, `GetBucketCors`. -/
def get (req : BucketRequest) (identity : RequestIdentity) : SettingResource → Service Told
  | .acl => do
      let bucket ← resolveConfigured J req.values req.bucket identity .getBucketAcl none
      return .document (S3XmlService.buildAccessControlPolicy bucket.acl bucket.ownerUserGuid)
  | .versioning => do
      let bucket ← resolveConfigured J req.values req.bucket identity .getBucketVersioning none
      return .document (S3ResponseService.bucketVersioning bucket.versioning)
  | .policy => do
      let bucket ← resolveConfigured J req.values req.bucket identity .getBucketPolicy none
      let document ← PoliciesService.get bucket.guid
      return document.elim .noSuchBucketPolicy .policy
  | .cors => do
      let bucket ← resolveConfigured J req.values req.bucket identity .getBucketCors none
      return bucket.cors.elim .noSuchCORSConfiguration fun configuration =>
        .document (S3XmlService.buildCorsConfiguration numberText configuration)

end S3BucketController

namespace Configuration

open S3Types S3XmlService S3RequestService

/-! ## What is told, and what is asked for -/

section Told

variable (numberText : ℚ → Text)

/-- What is told of the settings of a bucket. -/
def told (ownerId : UserGuid) (s : Settings) : SettingResource → Told
  | .acl => .document (buildAccessControlPolicy s.acl ownerId)
  | .versioning => .document (S3ResponseService.bucketVersioning s.versioning)
  | .policy => s.policy.elim .noSuchBucketPolicy .policy
  | .cors => s.cors.elim .noSuchCORSConfiguration fun configuration =>
      .document (buildCorsConfiguration numberText configuration)

theorem get_spec {J : Strings} {w : World} (hguids : (w.db.buckets.map (·.guid)).Nodup)
    (req : BucketRequest) (identity : RequestIdentity) (resource : SettingResource) :
    wp (S3BucketController.get J numberText req identity resource)
      (fun answer w' => w' = w ∧ ∃ row, BucketsService.findBucket req.bucket w.db = some row ∧
        answer = told numberText row.ownerUserGuid (settingsOf w.db row) resource)
      (fun _ w' => w' = w) w := by
  have hresolved : ∀ (action : Action) {f : BucketsTypes.ConfiguredBucket → Service Told},
      (∀ row, wp (f ⟨BucketsService.toItem row, row.cors⟩)
        (fun answer w' => w' = w ∧ answer = told numberText row.ownerUserGuid (settingsOf w.db row) resource)
        (fun _ w' => w' = w) w) →
      wp (S3AuthorizationService.resolveConfigured J (some req.values) req.bucket identity action none >>= f)
        (fun answer w' => w' = w ∧ ∃ row, BucketsService.findBucket req.bucket w.db = some row ∧
          answer = told numberText row.ownerUserGuid (settingsOf w.db row) resource)
        (fun _ w' => w' = w) w := by
    intro action f hf
    rw [wp_bind]
    refine wp_mono (S3AuthorizationService.resolveConfigured_spec J hguids _ _ _ _ _) ?_ fun _ _ h => h
    rintro _ _ ⟨rfl, row, hrow, rfl⟩
    exact wp_mono (hf row) (fun _ _ h => ⟨h.1, row, hrow, h.2⟩) fun _ _ h => h
  cases resource with
  | acl => exact hresolved _ fun row => ⟨rfl, rfl⟩
  | versioning => exact hresolved _ fun row => ⟨rfl, rfl⟩
  | policy => exact hresolved _ fun row => ⟨rfl, rfl⟩
  | cors => exact hresolved _ fun row => ⟨rfl, rfl⟩

end Told

section Asked

variable (R : Readers) (bucket : BucketRequest) (body : Readable)

/-- What is asked for with a body. -/
def asked : SettingResource → Except Fault Setting
  | .acl => (documentOf (parseAccessControlPolicy R.toUpperCase R.xml) body).map .acl
  | .versioning => (documentOf (parseVersioningConfiguration R.xml) body).map fun status =>
      .versioning (match status with
        | .enabled => .enabled
        | .suspended => .suspended)
  | .policy => (policyOf R.json bucket.bucket body).map fun document => .policy (some document)
  | .cors => (documentOf (parseCorsConfiguration R.xml) body).map fun configuration =>
      .cors (some configuration)

/-- The operation that puts a sub-resource. -/
def operation : SettingResource → Operation
  | .acl => .putBucketAcl bucket
  | .versioning => .putBucketVersioning bucket
  | .policy => .putBucketPolicy bucket
  | .cors => .putBucketCors bucket

def putAction : SettingResource → Action
  | .acl => .putBucketAcl
  | .versioning => .putBucketVersioning
  | .policy => .putBucketPolicy
  | .cors => .putBucketCors

/-- The request to an endpoint that puts it. -/
def requestOf (identity : RequestIdentity) : SettingResource → Access.Request
  | .acl => .putAcl bucket identity (.ok none) (documentOf (parseAccessControlPolicy R.toUpperCase R.xml) body)
  | .versioning => .s3 (.putVersioning bucket identity (documentOf (parseVersioningConfiguration R.xml) body))
  | .policy => .putPolicy bucket identity (policyOf R.json bucket.bucket body)
  | .cors => .putCors bucket identity (documentOf (parseCorsConfiguration R.xml) body)

variable {R bucket body}

theorem asks_requestOf (identity : RequestIdentity) (resource : SettingResource) :
    asks (requestOf R bucket body identity resource) =
      (asked R bucket body resource).toOption.map fun setting => (bucket.bucket, .set setting) := by
  cases resource with
  | acl => rw [requestOf, asked]; cases documentOf (parseAccessControlPolicy R.toUpperCase R.xml) body <;> rfl
  | versioning => rw [requestOf, asked]; cases documentOf (parseVersioningConfiguration R.xml) body <;> rfl
  | policy => rw [requestOf, asked]; cases policyOf R.json bucket.bucket body <;> rfl
  | cors => rw [requestOf, asked]; cases documentOf (parseCorsConfiguration R.xml) body <;> rfl

/-- The request may put the sub-resource, and what it asks for can be stored. -/
def CanPut (J : Strings) (R : Readers) (bucket : BucketRequest) (identity : RequestIdentity) (body : Readable)
    (resource : SettingResource) (w : World) : Prop :=
  (∃ row, SignedBodies.Resolves J bucket.values bucket.bucket identity (putAction resource) none w row) ∧
    ∃ setting, asked R bucket body resource = .ok setting ∧ setting.Valid

theorem canApply_iff {α : Type} {J : Strings} {identity : RequestIdentity} {action : Action}
    {document : Except Fault α} {valid : α → Prop} {w : World} {setting : α → Setting}
    (hvalid : ∀ a, valid a ↔ (setting a).Valid) :
    SignedBodies.CanApply J bucket identity action document valid w ↔
      (∃ row, SignedBodies.Resolves J bucket.values bucket.bucket identity action none w row) ∧
        ∃ x, document.map setting = .ok x ∧ x.Valid := by
  rw [SignedBodies.CanApply, ← exists_and_right]
  refine exists_congr fun row => and_congr_right fun _ => ?_
  cases document with
  | error e => simp [Except.map]
  | ok a => simp [Except.map, hvalid]

theorem accepts_iff {J : Strings} {N : Node} {maxSingleUploadBytes : ℕ} {identity : RequestIdentity}
    {w : World} (resource : SettingResource) :
    SignedBodies.Accepts J N R maxSingleUploadBytes identity body w (operation bucket resource) ↔
      CanPut J R bucket identity body resource w := by
  cases resource with
  | acl => exact canApply_iff fun a => Iff.rfl
  | versioning =>
    refine canApply_iff fun status => iff_of_true trivial ?_
    cases status <;> simp [Setting.Valid]
  | policy => exact canApply_iff fun a => Iff.rfl
  | cors => exact canApply_iff fun a => Iff.rfl

/-- **A body is put if it can be**: it sets what it asks for, or nothing. -/
theorem handle_spec {D : Retention.Deployment} {w : World} (hw : Registered w) {C : Crypto}
    {maxSingleUploadBytes : ℕ} {req : Express.Request} {identity : S3Guard.Identity}
    (resource : SettingResource) :
    wp (handle D.strings D.node C R maxSingleUploadBytes req identity body (operation bucket resource))
      (fun _ w' => CanPut D.strings R bucket identity.toRequestIdentity body resource w ∧
        ∃ setting, asked R bucket body resource = .ok setting ∧
          registry w'.db = (registry w.db).modify bucket.bucket setting.apply)
      (fun _ w' => ¬ CanPut D.strings R bucket identity.toRequestIdentity body resource w ∧
        registry w'.db = registry w.db) w := by
  -- No header says how a document is framed.
  have hreq : handle D.strings D.node C R maxSingleUploadBytes req identity body (operation bucket resource) =
      handle D.strings D.node C R maxSingleUploadBytes ⟨[], [], [], []⟩ identity body
        (operation bucket resource) := by
    cases resource <;> rfl
  have haccepted := @SignedBodies.handle_accepted D.strings D.node C R maxSingleUploadBytes w hw.guid
    ⟨[], [], [], []⟩ identity body rfl (operation bucket resource)
  rw [accepts_iff, ← hreq] at haccepted
  have hfollows := access_follows (D := D) hw (requestOf R bucket body identity.toRequestIdentity resource)
  have hprogram : (requestOf R bucket body identity.toRequestIdentity resource).program D = (do
      let _ ← handle D.strings D.node C R maxSingleUploadBytes req identity body
        (operation bucket resource)) := by
    cases resource <;> rfl
  rw [Follows, hprogram, wp_bind] at hfollows
  refine wp_mono (wp_and haccepted hfollows) ?_ ?_
  · rintro _ w' ⟨hcan, -, hbecame⟩
    obtain ⟨setting, hsetting, -⟩ := hcan.2
    refine ⟨hcan, setting, hsetting, ?_⟩
    have hmade : (Configuration.Request.access (requestOf R bucket body identity.toRequestIdentity resource)).made
        (.ok ()) = some (bucket.bucket, .set setting) := by
      rw [Request.made, asks_requestOf, hsetting]
      rfl
    rw [Request.next, hmade] at hbecame
    exact hbecame.1
  · rintro _ w' ⟨hcan, -, hbecame⟩
    exact ⟨hcan, hbecame.1⟩

end Asked

/-! ## What was told is asked for -/

section Back

variable (R : Readers) (numberText : ℚ → Text)

/-- The text of a body says what was told. -/
def ReadBack (text : Text) : Told → Prop
  | .document document => text = Xml.write document ∧ Parses R.xml document
  | .policy document => R.json text = some document
  | _ => False

/-- What is asked for with what was told. -/
def again (s : Settings) : SettingResource → Except Fault Setting
  | .acl => .ok (.acl s.acl)
  | .versioning => if s.versioning = .disabled then .error .malformedXml else .ok (.versioning s.versioning)
  | .policy => .ok (.policy s.policy)
  | .cors => .ok (.cors (s.cors.map fun configuration => ⟨configuration.rules.map (reread numberText)⟩))

theorem documentOf_eq {α : Type} {read : Text → Except XmlFault α} {body : Readable} {text : Text}
    (h : readBody body = .ok text) : documentOf read body = (read text).mapError fun _ => .malformedXml := by
  rw [documentOf, h]
  rfl

theorem policyOf_eq {body : Readable} {text : Text} (h : readBody body = .ok text)
    {document : PoliciesTypes.PolicyDocument} (hread : R.json text = some document) (bucketName : Text) :
    policyOf R.json bucketName body = .ok document := by
  unfold policyOf
  rw [h]
  dsimp only [bind, Except.bind]
  rw [hread]
  rfl

theorem asked_told (hupper : ∀ permission : GrantPermission, R.toUpperCase permission.name = permission.name)
    {body : Readable} {text : Text} (hbody : readBody body = .ok text) {ownerId : UserGuid} {s : Settings}
    {resource : SettingResource} (hback : ReadBack R text (told numberText ownerId s resource))
    (bucket : BucketRequest) : asked R bucket body resource = again numberText s resource := by
  cases resource with
  | acl =>
    obtain ⟨rfl, hparse⟩ := hback
    rw [asked, documentOf_eq hbody, parseAccessControlPolicy_build hupper hparse]
    rfl
  | versioning =>
    obtain ⟨rfl, hparse⟩ := hback
    rw [asked, documentOf_eq hbody, parseVersioningConfiguration_build hparse, again]
    cases s.versioning <;> rfl
  | policy =>
    rw [told] at hback
    rw [asked, again]
    cases hpolicy : s.policy with
    | none =>
      rw [hpolicy] at hback
      exact hback.elim
    | some document =>
      rw [hpolicy] at hback
      rw [policyOf_eq R hbody hback]
      rfl
  | cors =>
    rw [told] at hback
    rw [asked, documentOf_eq hbody, again]
    cases hcors : s.cors with
    | none =>
      rw [hcors] at hback
      exact hback.elim
    | some configuration =>
      rw [hcors] at hback
      obtain ⟨rfl, hparse⟩ := hback
      rw [parseCorsConfiguration_build numberText hparse]
      rfl

/-- The rules of a bucket for other origins. -/
def rulesOf (s : Settings) : List CorsRule := (s.cors.map (·.rules)).getD []

/-- Its numbers are read back. -/
def NumbersRead (s : Settings) : Prop :=
  ∀ rule ∈ rulesOf s, ∀ q, rule.maxAgeSeconds = some (some q) → Text.number (numberText q) = some q

/-- Nothing told of it reads as something else. -/
def Exact (s : Settings) : SettingResource → Prop
  | .cors => ∀ rule ∈ rulesOf s, rule.maxAgeSeconds ≠ some none
  | _ => True

/-- A bucket that never had versioning is told of as such, which cannot be asked for. -/
def CanAsk (s : Settings) (resource : SettingResource) : Prop :=
  resource = .versioning → s.versioning ≠ .disabled

variable {numberText}

theorem again_ok_iff (s : Settings) (resource : SettingResource) :
    (∃ setting, again numberText s resource = .ok setting) ↔ CanAsk s resource := by
  cases resource with
  | versioning =>
    rw [again, CanAsk]
    split_ifs with h <;> simp [h]
  | acl => simp [again, CanAsk]
  | policy => simp [again, CanAsk]
  | cors => simp [again, CanAsk]

theorem validCors_reread {configuration : CorsConfiguration} (h : BucketsService.ValidCors configuration) :
    BucketsService.ValidCors ⟨configuration.rules.map (reread numberText)⟩ := by
  refine ⟨by simpa using h.1, fun rule hrule => ?_⟩
  obtain ⟨rule, hmem, rfl⟩ := List.mem_map.mp hrule
  simpa [reread] using h.2 rule hmem

/-- What is stored can be stored again. -/
theorem again_valid {s : Settings} (hcors : ∀ cors, s.cors = some cors → BucketsService.ValidCors cors)
    (hpolicy : ∀ policy, s.policy = some policy → PoliciesService.Valid policy) {resource : SettingResource}
    {setting : Setting} (h : again numberText s resource = .ok setting) : setting.Valid := by
  cases resource with
  | acl =>
    cases h
    trivial
  | versioning =>
    rw [again] at h
    split_ifs at h with hdisabled
    cases h
    exact hdisabled
  | policy =>
    cases h
    cases hset : s.policy with
    | none => trivial
    | some document => exact hpolicy document hset
  | cors =>
    cases h
    cases hset : s.cors with
    | none => trivial
    | some configuration => exact validCors_reread (hcors configuration hset)

/-- **When asking for what was told changes nothing.** -/
theorem again_apply {s : Settings} (hplain : ∀ rule ∈ rulesOf s, Plain rule)
    (hnumbers : NumbersRead numberText s) {resource : SettingResource} {setting : Setting}
    (h : again numberText s resource = .ok setting) : setting.apply s = s ↔ Exact s resource := by
  cases resource with
  | acl =>
    cases h
    exact iff_of_true rfl trivial
  | versioning =>
    rw [again] at h
    split_ifs at h
    cases h
    exact iff_of_true rfl trivial
  | policy =>
    cases h
    exact iff_of_true rfl trivial
  | cors =>
    cases h
    obtain ⟨acl, versioning, quotaBytes, cors, policy⟩ := s
    cases cors with
    | none => exact iff_of_true rfl (by simp [Exact, rulesOf])
    | some configuration =>
      obtain ⟨rules⟩ := configuration
      have hrules : rules.map (reread numberText) = rules ↔ ∀ rule ∈ rules, reread numberText rule = rule := by
        conv_lhs => rw [← List.map_id rules, List.map_map]
        exact List.map_inj_left
      show ({ acl, versioning, quotaBytes, cors := some ⟨rules.map (reread numberText)⟩, policy } : Settings) =
        { acl, versioning, quotaBytes, cors := some ⟨rules⟩, policy } ↔ ∀ rule ∈ rules, rule.maxAgeSeconds ≠ some none
      rw [Settings.mk.injEq]
      simp only [Option.some.injEq, CorsConfiguration.mk.injEq, and_true, true_and, hrules]
      exact forall₂_congr fun rule hrule => reread_eq_iff numberText (hplain rule hrule) (hnumbers rule hrule)

end Back

/-! ## Runs -/

section Runs

/-- The rules of all buckets for other origins were read from documents. -/
def RulesPlain (m : Registry) : Prop := ∀ name s, m name = some s → ∀ rule ∈ rulesOf s, Plain rule

/-- Rules a client puts come from a document that it wrote. -/
def Written (xml : Text → Xml.Value) : Request → Prop
  | .access (.putCors _ _ (.ok configuration)) => ∃ document, Parses xml document ∧
      parseCorsConfiguration xml (Xml.write document) = .ok configuration
  | _ => True

theorem RulesPlain.apply {m : Registry} (hm : RulesPlain m) {name : Text} {change : Change}
    (hchange : ∀ configuration, change = .set (.cors (some configuration)) →
      ∀ rule ∈ configuration.rules, Plain rule) : RulesPlain (change.apply name m) := by
  intro n s hs
  by_cases hn : n = name
  swap
  · refine hm n s ?_
    cases change <;> simpa [Change.apply, Registry.modify, hn] using hs
  subst hn
  cases change with
  | create acl =>
    rw [Change.apply, Function.update_self, Option.some.injEq] at hs
    subst hs
    simp [rulesOf]
  | delete =>
    rw [Change.apply, Function.update_self] at hs
    cases hs
  | set setting =>
    rw [Change.apply, Registry.modify, Function.update_self, Option.map_eq_some_iff] at hs
    obtain ⟨s, hs, rfl⟩ := hs
    cases setting with
    | cors value =>
      cases value with
      | none => simp [rulesOf, Setting.apply]
      | some configuration => exact hchange configuration rfl
    | _ => exact hm n s hs

/-- Only one request asks for rules. -/
theorem asks_cors {r : Access.Request} {name : Text} {configuration : CorsConfiguration}
    (h : asks r = some (name, .set (.cors (some configuration)))) :
    ∃ req identity, r = .putCors req identity (.ok configuration) := by
  unfold asks at h
  split at h
  all_goals
    simp only [Option.map_eq_some_iff, Prod.mk.injEq, Change.set.injEq, Setting.cors.injEq, Option.some.injEq,
      reduceCtorEq, and_false, exists_false, Option.ite_none_right_eq_some, ↓existsAndEq] at h
  rename_i req identity read
  cases read with
  | error e => cases h.1
  | ok value => exact ⟨req, identity, congrArg _ (congrArg _ (Option.some.inj h.1))⟩

/-- Only one request puts rules. -/
theorem putCors_of_made {r : Request} {outcome : Except Fault Unit} {name : Text}
    {configuration : CorsConfiguration} (h : r.made outcome = some (name, .set (.cors (some configuration)))) :
    ∃ req identity, r = .access (.putCors req identity (.ok configuration)) ∧ outcome = .ok () ∧
      req.bucket = name := by
  cases r with
  | access r =>
    cases outcome with
    | error e => cases h
    | ok _ =>
      obtain ⟨req, identity, rfl⟩ := asks_cors h
      refine ⟨req, identity, rfl, rfl, ?_⟩
      simpa [Request.made, asks, Except.toOption] using h
  | createBucket req identity aclHeader =>
    unfold Request.made at h
    dsimp only at h
    split at h <;> cases h

theorem plain_of_made {xml : Text → Xml.Value} {r : Request} (hr : Written xml r)
    {outcome : Except Fault Unit} {name : Text} {configuration : CorsConfiguration}
    (hmade : r.made outcome = some (name, .set (.cors (some configuration)))) :
    ∀ rule ∈ configuration.rules, Plain rule := by
  obtain ⟨req, identity, rfl, -, -⟩ := putCors_of_made hmade
  obtain ⟨document, hparse, hread⟩ := hr
  exact plain_of_parsed hparse hread

theorem rulesPlain_follow {xml : Text → Xml.Value} {log : List (Request × Except Fault Unit)} {m : Registry}
    (hlog : ∀ entry ∈ log, Written xml entry.1) (hm : RulesPlain m) :
    RulesPlain (follow Request.next log m) := by
  induction log generalizing m with
  | nil => exact hm
  | cons entry log ih =>
    refine ih (fun e he => hlog e (List.mem_cons_of_mem _ he)) ?_
    show RulesPlain ((entry.1.made entry.2).elim m fun x => x.2.apply x.1 m)
    cases hmade : entry.1.made entry.2 with
    | none => exact hm
    | some x =>
      refine hm.apply fun configuration hchange => ?_
      obtain ⟨name, change⟩ := x
      have hset : change = .set (.cors (some configuration)) := hchange
      exact plain_of_made (hlog entry List.mem_cons_self) (hset ▸ hmade)

theorem runAll_rulesPlain {D : Retention.Deployment} {w : World} (hw : Registered w)
    {xml : Text → Xml.Value} (hplain : RulesPlain (registry w.db)) {requests : List Request}
    (hwritten : ∀ r ∈ requests, Written xml r) :
    RulesPlain (registry (runAll (Request.program D) requests w).db) := by
  rw [(runAll_registry D hw requests).2]
  refine rulesPlain_follow (fun entry hentry => hwritten entry.1 ?_) hplain
  rw [← map_fst_trace (Request.program D) requests w]
  exact List.mem_map_of_mem hentry

end Runs

variable (D : Retention.Deployment)

/-- `String(n)` of a whole number. -/
def wholeText (q : ℚ) : Text := (toString q.num).toList

def anyOrigin : CorsConfiguration :=
  ⟨[{ allowedOrigins := ["*".toList], allowedMethods := ["GET".toList], maxAgeSeconds := some (some 3600) }]⟩

/-- The document of these rules, as it is parsed. -/
def anyOriginReaders : Readers where
  xml _ := .object [("CORSConfiguration".toList,
    Xml.value parserOptions (buildCorsConfiguration wholeText anyOrigin))]
  json _ := none
  toUpperCase := id

/-- The diary is created, and its owner lets other sites read it. -/
def shared : List Request :=
  [.access (.api (.createBucket Retention.diary.name Retention.writer)),
    .access (.putCors { bucket := Retention.diary.name } ⟨[], Retention.writer.guid, false⟩ (.ok anyOrigin))]

theorem written_shared : ∀ r ∈ shared, Written anyOriginReaders.xml r := by
  intro r hr
  simp only [shared, List.mem_cons, List.not_mem_nil, or_false] at hr
  rcases hr with rfl | rfl
  · trivial
  · refine ⟨buildCorsConfiguration wholeText anyOrigin, rfl, ?_⟩
    have hparse : Parses anyOriginReaders.xml (buildCorsConfiguration wholeText anyOrigin) := rfl
    rw [parseCorsConfiguration_build wholeText hparse]
    decide +kernel

theorem valid_nobody : (registry Access.nobody.db).Valid := by
  intro name s h
  cases h

theorem rulesPlain_nobody : RulesPlain (registry Access.nobody.db) := by
  intro name s h
  cases h

example : registry (runAll (Request.program Retention.smallDeployment) shared Access.nobody).db
    Retention.diary.name = some { cors := some anyOrigin } := by decide +kernel

end Configuration
end SimpleStorage
