import SimpleStorage.Objects.KeyOperations
import SimpleStorage.S3.ByteRanges
import SimpleStorage.S3.ConditionalRequests
import SimpleStorage.S3.Controllers
import SimpleStorage.S3.ObjectHeaders

/-!
# Reading an object

`GetObject` and `HeadObject`: which version a request asks for, whether it is to be read, under
which conditions, how much of it, and what is told of it.

* `openPayload_spec`: the bytes of a range are the bytes of the payload, and as many as is told.
* `get_head`: the two answer alike, but for the last bytes of an empty object.
* `Serves`: what an answer is.
-/

namespace SimpleStorage

open Program

namespace S3Types

inductive SubResource where
  | none | acl | cors | delete | location | policy | uploadId | uploads | versioning | versions
  deriving DecidableEq, Repr

def SubResource.name (subResource : SubResource) : Text :=
  String.toList <| match subResource with
    | .none => "none"
    | .acl => "acl"
    | .cors => "cors"
    | .delete => "delete"
    | .location => "location"
    | .policy => "policy"
    | .uploadId => "uploadId"
    | .uploads => "uploads"
    | .versioning => "versioning"
    | .versions => "versions"

/-- Sub-resources a real S3 would answer but this deployment does not implement. -/
def unimplementedSubResources : List Text :=
  ["accelerate", "analytics", "encryption", "inventory", "lifecycle", "legal-hold", "logging", "metrics",
    "notification", "object-lock", "ownershipControls", "publicAccessBlock", "replication", "requestPayment",
    "restore", "retention", "select", "tagging", "torrent", "website"].map String.toList

/-- How a read ends without an object. -/
inductive ReadFault where
  /-- The newest version is a delete marker. -/
  | noSuchKey (key versionId : Text)
  /-- The version asked for is a delete marker. -/
  | methodNotAllowed (key versionId : Text)
  | condition (e : ConditionFault)
  | range (e : RangeFault)
  /-- No stream ends before the first byte. -/
  | unreadableRange
  deriving DecidableEq, Repr

/-- What a client is told of an object, and its bytes. -/
structure ObjectAnswer where
  status : ℕ
  headers : S3ResponseService.Headers
  body : Option Readable
  deriving DecidableEq, Repr

end S3Types

open Express S3Types

namespace S3RequestService

variable (malformed : Text → Text)

def knownSubResources : List SubResource :=
  [.acl, .uploadId, .uploads, .versioning, .versions, .policy, .cors, .location, .delete]

def subResource (req : Request) : Except Fault SubResource :=
  let keys := (parameters malformed (queryStringOf req.url)).map (·.1)
  match keys.find? (· ∈ unimplementedSubResources) with
  | some unimplemented => .error (.notImplemented unimplemented)
  | none => .ok ((knownSubResources.find? fun known => known.name ∈ keys).getD .none)

/-- `?acl` is a bucket-only concept here. -/
def objectSubResource (req : Request) (key : Text) : Except Fault SubResource := do
  let subResource ← subResource malformed req
  if subResource = .acl then throw (.notImplemented key) else return subResource

end S3RequestService

namespace S3ResponseService

open ObjectsTypes

/-- A delete marker has no payload. -/
def assertReadable (version : ObjectVersionDetail) : Except ReadFault Unit :=
  if version.isDeleteMarker then
    .error (if version.isLatest then .noSuchKey version.key version.versionId
      else .methodNotAllowed version.key version.versionId)
  else .ok ()

/-- `String(n)` of a whole number. -/
def integerText (z : ℤ) : Text :=
  if z < 0 then '-' :: Nat.toDigits 10 z.natAbs else Nat.toDigits 10 z.natAbs

def contentRange (size : ℕ) (range : ResolvedRange) : Text :=
  "bytes ".toList ++ integerText range.start ++ '-' :: integerText range.end ++ '/' :: Nat.toDigits 10 size

theorem integerText_natCast (n : ℕ) : integerText n = Nat.toDigits 10 n := by
  rw [integerText, if_neg (by omega), Int.natAbs_natCast]

end S3ResponseService

namespace S3ObjectController

open ObjectsTypes ObjectsService S3RequestService S3ResponseService

variable (J : Strings) (malformed : Text → Text) (D : Numbers) (toUTCString : Timestamp → Text) (N : Node)

/-- Whether a version is to be read, and which part of it. -/
def selectPart (req : Express.Request) (version : ObjectVersionDetail) :
    Except ReadFault (ObjectVersionDetail × Option ResolvedRange) := do
  assertReadable version
  (assertConditions J D req version.etag version.lastModified).mapError ReadFault.condition
  let range ← (parseRange J req version.size).mapError ReadFault.range
  return (version, range)

/-- What `GetObject` and `HeadObject` begin with: the version that is asked for, and the part of it. -/
def select (req : Express.Request) (values : ConditionValues) (identity : RequestIdentity) :
    Service (Except ReadFault (ObjectVersionDetail × Option ResolvedRange)) := do
  let (bucketName, key) := bucketAndKey req
  let _ ← readRequest (objectSubResource malformed req key)
  let versionId := query malformed req "versionId".toList
  let action : Action := if (Query.present versionId).isSome then .getObjectVersion else .getObject
  let bucket ← S3AuthorizationService.resolveBucket J values bucketName identity action (some key)
  let version ← getVersion bucket.guid key versionId
  return selectPart J D req version

/-- The headers and the status, shared by `GetObject` and `HeadObject`. -/
def answer (req : Express.Request) (version : ObjectVersionDetail) (range : Option ResolvedRange) (length : ℤ)
    (body : Option Readable) : ObjectAnswer where
  status := if range.isSome then 206 else 200
  headers := objectHeaders toUTCString version (responseOverrides malformed req) ++
    ("Content-Length".toList, integerText length) ::
      (range.map fun range => ("Content-Range".toList, contentRange version.size range)).toList
  body

/-- `HeadObject`: the same headers as `GetObject`, without the payload. -/
def head (req : Express.Request) (values : ConditionValues) (identity : RequestIdentity) :
    Service (Except ReadFault ObjectAnswer) := do
  let selected ← select J malformed D req values identity
  return selected.map fun selected =>
    answer malformed toUTCString req selected.1 selected.2
      (selected.2.elim (selected.1.size : ℤ) fun range => range.end - range.start + 1) none

/-- The payload of a version, or a part of it.  The blob is looked up before its stream is opened. -/
def openPayload (version : ObjectVersionDetail) (range : Option ResolvedRange) :
    Service (Except ReadFault StorageService.ReadResult) :=
  let storagePath := version.storagePath.getD []
  match range with
  | none => do
      let payload ← readPayload N storagePath none version.encryption
      return .ok payload
  | some range =>
      if 0 ≤ range.end then do
        let payload ← readPayload N storagePath (some ⟨range.start.toNat, range.end.toNat⟩) version.encryption
        return .ok payload
      else do
        let _ ← readPayload N storagePath none version.encryption
        return .error .unreadableRange

/-- `GetObject` (with ranges, conditional headers and `?versionId`). -/
def get (req : Express.Request) (values : ConditionValues) (identity : RequestIdentity) :
    Service (Except ReadFault ObjectAnswer) := do
  let selected ← select J malformed D req values identity
  match selected with
  | .error e => return .error e
  | .ok (version, range) =>
      let payload ← openPayload N version range
      return payload.map fun payload =>
        answer malformed toUTCString req version range payload.size (some payload.stream)

/-! ## The bytes that are read -/

variable {J malformed D toUTCString N}

/-- The bytes of a range. -/
def part (content : Bytes) (range : Option ResolvedRange) : Bytes :=
  StorageService.slice content (range.map fun range => ⟨range.start.toNat, range.end.toNat⟩)

/-- How many they are, as a `HeadObject` has it. -/
def lengthOf (size : ℕ) (range : Option ResolvedRange) : ℤ :=
  range.elim (size : ℤ) fun range => range.end - range.start + 1

/-- **What a header is resolved to** is a part of the object, or the last bytes of an empty one. -/
theorem parseRange_within {req : Express.Request} {size : ℕ} {range : ResolvedRange}
    (h : parseRange J req size = .ok (some range)) :
    Within size range ∨
      (size = 0 ∧ range = ⟨0, -1⟩ ∧ ∃ count, 0 < count ∧ Asks J req (.suffix count)) := by
  by_cases hasks : ∃ request, Asks J req request
  swap
  · rw [parseRange_of_not_asks (not_exists.mp hasks)] at h
    cases h
  obtain ⟨request, hasks⟩ := hasks
  have hwithin := (resolved_of_asks hasks h).2
  by_cases hempty : size = 0 ∧ ∃ count, 0 < count ∧ request = .suffix count
  swap
  · exact .inl (hwithin.mpr hempty)
  obtain ⟨rfl, count, hcount, rfl⟩ := hempty
  rw [parseRange_of_asks hasks] at h
  dsimp only at h
  rw [if_neg (by omega)] at h
  cases h
  refine .inr ⟨rfl, ?_, count, hcount, hasks⟩
  rw [ResolvedRange.mk.injEq]
  omega

theorem length_part {content : Bytes} {range : Option ResolvedRange}
    (h : ∀ r, range = some r → Within content.length r) :
    ((part content range).length : ℤ) = lengthOf content.length range := by
  cases range with
  | none => rfl
  | some range =>
    obtain ⟨hstart, hle, hend⟩ := h range rfl
    show (((content.drop range.start.toNat).take (range.end.toNat + 1 - range.start.toNat)).length : ℤ) =
      range.end - range.start + 1
    rw [List.length_take, List.length_drop]
    omega

/-- A stream is as long as its range says, or as the file is. -/
theorem read_size (storagePath : Text) (range : Option StorageTypes.ReadRange)
    (encryption : Option StorageTypes.BlobEncryption) (w : World) :
    wp (StorageService.read N storagePath range encryption)
      (fun result _ => ∃ blob, w.disk.get storagePath = some blob ∧
        result.size = range.elim blob.content.length fun r => r.end + 1 - r.start)
      (fun _ _ => True) w := by
  rw [StorageService.read, wp_bind, wp_observe, wp_bind, wp_orThrow]
  refine ⟨fun blob hblob => ?_, fun _ => trivial⟩
  cases encryption with
  | none => exact ⟨blob, hblob, by cases range <;> rfl⟩
  | some descriptor =>
    dsimp only
    rw [wp_bind, wp_query, wp_bind, wp_orThrow]
    exact ⟨fun _ _ => ⟨blob, hblob, by cases range <;> rfl⟩, fun _ => trivial⟩

/-- A payload is read, and is as long as is told. -/
theorem readPayload_eq {w : World} {storagePath : Text} {encryption : Option StorageTypes.BlobEncryption}
    {content : Bytes} (h : StorageService.payload N w.encryption w.disk storagePath encryption = some content)
    (range : Option StorageTypes.ReadRange) :
    ∃ payload, readPayload N storagePath range encryption w = .ok payload w ∧
      payload.stream.interrupted = false ∧ payload.stream.content = StorageService.slice content range ∧
      payload.size = range.elim content.length fun r => r.end + 1 - r.start := by
  obtain ⟨payload, hread, hwhole, hcontent⟩ := StorageService.read_eq h range
  obtain ⟨blob, hblob, hsize⟩ := wp_of_ok hread (read_size storagePath range encryption w)
  have hlength : blob.content.length = content.length := by
    rw [StorageService.payload, hblob, Option.bind_some] at h
    cases encryption with
    | none => exact congrArg List.length (Option.some.inj h)
    | some descriptor =>
      obtain ⟨blobKey, -, rfl⟩ := Option.map_eq_some_iff.mp h
      exact (@StorageCipher.length_decrypt N blobKey blob.content).symm
  rw [hlength] at hsize
  exact ⟨payload, hread, hwhole, hcontent, hsize⟩

/-- **The bytes of a range are read, and as many as is told**, but none are the last bytes of an
empty object. -/
theorem openPayload_spec {w : World} {key : Text} {s : StoredVersion} {version : ObjectVersionDetail}
    (hshows : Shows N w key s version) {content : Bytes} (hcontent : s.payload = some content)
    {req : Express.Request} {range : Option ResolvedRange} (hrange : parseRange J req content.length = .ok range) :
    (∃ payload, openPayload N version range w = .ok (.ok payload) w ∧ payload.stream.interrupted = false ∧
      payload.stream.content = part content range ∧ (payload.size : ℤ) = lengthOf content.length range ∧
      payload.size = payload.stream.content.length) ∨
    (openPayload N version range w = .ok (.error .unreadableRange) w ∧ content = [] ∧
      ∃ count, 0 < count ∧ Asks J req (.suffix count)) := by
  obtain ⟨path, hpath⟩ := Option.isSome_iff_exists.mp (hshows.storagePath.trans (by rw [hcontent]; rfl))
  have hpayload := hshows.payload
  rw [hpath, Option.bind_some, hcontent] at hpayload
  have hread := fun r => readPayload_eq hpayload r
  unfold openPayload
  rw [hpath, Option.getD_some]
  cases range with
  | none =>
    obtain ⟨payload, hrun, hwhole, hbytes, hsize⟩ := hread none
    refine .inl ⟨payload, run_bind_of_ok hrun, hwhole, hbytes, ?_, ?_⟩
    · exact congrArg _ hsize
    · rw [hbytes, hsize]
      rfl
  | some range =>
    rcases parseRange_within hrange with hwithin | ⟨hempty, rfl, hsuffix⟩
    · obtain ⟨payload, hrun, hwhole, hbytes, hsize⟩ := hread (some ⟨range.start.toNat, range.end.toNat⟩)
      obtain ⟨hstart, hle, hend⟩ := hwithin
      have hlength : (payload.size : ℤ) = lengthOf content.length (some range) := by
        rw [hsize]
        show ((range.end.toNat + 1 - range.start.toNat : ℕ) : ℤ) = range.end - range.start + 1
        omega
      have hpart := @length_part content (some range) fun r hr => by
        cases hr
        exact ⟨hstart, hle, hend⟩
      refine .inl ⟨payload, ?_, hwhole, hbytes, hlength, ?_⟩
      · dsimp only
        rw [if_pos (by omega)]
        exact run_bind_of_ok hrun
      · rw [hbytes]
        exact_mod_cast hlength.trans hpart.symm
    · obtain ⟨payload, hrun, -⟩ := hread none
      refine .inr ⟨?_, List.length_eq_zero_iff.mp hempty, hsuffix⟩
      dsimp only
      rw [if_neg (by decide)]
      exact run_bind_of_ok hrun

/-! ## Which version is read -/

/-- A version that is there is read under the conditions of the request. -/
theorem selected_of_ok {req : Express.Request} {detail version : ObjectVersionDetail} {range : Option ResolvedRange}
    (h : selectPart J D req detail = .ok (version, range)) :
    detail = version ∧ version.isDeleteMarker = false ∧
      assertConditions J D req version.etag version.lastModified = .ok () ∧
      parseRange J req version.size = .ok range := by
  rw [selectPart, assertReadable] at h
  cases hmarker : detail.isDeleteMarker with
  | true =>
    rw [hmarker] at h
    cases h
  | false =>
    rw [hmarker] at h
    cases hconditions : assertConditions J D req detail.etag detail.lastModified with
    | error e =>
      rw [hconditions] at h
      cases h
    | ok _ =>
      rw [hconditions] at h
      cases hrange : parseRange J req detail.size with
      | error e =>
        rw [hrange] at h
        cases h
      | ok range' =>
        rw [hrange] at h
        cases h
        exact ⟨rfl, hmarker, hconditions, hrange⟩

variable (malformed N) in
/-- The version a request asks for, in the bucket of its name. -/
def Found (req : Express.Request) (w : World) (s : StoredVersion) : Prop :=
  ∃ row, BucketsService.findBucket (bucketAndKey req).1 w.db = some row ∧
    VersionedMap.lookup (·.versionId) (versions N w) (row.guid, (bucketAndKey req).2)
      (Query.present (query malformed req "versionId".toList)) = some s

theorem Found.unique {req : Express.Request} {w : World} {s s' : StoredVersion} (h : Found malformed N req w s)
    (h' : Found malformed N req w s') : s = s' := by
  obtain ⟨row, hrow, hs⟩ := h
  obtain ⟨row', hrow', hs'⟩ := h'
  obtain rfl := Option.some.inj (hrow.symm.trans hrow')
  exact Option.some.inj (hs.symm.trans hs')

/-- A sub-resource that is not there is not implemented. -/
theorem objectSubResource_error {req : Express.Request} {key : Text} {e : Fault}
    (h : objectSubResource malformed req key = .error e) : ∃ resource, e = .notImplemented resource := by
  rw [objectSubResource, subResource] at h
  split at h
  · cases h
    exact ⟨_, rfl⟩
  · dsimp only [bind, Except.bind] at h
    split_ifs at h
    · cases h
      exact ⟨_, rfl⟩
    · cases h

/-- **A version is selected if it is there** and the request is neither refused nor for a sub-resource
that is not implemented. -/
theorem select_spec {w : World} (hw : Inv N w) (hguids : (w.db.buckets.map (·.guid)).Nodup) (req : Express.Request)
    (values : ConditionValues) (identity : RequestIdentity) :
    wp (select J malformed D req values identity)
      (fun r w' => w' = w ∧ ∃ s detail, Found malformed N req w s ∧ Shows N w (bucketAndKey req).2 s detail ∧
        r = selectPart J D req detail)
      (fun e w' => w' = w ∧ ((∃ resource, e = .notImplemented resource ∨ e = .accessDenied resource) ∨
        ∀ s, ¬ Found malformed N req w s)) w := by
  rw [select, wp_bind]
  cases hsub : objectSubResource malformed req (bucketAndKey req).2 with
  | error e =>
    obtain ⟨resource, he⟩ := objectSubResource_error hsub
    exact ⟨rfl, .inl ⟨resource, .inl he⟩⟩
  | ok _ =>
    rw [readRequest, wp_pure, wp_bind]
    refine wp_mono (S3AuthorizationService.resolveBucket_spec J hguids _ _ _ _ _) ?_ ?_
    · rintro bucket w₁ ⟨hsame, row, hrow, rfl, -⟩
      rw [hsame, wp_bind]
      have hget := getVersion_spec hw (BucketsService.toItem row).guid (bucketAndKey req).2
        (query malformed req "versionId".toList)
      cases hlookup : VersionedMap.lookup (·.versionId) (versions N w)
        ((BucketsService.toItem row).guid, (bucketAndKey req).2)
        (Query.present (query malformed req "versionId".toList)) with
      | none =>
        rw [hlookup] at hget
        rw [wp, hget]
        refine ⟨rfl, .inr fun s hs => ?_⟩
        obtain ⟨row', hrow', hs⟩ := hs
        obtain rfl := Option.some.inj (hrow.symm.trans hrow')
        cases hlookup.symm.trans hs
      | some s =>
        rw [hlookup] at hget
        obtain ⟨detail, hrun, hshows⟩ := hget
        rw [wp, hrun]
        exact ⟨rfl, s, detail, ⟨row, hrow, hlookup⟩, hshows, rfl⟩
    · rintro e w₁ ⟨hsame, ⟨-, hnone⟩ | ⟨row, -, he, -⟩⟩
      · refine ⟨hsame, .inr fun s hs => ?_⟩
        obtain ⟨row, hrow, -⟩ := hs
        cases hnone.symm.trans hrow
      · exact ⟨hsame, .inl ⟨_, .inr he⟩⟩

variable (J malformed D N) in
/-- **What is to be read**: a version with a payload, under conditions that hold, and a part of it. -/
structure Selected (req : Express.Request) (w : World) (s : StoredVersion) (content : Bytes)
    (version : ObjectVersionDetail) (range : Option ResolvedRange) : Prop where
  found : Found malformed N req w s
  shows : Shows N w (bucketAndKey req).2 s version
  payload : s.payload = some content
  conditions : assertConditions J D req version.etag version.lastModified = .ok ()
  range : parseRange J req content.length = .ok range

theorem selected_of_found {req : Express.Request} {w : World} {s : StoredVersion} {detail version : ObjectVersionDetail}
    {range : Option ResolvedRange} (hs : Found malformed N req w s)
    (hshows : Shows N w (bucketAndKey req).2 s detail)
    (h : selectPart J D req detail = .ok (version, range)) :
    ∃ content, Selected J malformed D N req w s content version range := by
  obtain ⟨rfl, hmarker, hconditions, hrange⟩ := selected_of_ok h
  have hsome : s.payload.isSome = true := by
    rw [hshows.isDeleteMarker] at hmarker
    simpa using hmarker
  obtain ⟨content, hcontent⟩ := Option.isSome_iff_exists.mp hsome
  rw [hshows.size, hcontent] at hrange
  exact ⟨content, hs, hshows, hcontent, hconditions, hrange⟩

/-! ## What is answered -/

variable (J malformed) in
/-- **What is served of a version.** -/
structure Serves (req : Express.Request) (s : StoredVersion) (content : Bytes) (range : Option ResolvedRange)
    (answer : ObjectAnswer) : Prop where
  status : answer.status = if range.isSome then 206 else 200
  body : ∃ stream, answer.body = some stream ∧ stream.interrupted = false ∧
    stream.content = part content range
  length : valueOf answer.headers "Content-Length" = some (Nat.toDigits 10 (part content range).length)
  range : valueOf answer.headers "Content-Range" = range.map (contentRange content.length)
  etag : valueOf answer.headers "ETag" = some (quote s.etag)
  versionId : valueOf answer.headers "x-amz-version-id" = some s.versionId
  /-- The headers of the upload. -/
  tells : ∀ up, s.headers = toVersionColumns (S3RequestService.objectHeaders J up) →
    Tells J up (responseOverrides malformed req) answer.headers

/-- What a `HeadObject` answers. -/
def withoutBody (answer : ObjectAnswer) : ObjectAnswer := { answer with body := none }

theorem answer_serves {req : Express.Request} {w : World} {s : StoredVersion} {content : Bytes}
    {version : ObjectVersionDetail} {range : Option ResolvedRange}
    (h : Selected J malformed D N req w s content version range)
    {payload : StorageService.ReadResult} (hwhole : payload.stream.interrupted = false)
    (hbytes : payload.stream.content = part content range)
    (hsize : payload.size = payload.stream.content.length) :
    Serves J malformed req s content range
      (answer malformed toUTCString req version range payload.size (some payload.stream)) := by
  have hcontent : version.size = content.length := by
    rw [h.shows.size, h.payload]
    rfl
  refine ⟨rfl, ⟨_, rfl, hwhole, hbytes⟩, ?_, ?_, ?_, ?_, fun up hup => ?_⟩
  pick_goal 5
  · have hlength : LengthHeaders (("Content-Length".toList, integerText payload.size) ::
        (range.map fun range => ("Content-Range".toList, contentRange version.size range)).toList) := by
      intro x hx
      rw [List.mem_cons, Option.mem_toList, Option.map_eq_some_iff] at hx
      rcases hx with rfl | ⟨range, -, rfl⟩
      · exact .inl rfl
      · exact .inr rfl
    exact objectHeaders_tells toUTCString J (h.shows.headers.trans hup) _ hlength
  all_goals
    rw [answer, S3ResponseService.objectHeaders]
    simp only [valueOf_append, valueOf_cons, valueOf_nil, valueOf_entityHeader, String.reduceEq, ↓reduceIte,
      Option.none_or, Option.or_none, Option.some_or]
  · rw [valueOf_metadata (by decide), valueOf_encryptionHeader (by decide), integerText_natCast, hsize, hbytes]
    rfl
  · rw [valueOf_metadata (by decide), valueOf_encryptionHeader (by decide), hcontent]
    cases range with
    | none => rfl
    | some range => exact (valueOf_cons _ _ _ _).trans (if_pos rfl)
  · rw [h.shows.etag]
  · rw [h.shows.versionId]

variable (J malformed D toUTCString) in
/-- **`GetObject` and `HeadObject` answer alike**, and what they tell is what is served, but for the
last bytes of an empty object: `HeadObject` tells of them, and `GetObject` cannot read them. -/
theorem get_spec {w : World} (hw : Inv N w) (hguids : (w.db.buckets.map (·.guid)).Nodup) (req : Express.Request)
    (values : ConditionValues) (identity : RequestIdentity) :
    wp (get J malformed D toUTCString N req values identity)
      (fun r w' => w' = w ∧
        ((r = .error .unreadableRange ∧ (∃ answer, head J malformed D toUTCString req values identity w =
            .ok (.ok answer) w) ∧ (∃ s version range, Selected J malformed D N req w s [] version range) ∧
            ∃ count, 0 < count ∧ Asks J req (.suffix count)) ∨
          head J malformed D toUTCString req values identity w = .ok (r.map withoutBody) w) ∧
        ∀ answer, r = .ok answer → ∃ s content version range,
          Selected J malformed D N req w s content version range ∧ Serves J malformed req s content range answer)
      (fun e w' => w' = w ∧ head J malformed D toUTCString req values identity w = .error e w) w := by
  rw [get, wp_bind]
  cases hrun : select J malformed D req values identity w with
  | error e w' =>
    obtain ⟨rfl, -⟩ := wp_of_error hrun (select_spec hw hguids req values identity)
    rw [wp, hrun]
    exact ⟨rfl, run_bind_of_error hrun⟩
  | ok r w' =>
    obtain ⟨rfl, s, detail, hs, hshows, hselected⟩ := wp_of_ok hrun (select_spec hw hguids req values identity)
    have hhead : head J malformed D toUTCString req values identity w' = _ := run_bind_of_ok hrun
    rw [hhead, wp, hrun]
    cases r with
    | error e => exact ⟨rfl, .inr rfl, fun _ h => by cases h⟩
    | ok selected =>
      obtain ⟨version, range⟩ := selected
      obtain ⟨content, hs⟩ := selected_of_found hs hshows hselected.symm
      dsimp only
      rw [wp_bind]
      rcases openPayload_spec hs.shows hs.payload hs.range with
        ⟨payload, hopen, hwhole, hbytes, htold, hsize⟩ | ⟨hopen, rfl, hsuffix⟩
      · rw [wp, hopen]
        refine ⟨rfl, .inr ?_, ?_⟩
        · have hcontent : version.size = content.length := by
            rw [hs.shows.size, hs.payload]
            rfl
          show EStateM.Result.ok (Except.ok (answer malformed toUTCString req version range
            (lengthOf version.size range) none)) w' =
              .ok (.ok (answer malformed toUTCString req version range payload.size none)) w'
          rw [htold, hcontent]
        · intro answer hanswer
          cases hanswer
          exact ⟨s, content, version, range, hs, answer_serves hs hwhole hbytes hsize⟩
      · rw [wp, hopen]
        exact ⟨rfl, .inl ⟨rfl, ⟨_, rfl⟩, ⟨s, version, range, hs⟩, hsuffix⟩, fun _ h => by cases h⟩

/-! ## Requests without conditions -/

variable (J) in
/-- The request asks for all of a version, whatever it is. -/
structure Unconditional (req : Express.Request) : Prop where
  ifMatch : header J req "if-match".toList = none
  ifNoneMatch : header J req "if-none-match".toList = none
  ifModifiedSince : header J req "if-modified-since".toList = none
  ifUnmodifiedSince : header J req "if-unmodified-since".toList = none
  range : header J req "range".toList = none

theorem selectPart_unconditional {req : Express.Request} (h : Unconditional J req) {version : ObjectVersionDetail}
    (hreadable : version.isDeleteMarker = false) : selectPart J D req version = .ok (version, none) := by
  have hconditions : assertConditions J D req version.etag version.lastModified = .ok () := by
    rw [assertConditions, conditionalHeaders, h.ifMatch, h.ifNoneMatch, h.ifModifiedSince, h.ifUnmodifiedSince]
    rfl
  rw [selectPart, assertReadable, hreadable, hconditions, parseRange, h.range]
  rfl

/-- **A version with a payload is served** to a request without conditions. -/
theorem get_unconditional {w : World} (hw : Inv N w) (hguids : (w.db.buckets.map (·.guid)).Nodup) {req : Express.Request}
    (hplain : Unconditional J req) {s : StoredVersion} (hs : Found malformed N req w s) {content : Bytes}
    (hcontent : s.payload = some content) (values : ConditionValues) (identity : RequestIdentity) :
    wp (get J malformed D toUTCString N req values identity) (fun r _ => ∃ answer, r = .ok answer)
      (fun e _ => ∃ resource, e = .notImplemented resource ∨ e = .accessDenied resource) w := by
  rw [get, wp_bind]
  refine wp_mono (select_spec hw hguids req values identity) ?_ ?_
  · rintro r w' ⟨hsame, s', detail, hs', hshows, rfl⟩
    obtain rfl := hs.unique hs'
    have hreadable : detail.isDeleteMarker = false := by
      rw [hshows.isDeleteMarker, hcontent]
      rfl
    have hrange : parseRange J req content.length = .ok none := by
      rw [parseRange, hplain.range]
    rw [selectPart_unconditional hplain hreadable, hsame]
    dsimp only
    rw [wp_bind]
    rcases openPayload_spec hshows hcontent hrange with ⟨payload, hopen, -⟩ | ⟨hopen, rfl, count, hcount, hsuffix⟩
    · rw [wp, hopen]
      exact ⟨_, rfl⟩
    · obtain ⟨text, -, -, htext, -⟩ := hsuffix
      cases hplain.range.symm.trans htext
  · rintro e w' ⟨-, hresource | hnone⟩
    · exact hresource
    · exact absurd hs (hnone s)

end S3ObjectController
end SimpleStorage
