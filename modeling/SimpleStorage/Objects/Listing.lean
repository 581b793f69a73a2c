import SimpleStorage.Database.Query
import SimpleStorage.Library.Codec

/-!
# Listing keys and versions

`ObjectsService.list` and `ObjectsService.listAllVersions`, with the queries, the
grouping into common prefixes and the continuation tokens they share.

`list` assembles a page in batches: a batch ends early at the first key that lies in a
folder, the folder is shown once, and the next batch starts behind it with its keys
excluded.  `listAllVersions` reads one batch of fixed size and passes over what was shown
before.
-/

namespace SimpleStorage
namespace ObjectsService

open Query

/-! ## Shared pieces -/

def defaultMaxKeys : ℕ := 1000

def maxKeysLimit : ℕ := 1000

/-- The page size a request asks for. -/
def resolveLimit : Option ℤ → ℕ
  | none => defaultMaxKeys
  | some requested =>
      if requested = 0 ∨ requested < 1 then defaultMaxKeys else min requested.toNat maxKeysLimit

/-- Position of the first occurrence of `d`. -/
def indexOf (d : Text) : Text → Option ℕ
  | [] => if d <+: [] then some 0 else none
  | c :: s => if d <+: c :: s then some 0 else (indexOf d s).map (· + 1)

/-- The part of a key up to the first delimiter after the prefix, if there is one. -/
def commonPrefixOf (key pre delimiter : Text) : Option Text :=
  let rest := key.drop pre.length
  match indexOf delimiter rest with
  | none => none
  | some index => some (pre ++ rest.take (index + delimiter.length))

/-- The common prefix a loop groups a key under: none without a delimiter. -/
def groupOf (pre delimiter : Option Text) (key : Text) : Option Text :=
  present ((present delimiter).bind fun d => commonPrefixOf key (pre.getD []) d)

/-- What a continuation token carries: where the page ended, and whether on a folder. -/
structure PageEnd where
  value : Text
  isPrefix : Bool
  deriving DecidableEq, Repr

def encodeToken (cursor : PageEnd) : Text :=
  Codec.base64url.encode (Utf8.encode ((if cursor.isPrefix then 'p' else 'k') :: ':' :: cursor.value))

/-- The separator has to be the second code unit, so the first character is one code unit
and not the separator itself. -/
def decodeToken (token : Text) : Option PageEnd :=
  match Utf8.decode (Codec.unbase64 token) with
  | c :: ':' :: value => if c = ':' ∨ 0x10000 ≤ c.toNat then none else some ⟨value, c = 'p'⟩
  | _ => none

/-! ## The latest version of every key -/

/-- A row of the join of `object` and `object_version`. -/
structure JoinedRow where
  object : ObjectRow
  version : ObjectVersionRow
  deriving DecidableEq, Repr

abbrev JoinedRow.key (row : JoinedRow) : Text := row.object.key

structure LatestQuery where
  bucketGuid : Guid
  pre : Option Text
  cursor : Option Text
  excludePrefix : Option Text
  limit : ℕ

/-- The order of `ORDER BY key COLLATE "C"`. -/
def keyOrder (r s : JoinedRow) : Prop := ¬ Utf8.encode s.key < Utf8.encode r.key

instance : DecidableRel keyOrder := fun _ _ => inferInstanceAs (Decidable (¬ _))

/-- Every key with the version its row points at. -/
def latestRows (db : Database) : List JoinedRow :=
  db.objects.flatMap fun o =>
    (db.objectVersions.filter fun v => o.latestVersionGuid = some v.guid).map (JoinedRow.mk o)

def LatestQuery.admits (q : LatestQuery) (row : JoinedRow) : Bool :=
  row.object.bucketGuid = q.bucketGuid && row.version.isDeleteMarker = false
    && (present q.pre).all (likePrefix row.key)
    && (present q.cursor).all (collatedGreater row.key)
    && (present q.excludePrefix).all (notLikePrefix row.key)

def fetchLatestVersions (db : Database) (q : LatestQuery) : List JoinedRow :=
  (((latestRows db).filter q.admits).insertionSort keyOrder).take q.limit

/-! ## `list` -/

structure ListQuery where
  bucketGuid : Guid
  pre : Option Text := none
  delimiter : Option Text := none
  maxKeys : Option ℤ := none
  continuationToken : Option Text := none
  startAfter : Option Text := none
  deriving DecidableEq

structure ObjectItem where
  guid : Guid
  key : Text
  size : ℕ
  etag : Text
  contentType : Option Text
  versionId : Text
  storageClass : StorageClass
  lastModified : Timestamp
  deriving DecidableEq, Repr

structure ListResult where
  objects : List ObjectItem
  commonPrefixes : List Text
  isTruncated : Bool
  nextContinuationToken : Option Text
  deriving DecidableEq, Repr

def toObjectItem (row : JoinedRow) : ObjectItem where
  guid := row.object.guid
  key := row.object.key
  size := row.version.size
  etag := row.version.etag
  contentType := row.version.headers.contentType
  versionId := row.version.versionId
  storageClass := row.version.headers.storageClass
  lastModified := row.version.createdAt

/-- The local variables of `list`. -/
structure ListState where
  cursor : Option Text
  excludePrefix : Option Text
  objects : List ObjectItem := []
  commonPrefixes : List Text := []
  last : Option PageEnd := none
  exhausted : Bool := false

def ListState.count (s : ListState) : ℕ := s.objects.length + s.commonPrefixes.length

/-- The rows of one batch, up to the first one in a folder; and whether there was one. -/
def scanBatch (q : ListQuery) : List JoinedRow → ListState → ListState × Bool
  | [], s => (s, false)
  | row :: rows, s =>
      match groupOf q.pre q.delimiter row.key with
      | some commonPrefix =>
          ({ s with
              commonPrefixes := s.commonPrefixes ++ [commonPrefix]
              last := some ⟨commonPrefix, true⟩
              cursor := some commonPrefix
              excludePrefix := some commonPrefix }, true)
      | none =>
          scanBatch q rows
            { s with
              objects := s.objects ++ [toObjectItem row]
              last := some ⟨row.key, false⟩
              cursor := some row.key }

def latestQuery (q : ListQuery) (s : ListState) (limit : ℕ) : LatestQuery :=
  ⟨q.bucketGuid, q.pre, s.cursor, s.excludePrefix, limit⟩

/-- One batch. -/
def listStep (db : Database) (q : ListQuery) (limit : ℕ) (s : ListState) : ListState :=
  let remaining := limit - s.count
  let batch := fetchLatestVersions db (latestQuery q s remaining)
  if batch.length = 0 then { s with exhausted := true }
  else
    let scanned := scanBatch q batch s
    -- a short batch that no folder cut off means there is nothing left
    if !scanned.2 && batch.length < remaining then { scanned.1 with exhausted := true }
    else scanned.1

/-- `while (count < limit && !exhausted)`, for at most the given number of batches. -/
def listLoop (db : Database) (q : ListQuery) (limit : ℕ) : ℕ → ListState → ListState
  | 0, s => s
  | n + 1, s =>
      if s.count < limit && !s.exhausted then listLoop db q limit n (listStep db q limit s) else s

/-- Where a listing starts. -/
def listStart (q : ListQuery) : ListState :=
  let resumed := (present q.continuationToken).bind decodeToken
  { cursor := (resumed.map (·.value)).or q.startAfter
    excludePrefix := (resumed.filter (·.isPrefix)).map (·.value) }

/-- The local variables after the loop.  Every batch shows something or is the last one,
so as many batches as entries on a page, and one more, are enough. -/
def listEnd (db : Database) (q : ListQuery) : ListState :=
  let limit := resolveLimit q.maxKeys
  listLoop db q limit (limit + 1) (listStart q)

def list (db : Database) (q : ListQuery) : ListResult :=
  let s := listEnd db q
  let isTruncated := !s.exhausted && resolveLimit q.maxKeys ≤ s.count
    && 0 < (fetchLatestVersions db (latestQuery q s 1)).length
  { objects := s.objects
    commonPrefixes := s.commonPrefixes
    isTruncated
    nextContinuationToken := if isTruncated then s.last.map encodeToken else none }

/-! ## `listAllVersions` -/

structure ListVersionsQuery where
  bucketGuid : Guid
  pre : Option Text := none
  delimiter : Option Text := none
  maxKeys : Option ℤ := none
  keyMarker : Option Text := none
  versionIdMarker : Option Text := none
  deriving DecidableEq

structure VersionListItem where
  key : Text
  versionId : Text
  isLatest : Bool
  isDeleteMarker : Bool
  size : ℕ
  etag : Text
  storageClass : StorageClass
  lastModified : Timestamp
  deriving DecidableEq, Repr

structure ListVersionsResult where
  versions : List VersionListItem
  commonPrefixes : List Text
  isTruncated : Bool
  nextKeyMarker : Option Text
  nextVersionIdMarker : Option Text
  deriving DecidableEq, Repr

def toVersionListItem (row : JoinedRow) : VersionListItem where
  key := row.object.key
  versionId := row.version.versionId
  isLatest := row.object.latestVersionGuid = some row.version.guid
  isDeleteMarker := row.version.isDeleteMarker
  size := row.version.size
  etag := row.version.etag
  storageClass := row.version.headers.storageClass
  lastModified := row.version.createdAt

/-- The order of `ORDER BY key COLLATE "C" ASC, created_at DESC`. -/
def versionOrder (r s : JoinedRow) : Prop :=
  Utf8.encode r.key < Utf8.encode s.key ∨ (r.key = s.key ∧ s.version.createdAt ≤ r.version.createdAt)

instance : DecidableRel versionOrder := fun _ _ => inferInstanceAs (Decidable (_ ∨ _))

/-- Every key with each of its versions. -/
def versionRows (db : Database) : List JoinedRow :=
  db.objects.flatMap fun o =>
    (db.objectVersions.filter fun v => v.objectGuid = o.guid).map (JoinedRow.mk o)

def ListVersionsQuery.admits (q : ListVersionsQuery) (row : JoinedRow) : Bool :=
  row.object.bucketGuid = q.bucketGuid
    && (present q.pre).all (likePrefix row.key)
    && (present q.keyMarker).all (collatedGreaterOrEqual row.key)

/-- The one batch a page is made of. -/
def fetchVersions (db : Database) (q : ListVersionsQuery) : List JoinedRow :=
  (((versionRows db).filter q.admits).insertionSort versionOrder).take
    (resolveLimit q.maxKeys * 2 + 1)

/-- The local variables of `listAllVersions`. -/
structure VersionsState where
  versions : List VersionListItem := []
  commonPrefixes : List Text := []
  skipping : Bool
  isTruncated : Bool := false
  /-- Key and version id of the last version shown. -/
  last : Option (Text × Text) := none

def VersionsState.count (s : VersionsState) : ℕ := s.versions.length + s.commonPrefixes.length

/-- The loop over the rows; it ends early at the first entry past the page. -/
def versionsLoop (q : ListVersionsQuery) (limit : ℕ) : List JoinedRow → VersionsState → VersionsState
  | [], s => s
  | row :: rows, s =>
      if s.skipping then
        -- everything up to and including the marked version is done
        if q.keyMarker = some row.key ∧ q.versionIdMarker = some row.version.versionId then
          versionsLoop q limit rows { s with skipping := false }
        else versionsLoop q limit rows s
      else if (present q.keyMarker).isSome && (present q.versionIdMarker).isNone
          && q.keyMarker = some row.key then versionsLoop q limit rows s
      else
        match groupOf q.pre q.delimiter row.key with
        | some commonPrefix =>
            if commonPrefix ∈ s.commonPrefixes then versionsLoop q limit rows s
            else if limit ≤ s.count then { s with isTruncated := true }
            else versionsLoop q limit rows
              { s with commonPrefixes := s.commonPrefixes ++ [commonPrefix] }
        | none =>
            if limit ≤ s.count then { s with isTruncated := true }
            else versionsLoop q limit rows
              { s with
                versions := s.versions ++ [toVersionListItem row]
                last := some (row.key, row.version.versionId) }

def versionsStart (q : ListVersionsQuery) : VersionsState where
  skipping := (present q.keyMarker).isSome && (present q.versionIdMarker).isSome

def listAllVersions (db : Database) (q : ListVersionsQuery) : ListVersionsResult :=
  let s := versionsLoop q (resolveLimit q.maxKeys) (fetchVersions db q) (versionsStart q)
  { versions := s.versions
    commonPrefixes := s.commonPrefixes
    isTruncated := s.isTruncated
    nextKeyMarker := if s.isTruncated then s.last.map (·.1) else none
    nextVersionIdMarker := if s.isTruncated then s.last.map (·.2) else none }

end ObjectsService
end SimpleStorage
