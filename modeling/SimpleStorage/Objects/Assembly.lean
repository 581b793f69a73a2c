import SimpleStorage.Objects.Refinement

/-!
# Assembling an upload

A client stores the parts of an upload one after the other, in any order and some of them more
than once, while encryption is switched, and in the end asks for some of them to be put
together.  What then becomes of the upload is told by the requests alone: under each number
stands what was last stored there.

* `mostRecent`: what was last stored under each number.
* `follow_uploadsTo`: the reference keeps just that.
* `assembled`: the upload is completed if and only if the list fits what was last stored, and
  then the newest version of its key is that, in a row.
-/

namespace SimpleStorage
namespace ObjectsService

open BucketsService ObjectsTypes Program Statements StorageService

/-! ## What was last stored -/

/-- The requests while an upload is going on: parts of it, and a new configuration. -/
inductive UploadsTo (uploadId : Text) : Request → Prop
  | part (partNumber : ℤ) (stream : Readable) (contentMd5 : Option Text)
      (declaredLength maxBytes : Option ℕ) :
      UploadsTo uploadId (.uploadPart uploadId partNumber stream contentMd5 declaredLength maxBytes)
  | configuration (enabled : Bool) : UploadsTo uploadId (.setEncryption enabled)

/-- The bytes a request stored under a number, if it did. -/
def storedUnder (n : ℤ) : Request × Except Fault Response → Option Bytes
  | (.uploadPart _ partNumber stream _ _ _, .ok _) => if partNumber = n then some stream.content else none
  | _ => none

/-- **The bytes most recently stored under a number.** -/
def mostRecent (log : List (Request × Except Fault Response)) (n : ℤ) : Option Bytes :=
  log.reverse.findSome? (storedUnder n)

theorem mostRecent_cons (entry : Request × Except Fault Response) (log : List (Request × Except Fault Response))
    (n : ℤ) : mostRecent (entry :: log) n = (mostRecent log n).or (storedUnder n entry) := by
  rw [mostRecent, List.reverse_cons, List.findSome?_append, List.findSome?_singleton, mostRecent]

variable {N : Node}

/-- One request puts its bytes in the place of those before. -/
theorem next_uploadsTo {uploadId : Text} {entry : Request × Except Fault Response}
    (h : UploadsTo uploadId entry.1) {m : Reference} {u : PendingUpload} (hu : m.uploads uploadId = some u) :
    (Reference.next entry.1 entry.2 m).uploads uploadId =
        some { u with parts := fun n => (storedUnder n entry).or (u.parts n) } ∧
      (Reference.next entry.1 entry.2 m).versions = m.versions ∧
      (Reference.next entry.1 entry.2 m).versioning = m.versioning := by
  obtain ⟨request, response⟩ := entry
  cases h with
  | configuration enabled => exact ⟨hu, rfl, rfl⟩
  | part partNumber stream contentMd5 declaredLength maxBytes =>
    cases response with
    | error e => exact ⟨hu, rfl, rfl⟩
    | ok response =>
      refine ⟨?_, rfl, rfl⟩
      change Function.update m.uploads uploadId _ uploadId = _
      rw [Function.update_self, hu, Option.map_some]
      refine congrArg (fun parts => some { u with parts }) ?_
      ext1 n
      rw [storedUnder]
      by_cases hn : partNumber = n
      · rw [if_pos hn, Option.some_or, ← hn, Function.update_self]
      · rw [if_neg hn, Option.none_or, Function.update_of_ne (Ne.symm hn)]

/-- **The reference keeps what was last stored**, over what there was before. -/
theorem follow_uploadsTo {uploadId : Text} {log : List (Request × Except Fault Response)}
    (honly : ∀ entry ∈ log, UploadsTo uploadId entry.1) {m : Reference} {u : PendingUpload}
    (hu : m.uploads uploadId = some u) :
    (follow Reference.next log m).uploads uploadId =
        some { u with parts := fun n => (mostRecent log n).or (u.parts n) } ∧
      (follow Reference.next log m).versions = m.versions ∧
      (follow Reference.next log m).versioning = m.versioning := by
  induction log generalizing m u with
  | nil => exact ⟨hu, rfl, rfl⟩
  | cons entry log ih =>
    obtain ⟨hu', hversions, hversioning⟩ := next_uploadsTo (honly entry List.mem_cons_self) hu
    obtain ⟨huploads, hversions', hversioning'⟩ := ih (fun e he => honly e (List.mem_cons_of_mem _ he)) hu'
    refine ⟨?_, hversions'.trans hversions, hversioning'.trans hversioning⟩
    refine huploads.trans (congrArg (fun parts => some { u with parts }) ?_)
    ext1 n
    rw [mostRecent_cons, Option.or_assoc]

/-! ## What the parts are put together to -/

/-- A version that was just written is the one found under its id, and under none. -/
theorem lookup_written {m : VersionedMap BucketKey StoredVersion} {k : BucketKey} {v : StoredVersion}
    {replace : Bool} {versionId : Option Text} (h : versionId = none ∨ versionId = some v.versionId) :
    VersionedMap.lookup (·.versionId) (VersionedMap.write (·.versionId) replace k v m) k
      (Query.present versionId) = some v := by
  cases hid : Query.present versionId with
  | none => exact VersionedMap.newest_write_self
  | some i =>
    obtain ⟨rfl, -⟩ := Query.present_eq_some_iff.mp hid
    obtain rfl : i = v.versionId := Option.some.inj (h.resolve_left nofun)
    rw [VersionedMap.lookup, VersionedMap.write, Function.update_self]
    exact List.find?_cons_of_pos (decide_eq_true rfl)

/-- The content of a list of parts, as last stored. -/
def assembly (stored : ℤ → Option Bytes) (parts : List CompletePart) : List Bytes :=
  parts.map fun part => (stored part.partNumber).getD []

/-- The digests of the parts, read back from their etags. -/
theorem multipartEtag_map (contents : List Bytes) :
    multipartEtag N (contents.map fun content => Codec.hex (N.md5 content)) =
      Codec.hex (N.md5 (contents.flatMap N.md5)) ++ '-' :: Nat.toDigits 10 contents.length := by
  rw [multipartEtag, List.flatMap_map, List.length_map]
  congr 3
  exact congrArg (fun f => contents.flatMap f) (funext fun content => Codec.unhex_hex (N.md5 content))

/-- What an upload is completed to. -/
structure PutTogether (N : Node) (bucketGuid : Guid) (uploadKey : Text) (contents : List Bytes)
    (r : CompleteResult) (w : World) : Prop where
  key : r.key = uploadKey
  size : r.size = (contents.map List.length).sum
  etag : r.etag = Codec.hex (N.md5 (contents.flatMap N.md5)) ++ '-' :: Nat.toDigits 10 contents.length
  /-- The created version is read, by its id and as the newest one. -/
  read : ∀ versionId, versionId = none ∨ versionId = some r.versionId → ∃ detail,
    readObject N bucketGuid uploadKey versionId w = .ok (detail, some contents.flatten) w ∧
      detail.versionId = r.versionId ∧ detail.size = r.size ∧ detail.etag = r.etag

/-- **Completing an upload**, with what is stored under its numbers: it succeeds if and only if the
list fits, and a version is created then, and only then. -/
structure Completes (N : Node) (name : Text) (bucketGuid : Guid) (uploadId uploadKey : Text)
    (stored : ℤ → Option Bytes) (parts : List CompletePart) (w : World) : Prop where
  outcome : wp ((Request.complete uploadId parts).program N name)
    (fun response w' => Completable N stored parts ∧ ∃ r, response = .completed r ∧
      PutTogether N bucketGuid uploadKey (assembly stored parts) r w')
    (fun _ w' => ¬ Completable N stored parts ∧ versions N w' = versions N w) w

theorem Simulates.completes {name uploadId : Text} {bucketGuid : Guid} {n : ℕ} {w : World} {m : Reference}
    (h : Simulates N name bucketGuid (n + 1) w m) {u : PendingUpload} (hu : m.uploads uploadId = some u)
    (parts : List CompletePart) : Completes N name bucketGuid uploadId u.key u.parts parts w := by
  constructor
  obtain ⟨row, hrow, rfl, hversioning⟩ := h.bucket
  have hpending : pending N w (row.guid, uploadId) = some u := (h.upload_eq uploadId).trans hu
  refine wp_getByName_of_found hrow ?_
  rw [wp_bind]
  refine wp_mono (completeMultipartUpload_spec h.inv (h.distinct_now.mono (by simp [callsPerRequest])) _ _ _)
    ?_ ?_
  · rintro r w' ⟨u', contents, hu', hcompletable, hlisted, hkey, hetag, hsize, -, heffect⟩
    obtain rfl : u = u' := Option.some.inj (hpending.symm.trans hu')
    obtain ⟨rfl, -⟩ := contents_of_listed hlisted
    refine ⟨hcompletable, r, rfl, hkey, ?_, ?_, fun versionId hid => ?_⟩
    · rw [hsize, List.length_flatten]
      rfl
    · exact hetag.trans (multipartEtag_map _)
    · have hread := readObject_spec heffect.inv row.guid u.key versionId
      rw [heffect.versions] at hread
      rw [show (toItem row).guid = row.guid from rfl, lookup_written hid] at hread
      obtain ⟨detail, hrun, hshows⟩ := hread
      exact ⟨detail, hrun, hshows.versionId, hshows.size.trans hsize.symm, hshows.etag⟩
  · rintro e w' ⟨hunchanged, ⟨-, hnone⟩ | ⟨-, hnot⟩⟩
    · cases hpending.symm.trans hnone
    · exact ⟨hnot u hpending, hunchanged.versions⟩

/-- After some requests, with more to come. -/
theorem Simulates.run {name : Text} {bucketGuid : Guid} {n : ℕ} {w : World} {m : Reference}
    {requests : List Request} (h : Simulates N name bucketGuid (requests.length + n) w m) :
    Simulates N name bucketGuid n (runAll (Request.program N name) requests w)
      (follow Reference.next (trace (Request.program N name) requests w) m) := by
  have hstep : ∀ request k w m, Simulates N name bucketGuid (k + 1 + n) w m →
      wp (Request.program N name request)
        (fun a w' => Reference.Answers N request (.ok a) m ∧
          Simulates N name bucketGuid (k + n) w' (Reference.next request (.ok a) m))
        (fun e w' => Reference.Answers N request (.error e) m ∧
          Simulates N name bucketGuid (k + n) w' (Reference.next request (.error e) m)) w := by
    intro request k w m h
    rw [Nat.add_right_comm] at h
    exact h.step request
  have hrun := (Program.runAll_refines (R := fun k => Simulates N name bucketGuid (k + n)) hstep h).2
  rwa [Nat.zero_add] at hrun

/-- An upload is always created. -/
theorem Simulates.exists_created {name : Text} {bucketGuid : Guid} {n : ℕ} {w : World} {m : Reference}
    (h : Simulates N name bucketGuid (n + 1) w m) (key : Text) (accessKeyId : Option Text)
    (headers : ObjectHeaders) : ∃ uploadId w',
      (Request.create key accessKeyId headers).program N name w = .ok (.created uploadId) w' := by
  have hcreate := h.create key accessKeyId headers
  rw [Follows, wp] at hcreate
  cases hrun : (Request.create key accessKeyId headers).program N name w with
  | error e w' =>
    rw [hrun] at hcreate
    exact hcreate.1.elim
  | ok response w' =>
    rw [hrun] at hcreate
    cases response with
    | created uploadId => exact ⟨uploadId, w', rfl⟩
    | _ => exact hcreate.1.elim

/-- **An upload is put together from what was last stored.**  After any requests on the bucket an
upload is created, and then parts of it are stored, in any order and as often as the client
likes, while encryption is switched.  Completing it with a list of parts succeeds if and only if
the list fits what was last stored under its numbers; the version then created is that, in a
row, and otherwise none is. -/
theorem assembled {w₀ : World} (hempty : Empty w₀.db) {name : Text} {row : BucketRow}
    (hrow : findBucket name w₀.db = some row) (before requests : List Request) {uploadId : Text}
    (honly : ∀ request ∈ requests, UploadsTo uploadId request)
    (hdistinct : N.Distinct (w₀.calls + callsPerRequest * (before.length + (requests.length + 2))))
    {key : Text} {accessKeyId : Option Text} {headers : ObjectHeaders} {w : World}
    (hcreated : (Request.create key accessKeyId headers).program N name
      (runAll (Request.program N name) before w₀) = .ok (.created uploadId) w) (parts : List CompletePart) :
    Completes N name row.guid uploadId key (mostRecent (trace (Request.program N name) requests w)) parts
      (runAll (Request.program N name) requests w) := by
  have hbefore := (Simulates.of_empty hempty hrow hdistinct).run
  have hcreate := wp_of_ok hcreated (hbefore.step (.create key accessKeyId headers))
  have hparts := hcreate.2.run
  have hlog : ∀ entry ∈ trace (Request.program N name) requests w, UploadsTo uploadId entry.1 := by
    intro entry hentry
    refine honly entry.1 ?_
    rw [← map_fst_trace (Request.program N name) requests w]
    exact List.mem_map_of_mem hentry
  obtain ⟨huploads, -, -⟩ := follow_uploadsTo hlog (u := ⟨key, toVersionColumns headers, fun _ => none⟩)
    (m := Reference.next (.create key accessKeyId headers) (.ok (.created uploadId)) _)
    (Function.update_self _ _ _)
  have hcompletes := hparts.completes huploads parts
  simp only [Option.or_none] at hcompletes
  exact hcompletes

/-- Two parts, one of them stored twice and in another configuration. -/
def storedTwice (uploadId : Text) : List Request := [
  .uploadPart uploadId 2 ⟨[[1], [2]], false⟩ none none none,
  .uploadPart uploadId 1 ⟨[[3]], false⟩ none none none,
  .setEncryption true,
  .uploadPart uploadId 2 ⟨[[4]], false⟩ none none none]

theorem uploadsTo_storedTwice (uploadId : Text) :
    ∀ request ∈ storedTwice uploadId, UploadsTo uploadId request := by
  simp only [storedTwice, List.forall_mem_cons]
  exact ⟨.part .., .part .., .configuration _, .part .., List.forall_mem_nil _⟩

def lastPart : List CompletePart := [⟨2, List.replicate 32 '0'⟩]

theorem assembled_storedTwice : ∃ uploadId w,
    (Request.create ['a'] none {}).program Node.counting emptyBucket.name emptyWorld =
      .ok (.created uploadId) w ∧
    Completes Node.counting emptyBucket.name emptyBucket.guid uploadId ['a']
      (mostRecent (trace (Request.program Node.counting emptyBucket.name) (storedTwice uploadId) w)) lastPart
      (runAll (Request.program Node.counting emptyBucket.name) (storedTwice uploadId) w) := by
  have hempty : Empty emptyWorld.db := ⟨rfl, rfl, rfl, rfl⟩
  have hbucket : findBucket emptyBucket.name emptyWorld.db = some emptyBucket := by decide
  obtain ⟨uploadId, w, hcreated⟩ := (Simulates.of_empty (n := 1) hempty hbucket
    (Node.distinct_counting.mono (by decide))).exists_created ['a'] none {}
  refine ⟨uploadId, w, hcreated, ?_⟩
  exact assembled hempty hbucket [] (storedTwice uploadId) (uploadsTo_storedTwice uploadId)
    (Node.distinct_counting.mono (by decide : 0 + 8 * (0 + (4 + 2)) ≤ 256)) hcreated lastPart

end ObjectsService
end SimpleStorage
