import SimpleStorage.Objects.ObjectsService
import SimpleStorage.S3.S3RequestService

/-!
# The headers of an object

What is stored of the headers of an upload, and the headers a stored version is served with.

* `userMetadata`, `objectHeaders`: what is stored.
* `S3ResponseService.objectHeaders`: what is told.
* `metadata_told`, `contentType_told`: what is told is what was sent.
-/

namespace SimpleStorage

namespace S3RequestService

open Express ObjectsTypes PoliciesTypes

variable (J : Strings) (malformed : Text → Text)

def metadataPrefix : Text := "x-amz-meta-".toList

/-- The value of a header. -/
def headerValue : OneOrMany → Text
  | .one value => value
  | .many values => Text.join ',' values

/-- Nothing is stored in an object under this name. -/
def protoName : Text := "__proto__".toList

/-- `x-amz-meta-*` headers, with the prefix stripped. -/
def userMetadata (req : Request) : List (Text × Text) :=
  ((req.headers.filter fun h => metadataPrefix.isPrefixOf h.1).map fun h =>
    (h.1.drop metadataPrefix.length, headerValue h.2)).filter fun entry => entry.1 ≠ protoName

/-- `aws-chunked` is transfer framing, not a content encoding of the stored object. -/
def contentEncoding (req : Request) : Option Text :=
  match Query.present (header J req "content-encoding".toList) with
  | none => none
  | some value =>
      let encodings := ((Text.split ',' value).map Text.trim).filter (· ≠ "aws-chunked".toList)
      if encodings = [] then none else some (", ".toList.intercalate encodings)

/-- The headers stored with an object version. -/
def objectHeaders (req : Request) : ObjectHeaders where
  contentType := header J req "content-type".toList
  contentEncoding := contentEncoding J req
  cacheControl := header J req "cache-control".toList
  contentDisposition := header J req "content-disposition".toList
  metadata := if userMetadata req = [] then none else some (userMetadata req)
  storageClass := some .standard

/-- `response-content-type` and friends. -/
def responseOverrides (req : Request) (name : String) : Option Text := query malformed req name.toList

end S3RequestService

namespace S3ResponseService

open ObjectsTypes S3RequestService

/-- The headers of an answer, as they are set. -/
abbrev Headers := List (Text × Text)

def storageClassName : StorageClass → Text
  | .standard => "STANDARD".toList

def quote (etag : Text) : Text := '"' :: etag ++ ['"']

def encryptionHeader (encryption : Option StorageTypes.BlobEncryption) : Headers :=
  match encryption with
  | some _ => [("x-amz-server-side-encryption".toList, "AES256".toList)]
  | none => []

/-- A header that was stored, or what the request wants in its place. -/
def entityHeader (name : String) (stored override : Option Text) : Headers :=
  ((Query.present (override.or stored)).map (name.toList, ·)).toList

variable (toUTCString : Timestamp → Text)

/-- Headers describing a stored version. -/
def objectHeaders (version : ObjectVersionDetail) (overrides : String → Option Text) : Headers :=
  [("ETag".toList, quote version.etag), ("Last-Modified".toList, toUTCString version.lastModified),
    ("Accept-Ranges".toList, "bytes".toList), ("x-amz-version-id".toList, version.versionId),
    ("x-amz-storage-class".toList, storageClassName version.headers.storageClass)] ++
  encryptionHeader version.encryption ++
  entityHeader "Content-Type" (some (version.headers.contentType.getD "binary/octet-stream".toList))
    (overrides "response-content-type") ++
  entityHeader "Content-Encoding" version.headers.contentEncoding (overrides "response-content-encoding") ++
  entityHeader "Cache-Control" version.headers.cacheControl (overrides "response-cache-control") ++
  entityHeader "Content-Disposition" version.headers.contentDisposition
    (overrides "response-content-disposition") ++
  entityHeader "Content-Language" none (overrides "response-content-language") ++
  entityHeader "Expires" none (overrides "response-expires") ++
  (version.headers.metadata.getD []).map fun entry => (metadataPrefix ++ entry.1, entry.2)

/-! ## What is told -/

/-- The value of a header of an answer. -/
def valueOf (headers : Headers) (name : String) : Option Text :=
  (headers.find? (·.1 = name.toList)).map (·.2)

theorem valueOf_append (headers rest : Headers) (name : String) :
    valueOf (headers ++ rest) name = (valueOf headers name).or (valueOf rest name) := by
  rw [valueOf, List.find?_append]
  cases h : headers.find? (·.1 = name.toList) <;> simp [valueOf, h]

theorem valueOf_cons (entry : String) (value : Text) (rest : Headers) (name : String) :
    valueOf ((entry.toList, value) :: rest) name = if entry = name then some value else valueOf rest name := by
  rw [valueOf, List.find?_cons]
  by_cases h : entry = name
  · simp [h]
  · have hne : entry.toList ≠ name.toList := fun heq => h (String.toList_inj.mp heq)
    simp [h, hne, valueOf]

theorem valueOf_nil (name : String) : valueOf [] name = none := rfl

theorem valueOf_entityHeader (entry : String) (stored override : Option Text) (name : String) :
    valueOf (entityHeader entry stored override) name =
      if entry = name then Query.present (override.or stored) else none := by
  rw [entityHeader]
  cases Query.present (override.or stored) with
  | none => simp [valueOf]
  | some value => exact valueOf_cons entry value [] name

theorem valueOf_encryptionHeader {encryption : Option StorageTypes.BlobEncryption} {name : String}
    (h : name ≠ "x-amz-server-side-encryption") : valueOf (encryptionHeader encryption) name = none := by
  cases encryption with
  | none => rfl
  | some _ => exact (valueOf_cons _ _ _ _).trans (if_neg (Ne.symm h))

/-- No other header is user metadata. -/
theorem valueOf_metadata {metadata : List (Text × Text)} {name : String}
    (h : ¬ metadataPrefix <+: name.toList) :
    valueOf (metadata.map fun entry => (metadataPrefix ++ entry.1, entry.2)) name = none := by
  rw [valueOf, Option.map_eq_none_iff, List.find?_eq_none]
  intro x hx hname
  obtain ⟨entry, -, rfl⟩ := List.mem_map.mp hx
  exact h ⟨entry.1, of_decide_eq_true hname⟩

/-- The user metadata of an answer. -/
def metadataOf (headers : Headers) : Headers := headers.filter fun h => metadataPrefix.isPrefixOf h.1

theorem metadataOf_append (headers rest : Headers) :
    metadataOf (headers ++ rest) = metadataOf headers ++ metadataOf rest := List.filter_append _ _

theorem metadataOf_entityHeader {entry : String} (h : ¬ metadataPrefix <+: entry.toList)
    (stored override : Option Text) : metadataOf (entityHeader entry stored override) = [] := by
  rw [metadataOf, List.filter_eq_nil_iff]
  intro x hx hmeta
  rw [entityHeader, Option.mem_toList, Option.map_eq_some_iff] at hx
  obtain ⟨value, -, rfl⟩ := hx
  exact h (List.isPrefixOf_iff_prefix.mp hmeta)

theorem metadataOf_encryptionHeader (encryption : Option StorageTypes.BlobEncryption) :
    metadataOf (encryptionHeader encryption) = [] := by
  cases encryption <;> rfl

theorem metadataOf_metadata (metadata : List (Text × Text)) :
    metadataOf (metadata.map fun entry => (metadataPrefix ++ entry.1, entry.2)) =
      metadata.map fun entry => (metadataPrefix ++ entry.1, entry.2) := by
  rw [metadataOf, List.filter_eq_self]
  intro x hx
  obtain ⟨entry, -, rfl⟩ := List.mem_map.mp hx
  exact List.isPrefixOf_iff_prefix.mpr ⟨entry.1, rfl⟩

/-- The user metadata of an upload, but for what nothing is stored of. -/
def sentMetadata (up : Express.Request) : Headers :=
  (up.headers.filter fun h =>
    metadataPrefix.isPrefixOf h.1 && h.1 ≠ metadataPrefix ++ protoName).map fun h =>
      (h.1, headerValue h.2)

theorem userMetadata_sent (up : Express.Request) :
    (userMetadata up).map (fun entry => (metadataPrefix ++ entry.1, entry.2)) = sentMetadata up := by
  have hprefix : ∀ h : Text × PoliciesTypes.OneOrMany, metadataPrefix.isPrefixOf h.1 = true →
      ∃ name, h.1 = metadataPrefix ++ name ∧ h.1.drop metadataPrefix.length = name := by
    intro h hmeta
    obtain ⟨name, hname⟩ := List.isPrefixOf_iff_prefix.mp hmeta
    exact ⟨name, hname.symm, by rw [← hname, List.drop_left]⟩
  rw [userMetadata, sentMetadata, List.filter_map, List.map_map, List.filter_filter]
  have hfilter : ∀ h ∈ up.headers, (((fun entry : Text × Text => decide (entry.1 ≠ protoName)) ∘
        fun h : Text × PoliciesTypes.OneOrMany => (h.1.drop metadataPrefix.length, headerValue h.2)) h &&
        metadataPrefix.isPrefixOf h.1) =
      (metadataPrefix.isPrefixOf h.1 && decide (h.1 ≠ metadataPrefix ++ protoName)) := by
    intro h _
    cases hmeta : metadataPrefix.isPrefixOf h.1 with
    | false => exact Bool.and_false _
    | true =>
      obtain ⟨name, hname, hdrop⟩ := hprefix h hmeta
      rw [Bool.and_true, Bool.true_and, Function.comp_apply, hdrop, hname, decide_eq_decide, Ne,
        Ne, List.append_cancel_left_eq]
  rw [List.filter_congr hfilter]
  refine List.map_congr_left fun h hmem => ?_
  have hmeta := (List.mem_filter.mp hmem).2
  rw [Bool.and_eq_true] at hmeta
  obtain ⟨name, hname, hdrop⟩ := hprefix h hmeta.1
  rw [Function.comp_apply, hdrop, hname]

variable (J : Strings)

/-- **The headers of an answer tell what was sent**, but for what the request wants instead. -/
structure Tells (up : Express.Request) (overrides : String → Option Text) (headers : Headers) : Prop where
  metadata : metadataOf headers = sentMetadata up
  contentType : valueOf headers "Content-Type" = Query.present ((overrides "response-content-type").or
    (some ((header J up "content-type".toList).getD "binary/octet-stream".toList)))
  contentEncoding : valueOf headers "Content-Encoding" =
    Query.present ((overrides "response-content-encoding").or (contentEncoding J up))
  cacheControl : valueOf headers "Cache-Control" =
    Query.present ((overrides "response-cache-control").or (header J up "cache-control".toList))
  contentDisposition : valueOf headers "Content-Disposition" =
    Query.present ((overrides "response-content-disposition").or (header J up "content-disposition".toList))

/-- The headers that say how much is sent. -/
def LengthHeaders (headers : Headers) : Prop :=
  ∀ h ∈ headers, h.1 = "Content-Length".toList ∨ h.1 = "Content-Range".toList

theorem valueOf_lengthHeaders {headers : Headers} (h : LengthHeaders headers) {name : String}
    (hlength : name ≠ "Content-Length") (hrange : name ≠ "Content-Range") : valueOf headers name = none := by
  rw [valueOf, Option.map_eq_none_iff, List.find?_eq_none]
  intro x hx hname
  rw [decide_eq_true_iff] at hname
  rcases h x hx with hx | hx
  · exact hlength (String.toList_inj.mp (hname.symm.trans hx))
  · exact hrange (String.toList_inj.mp (hname.symm.trans hx))

theorem metadataOf_lengthHeaders {headers : Headers} (h : LengthHeaders headers) : metadataOf headers = [] := by
  rw [metadataOf, List.filter_eq_nil_iff]
  intro x hx
  rcases h x hx with hx | hx
  · rw [hx]
    decide
  · rw [hx]
    decide

theorem objectHeaders_tells {up : Express.Request} {version : ObjectVersionDetail}
    (h : version.headers = ObjectsService.toVersionColumns (S3RequestService.objectHeaders J up))
    (overrides : String → Option Text) {rest : Headers} (hrest : LengthHeaders rest) :
    Tells J up overrides (objectHeaders toUTCString version overrides ++ rest) := by
  refine ⟨?_, ?_, ?_, ?_, ?_⟩
  · have hmetadata : (version.headers.metadata.getD []) = userMetadata up := by
      rw [h]
      show (if userMetadata up = [] then none else some (userMetadata up)).getD [] = _
      split_ifs with hempty
      · exact hempty.symm
      · rfl
    rw [objectHeaders]
    simp only [metadataOf_append, metadataOf_metadata, metadataOf_encryptionHeader]
    rw [metadataOf_entityHeader (by decide), metadataOf_entityHeader (by decide),
      metadataOf_entityHeader (by decide), metadataOf_entityHeader (by decide),
      metadataOf_entityHeader (by decide), metadataOf_entityHeader (by decide),
      metadataOf_lengthHeaders hrest, hmetadata, userMetadata_sent, List.append_nil]
    rfl
  all_goals
    rw [objectHeaders]
    simp only [valueOf_append, valueOf_cons, valueOf_nil, valueOf_entityHeader, String.reduceEq, ↓reduceIte,
      Option.none_or, Option.or_none]
    rw [valueOf_metadata (by decide), valueOf_encryptionHeader (by decide),
      valueOf_lengthHeaders hrest (by decide) (by decide), h]
    simp [ObjectsService.toVersionColumns, S3RequestService.objectHeaders]

end S3ResponseService
end SimpleStorage
