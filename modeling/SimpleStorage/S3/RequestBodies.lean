import SimpleStorage.S3.Controllers
import SimpleStorage.S3.S3ChunkedStream
import SimpleStorage.S3.S3Guard
import SimpleStorage.S3.S3XmlService

/-!
# What a request does with its body

A body is either the payload of an object or a part, and is streamed, or a document of a control
operation, and is read to its end first.  `Operation` lists the operations that read one, and `handle`
is what the controllers do with it.

What the parsers of the runtime and of the XML library make of a text are parameters.  A policy is
what its type says; other JSON that passes for one is the subject of `StoredPolicies`.
-/

namespace SimpleStorage

open Express S3Types

namespace S3RequestService

/-- Largest body accepted for the documents of control operations. -/
def maxControlBodyBytes : ℕ := 2 * 1024 * 1024

def streamingSignedPayload : Text := "STREAMING-AWS4-HMAC-SHA256-PAYLOAD".toList

def streamingSignedPayloadTrailer : Text := "STREAMING-AWS4-HMAC-SHA256-PAYLOAD-TRAILER".toList

def streamingUnsignedPayload : Text := "STREAMING-UNSIGNED-PAYLOAD-TRAILER".toList

def payloadHashHeader : Text := "x-amz-content-sha256".toList

/-- A payload without its framing; one whose framing is broken breaks off. -/
def unframed (C : Crypto) (context : Option ChunkSigningContext) (body : Readable) : Readable :=
  match S3ChunkedStream.decode C context body.chunks with
  | .ok content => ⟨[content], body.interrupted⟩
  | .error _ => ⟨[], true⟩

/-- The object payload as a plain byte stream. -/
def payloadStream (J : Strings) (C : Crypto) (req : Request) (identity : S3Guard.Identity)
    (body : Readable) : Except Fault Readable :=
  let payloadHash := header J req payloadHashHeader
  if payloadHash = some streamingSignedPayload ∨ payloadHash = some streamingSignedPayloadTrailer then
    match identity.chunkSigning with
    | none => .error .invalidRequest
    | some context => .ok (unframed C context body)
  else if payloadHash = some streamingUnsignedPayload then .ok (unframed C none body)
  else .ok body

/-- Buffers the body of a control operation. -/
def readBody (body : Readable) : Except Fault Text :=
  if StorageService.overflows (some maxControlBodyBytes) 0 body.chunks then .error .entityTooLarge
  else if body.interrupted then .error .payloadInterrupted
  else .ok (Utf8.decode body.content)

end S3RequestService

namespace S3XmlService

open ObjectsTypes Xml

variable (parse : Text → Value)

/-- The number of a part.  The number of no part stands for what is no whole number. -/
def partNumberOf (s : Text) : ℤ :=
  match s.number with
  | some q => if q.den = 1 then q.num else 10001
  | none => 10001

/-- `<CompleteMultipartUpload><Part><PartNumber/><ETag/></Part>...` -/
def parseCompleteMultipartUpload (xml : Text) : Except XmlFault (List CompletePart) := do
  let document ← parseRoot parse xml "CompleteMultipartUpload".toList
  return (toArray (document.field "Part".toList)).map fun part => {
    partNumber := partNumberOf (text (part.field "PartNumber".toList))
    etag := (text (part.field "ETag".toList)).filter (· ≠ '"') }

/-- `<VersioningConfiguration><Status>Enabled|Suspended</Status></VersioningConfiguration>` -/
def parseVersioningConfiguration (xml : Text) :
    Except XmlFault S3BucketController.VersioningStatus := do
  let document ← parseRoot parse xml "VersioningConfiguration".toList
  let status := text (document.field "Status".toList)
  if status = "Enabled".toList then return .enabled
  else if status = "Suspended".toList then return .suspended
  else throw .malformedXml

/-- `<CORSConfiguration><CORSRule><AllowedOrigin/>...</CORSRule>...</CORSConfiguration>` -/
def parseCorsConfiguration (xml : Text) : Except XmlFault CorsConfiguration := do
  let document ← parseRoot parse xml "CORSConfiguration".toList
  let texts (rule : Value) (name : String) : List Text :=
    (toArray (rule.field name.toList)).map fun value => text (some value)
  return ⟨(toArray (document.field "CORSRule".toList)).map fun rule => {
    id := (rule.field "ID".toList).map fun value => text (some value)
    allowedOrigins := texts rule "AllowedOrigin"
    allowedMethods := texts rule "AllowedMethod"
    allowedHeaders := texts rule "AllowedHeader"
    exposeHeaders := texts rule "ExposeHeader"
    maxAgeSeconds := (rule.field "MaxAgeSeconds".toList).map fun value => (text (some value)).number }⟩

end S3XmlService

namespace S3RequestService

open ObjectsTypes S3XmlService

/-- What a node reads bodies with. -/
structure Readers where
  xml : Text → Xml.Value
  json : Text → Option PoliciesTypes.PolicyDocument
  toUpperCase : Text → Text

/-- A document in the body, or what is wrong with it. -/
def documentOf {α : Type} (read : Text → Except XmlFault α) (body : Readable) : Except Fault α := do
  let xml ← readBody body
  (read xml).mapError fun _ => .malformedXml

/-- A policy in the body. -/
def policyOf (json : Text → Option PoliciesTypes.PolicyDocument) (bucketName : Text) (body : Readable) :
    Except Fault PoliciesTypes.PolicyDocument := do
  let text ← readBody body
  match json text with
  | some document => return document
  | none => throw (.malformedPolicy bucketName)

/-- The operations that read the body: of those on an object, the ones without a copy source, and of
those on an ACL the ones without one in their headers. -/
inductive Operation where
  | put (req : ObjectRequest)
  | completeMultipartUpload (req : ObjectRequest)
  | putBucketAcl (req : BucketRequest)
  | putBucketVersioning (req : BucketRequest)
  | putBucketPolicy (req : BucketRequest)
  | putBucketCors (req : BucketRequest)
  | deleteObjects (req : BucketRequest)

variable (J : Strings) (N : Node) (C : Crypto) (R : Readers) (maxSingleUploadBytes : ℕ)

/-- What the controllers do with a request and its body. -/
def handle (req : Request) (identity : S3Guard.Identity) (body : Readable) :
    Operation → Service Response
  | .put object =>
      match payloadStream J C req identity body with
      | .ok payload => S3ObjectController.put J N maxSingleUploadBytes
          { object with copySource := none, payload } identity.toRequestIdentity
      | .error fault => do
          let _ ← S3AuthorizationService.resolveBucket J object.values object.bucket
            identity.toRequestIdentity .putObject (some object.key)
          throw fault
  | .completeMultipartUpload object => S3ObjectController.post J N
      { object with
        uploads := false
        parts := documentOf (parseCompleteMultipartUpload R.xml) body } identity.toRequestIdentity
  | .putBucketAcl bucket => S3BucketController.putAcl J bucket identity.toRequestIdentity (.ok none)
      (documentOf (parseAccessControlPolicy R.toUpperCase R.xml) body)
  | .putBucketVersioning bucket => S3BucketController.putVersioning J bucket identity.toRequestIdentity
      (documentOf (parseVersioningConfiguration R.xml) body)
  | .putBucketPolicy bucket => S3BucketController.putPolicy J bucket identity.toRequestIdentity
      (policyOf R.json bucket.bucket body)
  | .putBucketCors bucket => S3BucketController.putCors J bucket identity.toRequestIdentity
      (documentOf (parseCorsConfiguration R.xml) body)
  | .deleteObjects bucket => S3BucketController.post J N bucket identity.toRequestIdentity
      ((documentOf (parseDelete R.xml) body).map (·.objects))

end S3RequestService
end SimpleStorage
