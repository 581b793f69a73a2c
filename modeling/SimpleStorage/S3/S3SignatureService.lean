import Mathlib.Data.List.Sort
import Mathlib.Data.Rat.Defs
import Mathlib.Algebra.Order.Ring.Unbundled.Rat
import SimpleStorage.S3.S3RequestService

/-!
# Signature Version 4

What a signature is computed from: the method, the path, the query, the signed headers and
the payload hash, put into a canonical form.  The service computes the signature a second
time and compares; for a presigned URL it is also the one that computes it the first time.

The hash functions and the runtime's readings of numbers and dates are parameters.  Times
are in milliseconds, and the clock's value is an argument.
-/

namespace SimpleStorage

namespace Text

/-- Replace each run of white space by one blank, inside a run or outside one. -/
def collapseFrom : Bool → Text → Text
  | _, [] => []
  | inside, c :: rest =>
      if isSpace c then
        if inside then collapseFrom true rest else ' ' :: collapseFrom true rest
      else c :: collapseFrom false rest

/-- `s.replace(/\s+/g, ' ')`. -/
def collapseSpaces (s : Text) : Text := collapseFrom false s

theorem collapseSpaces_of_not_space {s : Text} (h : ∀ c ∈ s, isSpace c = false) :
    collapseSpaces s = s := by
  have hfrom : ∀ inside, collapseFrom inside s = s := by
    induction s with
    | nil => exact fun _ => rfl
    | cons c s ih =>
      intro inside
      have hc : ¬ isSpace c = true := by
        rw [h c List.mem_cons_self]
        exact Bool.false_ne_true
      rw [collapseFrom, if_neg hc, ih fun d hd => h d (List.mem_cons_of_mem _ hd)]
  exact hfrom false

/-- The bytes of a text. -/
def bytes (s : Text) : Bytes := Utf8.encode s

end Text

/-- The hash functions of the crypto module. -/
structure Crypto where
  sha256 : Bytes → Bytes
  length_sha256 : ∀ bs, (sha256 bs).length = 32
  hmacSha256 : Bytes → Bytes → Bytes
  length_hmacSha256 : ∀ key bs, (hmacSha256 key bs).length = 32

/-- Hash functions to run examples on. -/
def Crypto.sample : Crypto where
  sha256 bs := (List.range 32).map fun i => UInt8.ofNat (bs.foldl (fun n b => 257 * n + b.toNat + 1) 0 / 256 ^ i)
  length_sha256 bs := by rw [List.length_map, List.length_range]
  hmacSha256 key bs := (List.range 32).map fun i =>
    UInt8.ofNat ((key ++ bs).foldl (fun n b => 257 * n + b.toNat + 1) 0 / 256 ^ i)
  length_hmacSha256 key bs := by rw [List.length_map, List.length_range]

/-- A number of the runtime, up to rounding. -/
inductive Number where
  | nan
  | finite (value : ℚ)
  | infinity
  | negInfinity
  deriving DecidableEq, Repr

namespace Number

/-- `<`, which is false where one side is `NaN`. -/
def lt : Number → Number → Bool
  | .finite x, .finite y => x < y
  | .finite _, .infinity | .negInfinity, .finite _ | .negInfinity, .infinity => true
  | _, _ => false

/-- `<=`. -/
def le : Number → Number → Bool
  | .finite x, .finite y => x ≤ y
  | .finite _, .infinity | .negInfinity, .finite _ | .negInfinity, .infinity
  | .infinity, .infinity | .negInfinity, .negInfinity => true
  | _, _ => false

/-- `offset + factor * x`, for a positive factor. -/
def affine (offset factor : ℚ) : Number → Number
  | .finite x => .finite (offset + factor * x)
  | x => x

end Number

/-- What the runtime reads as a number, and as a date. -/
structure Numbers where
  /-- `Number(s)`. -/
  number : Text → Number
  number_toDigits : ∀ n < 2 ^ 53, number (Nat.toDigits 10 n) = .finite n
  /-- `Date.parse`, in milliseconds. -/
  dateParse : Text → Option ℤ

/-- Readings to run examples on: digits are numbers, and no other text is a date. -/
def Numbers.sample : Numbers where
  number s := if s.all Char.isDigit then .finite (Nat.ofDigitChars 10 s 0) else .nan
  number_toDigits n _ := by
    have hdigits : (Nat.toDigits 10 n).all Char.isDigit = true :=
      List.all_eq_true.mpr fun _ hc => Nat.isDigit_of_mem_toDigits (by omega) (by omega) hc
    rw [if_pos hdigits, Nat.ofDigitChars_toDigits (by omega) (by omega)]
  dateParse _ := none

namespace S3Types

/-- What is wrong with a signature. -/
inductive SignatureFault where
  | malformedAuthorization
  | clockSkew
  | expiredSignature
  | signatureMismatch
  /-- An error of the runtime: a malformed escape in the URL, or a signed header that is not a
  text. -/
  | runtimeError
  deriving DecidableEq, Repr

structure SignatureV4Header where
  accessKeyId : Text
  date : Text
  region : Text
  service : Text
  signedHeaders : List Text
  signature : Text
  deriving DecidableEq, Repr

structure SignatureV4Query extends SignatureV4Header where
  amzDate : Text
  expires : Number
  deriving DecidableEq, Repr

/-- What the signatures of the chunks of a payload continue from. -/
structure ChunkSigningContext where
  signingKey : Bytes
  seedSignature : Text
  amzDate : Text
  credentialScope : Text
  deriving DecidableEq, Repr

end S3Types

namespace S3SignatureService

open Express S3Types

variable (J : Strings)

def algorithm : Text := "AWS4-HMAC-SHA256".toList

def maxClockSkewMs : ℤ := 15 * 60 * 1000

/-! ## The canonical request -/

/-- AWS URI encoding: five characters more than `encodeURIComponent` escapes. -/
def uriEncode (value : Text) : Text :=
  PercentCoding.escape (fun c => c ∉ "!'()*".toList) (encodeURIComponent value)

/-- Does the first of two encoded parameters come no later than the second? -/
def compareEncoded (left right : Text × Text) : Prop :=
  if left.1 ≠ right.1 then left.1 < right.1 else left.2 = right.2 ∨ left.2 < right.2

instance : DecidableRel compareEncoded := fun left right =>
  inferInstanceAs (Decidable (if left.1 ≠ right.1 then left.1 < right.1
    else left.2 = right.2 ∨ left.2 < right.2))

def canonicalUri (uriPath : Text) : Option Text := do
  let segments ← (Text.split '/' uriPath).mapM decodeURIComponent
  let uri := Text.join '/' (segments.map uriEncode)
  return if uri = [] then ['/'] else uri

/-- A pair of the query string, decoded. -/
def decodedPair (pair : Text) : Option (Text × Text) := do
  let key ← decodeURIComponent (nameAndValue pair).1
  let value ← decodeURIComponent (nameAndValue pair).2
  return (key, value)

/-- The pairs of a query string, decoded. -/
def decodedPairs (queryString : Text) : Option (List (Text × Text)) :=
  ((Text.split '&' queryString).filter (· ≠ [])).mapM decodedPair

def canonicalQuery (excludeQueryKeys : List Text) (queryString : Text) : Option Text := do
  let pairs ← decodedPairs queryString
  let encoded := pairs.map fun pair => (uriEncode pair.1, uriEncode pair.2)
  let signed := encoded.filter (·.1 ∉ excludeQueryKeys)
  return Text.join '&' ((signed.insertionSort compareEncoded).map fun pair =>
    pair.1 ++ '=' :: pair.2)

def canonicalHeaders (req : Request) (signedHeaders : List Text) : Text :=
  signedHeaders.flatMap fun name =>
    name ++ ':' :: (((S3RequestService.header J req name).getD []).trim.collapseSpaces ++ ['\n'])

/-- The members that every object inherits and whose names are in lower case. -/
def inheritedMembers : List Text := ["constructor".toList, "__proto__".toList]

/-- Where there is no header of a name, looking it up finds what every object inherits. -/
def InheritedHeader (req : Request) (name : Text) : Prop :=
  S3RequestService.header J req name = none ∧ J.toLowerCase name ∈ inheritedMembers

instance (req : Request) : DecidablePred (InheritedHeader J req) := fun name =>
  inferInstanceAs (Decidable (S3RequestService.header J req name = none ∧
    J.toLowerCase name ∈ inheritedMembers))

/-- What is signed.  It throws at a malformed escape in the URL, and where a signed header is an
inherited member, which cannot be trimmed. -/
def buildCanonicalRequest (req : Request) (signedHeaders : List Text) (payloadHash : Text)
    (excludeQueryKeys : List Text := []) : Option Text := do
  let pieces := Text.split '?' req.originalUrl
  let uri ← canonicalUri (pieces.headD [])
  let query ← canonicalQuery excludeQueryKeys ((pieces[1]?).getD [])
  if ∃ name ∈ signedHeaders, InheritedHeader J req name then none
  else return Text.join '\n' [req.method, uri, query, canonicalHeaders J req signedHeaders,
    Text.join ';' signedHeaders, payloadHash]

/-! ## Dates -/

/-- `Date.UTC`: the month counts from 0, and what is out of its range carries over. -/
def dateUTC (year month day hours minutes seconds : ℤ) : ℤ :=
  let fullYear := (if 0 ≤ year ∧ year ≤ 99 then 1900 + year else year) + month / 12
  let month := month % 12
  -- Years are counted from March on, so that the leap day is the last day of a year.
  let y := if month < 2 then fullYear - 1 else fullYear
  let dayOfYear := (153 * ((month + 10) % 12) + 2) / 5
  let days := 365 * y + y / 4 - y / 100 + y / 400 + dayOfYear - 719468 + (day - 1)
  (((days * 24 + hours) * 60 + minutes) * 60 + seconds) * 1000

/-- The number a run of digits stands for. -/
def digits (s : Text) : ℤ := s.foldl (fun n c => 10 * n + (c.toNat - '0'.toNat : ℕ)) 0

/-- `20240131T120000Z`, or whatever else the runtime reads as a date. -/
def parseAmzDate (D : Numbers) (amzDate : Text) : Except SignatureFault ℤ :=
  let piece (i n : ℕ) : Text := (amzDate.drop i).take n
  if amzDate.length = 16 ∧ (piece 0 8).all Char.isDigit ∧ piece 8 1 = ['T'] ∧
      (piece 9 6).all Char.isDigit ∧ piece 15 1 = ['Z'] then
    .ok (dateUTC (digits (piece 0 4)) (digits (piece 4 2) - 1) (digits (piece 6 2))
      (digits (piece 9 2)) (digits (piece 11 2)) (digits (piece 13 2)))
  else match D.dateParse amzDate with
    | some timestamp => .ok timestamp
    | none => .error .malformedAuthorization

/-- The last `n` digits of a number. -/
def padded : ℕ → ℕ → Text
  | 0, _ => []
  | n + 1, value => padded n (value / 10) ++ [Nat.digitChar (value % 10)]

/-- The date of a day counted from 1970, as a year, a month from 1 on and a day. -/
def civilFromDays (days : ℤ) : ℤ × ℤ × ℤ :=
  let era := (days + 719468) / 146097
  let dayOfEra := (days + 719468) % 146097
  let yearOfEra := (dayOfEra - dayOfEra / 1460 + dayOfEra / 36524 - dayOfEra / 146096) / 365
  let dayOfYear := dayOfEra - (365 * yearOfEra + yearOfEra / 4 - yearOfEra / 100)
  let mp := (5 * dayOfYear + 2) / 153
  let month := if mp < 10 then mp + 3 else mp - 9
  (yearOfEra + era * 400 + (if month ≤ 2 then 1 else 0), month, dayOfYear - (153 * mp + 2) / 5 + 1)

/-- The year of a date as `toISOString` writes it, without hyphens. -/
def yearText (year : ℤ) : Text :=
  if 0 ≤ year ∧ year ≤ 9999 then padded 4 year.toNat
  else if year < 0 then padded 6 year.natAbs else '+' :: padded 6 year.natAbs

/-- `20240131T120000Z`. -/
def toAmzDate (time : ℤ) : Text :=
  let seconds := time / 1000
  let (year, month, day) := civilFromDays (seconds / 86400)
  yearText year ++ padded 2 month.toNat ++ padded 2 day.toNat ++ 'T' ::
    (padded 2 (seconds / 3600 % 24).toNat ++ padded 2 (seconds / 60 % 60).toNat ++
      padded 2 (seconds % 60).toNat) ++ ['Z']

/-! ## The signature -/

variable (C : Crypto) (D : Numbers)

/-- The `Authorization` header of a signed request. -/
def parseAuthorizationHeader (header : Text) : Except SignatureFault SignatureV4Header :=
  if algorithm <+: header then
    let parts := (Text.split ',' (header.drop algorithm.length)).map fun part =>
      nameAndValue part.trim
    -- The last of several parts of one name counts.
    let part (name : Text) : Option Text := (parts.reverse.find? (·.1 = name)).map (·.2)
    let credential := Text.split '/' ((part "Credential".toList).getD [])
    let signedHeaders :=
      (Text.split ';' ((part "SignedHeaders".toList).getD [])).filter (· ≠ [])
    let parsed : SignatureV4Header :=
      { accessKeyId := credential.headD []
        date := (credential[1]?).getD []
        region := (credential[2]?).getD []
        service := (credential[3]?).getD []
        signedHeaders := signedHeaders
        signature := (part "Signature".toList).getD [] }
    if parsed.accessKeyId = [] ∨ parsed.date = [] ∨ parsed.region = [] ∨ parsed.service = [] ∨
        parsed.signedHeaders = [] ∨ parsed.signature = [] then
      .error .malformedAuthorization
    else .ok parsed
  else .error .malformedAuthorization

/-- The signature in the query of a presigned URL, if there is one. -/
def parseQuerySignature (malformed : Text → Text) (req : Request) :
    Except SignatureFault (Option SignatureV4Query) :=
  let query := parameters malformed (((Text.split '?' req.originalUrl)[1]?).getD [])
  let get (name : Text) : Option Text := (query.find? (·.1 = name)).map (·.2)
  if get "X-Amz-Algorithm".toList ≠ some algorithm then .ok none
  else
    let credential := Text.split '/' ((get "X-Amz-Credential".toList).getD [])
    let parsed : SignatureV4Query :=
      { accessKeyId := credential.headD []
        date := (credential[1]?).getD []
        region := (credential[2]?).getD []
        service := (credential[3]?).getD []
        signedHeaders :=
          (Text.split ';' ((get "X-Amz-SignedHeaders".toList).getD [])).filter (· ≠ [])
        signature := (get "X-Amz-Signature".toList).getD []
        amzDate := (get "X-Amz-Date".toList).getD []
        expires := match get "X-Amz-Expires".toList with
          | some expires => D.number expires
          | none => .finite 0 }
    if parsed.accessKeyId = [] ∨ parsed.date = [] ∨ parsed.region = [] ∨ parsed.service = [] ∨
        parsed.signature = [] ∨ parsed.amzDate = [] ∨ parsed.signedHeaders = [] then
      .error .malformedAuthorization
    else .ok (some parsed)

def deriveSigningKey (secretAccessKey date region service : Text) : Bytes :=
  let dateKey := C.hmacSha256 (Text.bytes ("AWS4".toList ++ secretAccessKey)) date.bytes
  let regionKey := C.hmacSha256 dateKey region.bytes
  let serviceKey := C.hmacSha256 regionKey service.bytes
  C.hmacSha256 serviceKey (Text.bytes "aws4_request".toList)

def buildStringToSign (amzDate credentialScope canonicalRequest : Text) : Text :=
  Text.join '\n' [algorithm, amzDate, credentialScope,
    Codec.hex (C.sha256 canonicalRequest.bytes)]

/-- The scope of a credential, in the credential itself and in what is signed. -/
def credentialScopeOf (date region service : Text) : Text :=
  Text.join '/' [date, region, service, "aws4_request".toList]

/-- The signature of a canonical request. -/
def signatureOf (secretAccessKey date region service amzDate canonicalRequest : Text) : Text :=
  let stringToSign :=
    buildStringToSign C amzDate (credentialScopeOf date region service) canonicalRequest
  Codec.hex (C.hmacSha256 (deriveSigningKey C secretAccessKey date region service)
    stringToSign.bytes)

/-- Compute the signature of a header-signed request again and compare. -/
def verify (now : ℤ) (req : Request) (parsed : SignatureV4Header)
    (secretAccessKey payloadHash : Text) : Except SignatureFault ChunkSigningContext := do
  let amzDate := ((S3RequestService.header J req "x-amz-date".toList).or
    (S3RequestService.header J req "date".toList)).getD []
  if amzDate = [] then throw .malformedAuthorization
  let timestamp ← parseAmzDate D amzDate
  if maxClockSkewMs < |now - timestamp| then throw .clockSkew
  let canonicalRequest ← match buildCanonicalRequest J req parsed.signedHeaders payloadHash with
    | some canonicalRequest => pure canonicalRequest
    | none => throw .runtimeError
  let expected := signatureOf C secretAccessKey parsed.date parsed.region parsed.service amzDate
    canonicalRequest
  if Text.bytes expected ≠ parsed.signature.bytes then throw .signatureMismatch
  return {
    signingKey := deriveSigningKey C secretAccessKey parsed.date parsed.region parsed.service
    seedSignature := parsed.signature
    amzDate
    credentialScope := credentialScopeOf parsed.date parsed.region parsed.service }

/-- What stands for the payload hash where the payload is not signed. -/
def unsignedPayload : Text := "UNSIGNED-PAYLOAD".toList

/-- Compute the signature of a presigned URL again and compare. -/
def verifyPresigned (now : ℤ) (req : Request) (parsed : SignatureV4Query)
    (secretAccessKey : Text) : Except SignatureFault Unit := do
  let issuedAt ← parseAmzDate D parsed.amzDate
  if parsed.expires.le (.finite 0) || (Number.finite (7 * 24 * 3600)).lt parsed.expires then
    throw .malformedAuthorization
  if (parsed.expires.affine issuedAt 1000).lt (.finite now) then throw .expiredSignature
  let canonicalRequest ← match buildCanonicalRequest J req parsed.signedHeaders unsignedPayload
      ["X-Amz-Signature".toList] with
    | some canonicalRequest => pure canonicalRequest
    | none => throw .runtimeError
  let expected := signatureOf C secretAccessKey parsed.date parsed.region parsed.service
    parsed.amzDate canonicalRequest
  if Text.bytes expected ≠ parsed.signature.bytes then throw .signatureMismatch

/-- The date a header-signed request names. -/
def amzDateOf (req : Request) : Text :=
  ((S3RequestService.header J req "x-amz-date".toList).or
    (S3RequestService.header J req "date".toList)).getD []

/-- The checks of a header-signed request, in order. -/
theorem verify_eq (now : ℤ) (req : Request) (parsed : SignatureV4Header)
    (secretAccessKey payloadHash : Text) :
    verify J C D now req parsed secretAccessKey payloadHash =
      if amzDateOf J req = [] then .error .malformedAuthorization
      else match parseAmzDate D (amzDateOf J req) with
        | .error fault => .error fault
        | .ok timestamp =>
            if maxClockSkewMs < |now - timestamp| then .error .clockSkew
            else match buildCanonicalRequest J req parsed.signedHeaders payloadHash with
              | none => .error .runtimeError
              | some canonicalRequest =>
                  if Text.bytes (signatureOf C secretAccessKey parsed.date parsed.region parsed.service
                      (amzDateOf J req) canonicalRequest) = parsed.signature.bytes then
                    .ok {
                      signingKey := deriveSigningKey C secretAccessKey parsed.date parsed.region
                        parsed.service
                      seedSignature := parsed.signature
                      amzDate := amzDateOf J req
                      credentialScope := credentialScopeOf parsed.date parsed.region parsed.service }
                  else .error .signatureMismatch := by
  unfold verify
  dsimp only [bind, Except.bind]
  rw [← amzDateOf]
  by_cases hempty : amzDateOf J req = []
  · rw [if_pos hempty, if_pos hempty]
    rfl
  rw [if_neg hempty, if_neg hempty]
  cases parseAmzDate D (amzDateOf J req) with
  | error fault => rfl
  | ok timestamp =>
    dsimp only
    by_cases hskew : maxClockSkewMs < |now - timestamp|
    · rw [if_pos hskew, if_pos hskew]
      rfl
    rw [if_neg hskew, if_neg hskew]
    cases buildCanonicalRequest J req parsed.signedHeaders payloadHash with
    | none => rfl
    | some canonicalRequest =>
      dsimp only [pure, Except.pure]
      rw [ite_not]
      rfl

/-- The checks of a presigned URL, in order. -/
theorem verifyPresigned_eq (now : ℤ) (req : Request) (parsed : SignatureV4Query)
    (secretAccessKey : Text) :
    verifyPresigned J C D now req parsed secretAccessKey =
      match parseAmzDate D parsed.amzDate with
      | .error fault => .error fault
      | .ok issuedAt =>
          if parsed.expires.le (.finite 0) || (Number.finite (7 * 24 * 3600)).lt parsed.expires then
            .error .malformedAuthorization
          else if (parsed.expires.affine issuedAt 1000).lt (.finite now) then .error .expiredSignature
          else match buildCanonicalRequest J req parsed.signedHeaders unsignedPayload
              ["X-Amz-Signature".toList] with
            | none => .error .runtimeError
            | some canonicalRequest =>
                if Text.bytes (signatureOf C secretAccessKey parsed.date parsed.region parsed.service
                    parsed.amzDate canonicalRequest) = parsed.signature.bytes then .ok ()
                else .error .signatureMismatch := by
  unfold verifyPresigned
  cases parseAmzDate D parsed.amzDate with
  | error fault => rfl
  | ok issuedAt =>
    dsimp only [bind, Except.bind]
    by_cases hlifetime : (parsed.expires.le (.finite 0) ||
        (Number.finite (7 * 24 * 3600)).lt parsed.expires) = true
    · rw [if_pos hlifetime, if_pos hlifetime]
      rfl
    rw [if_neg hlifetime, if_neg hlifetime]
    by_cases hexpired : (parsed.expires.affine issuedAt 1000).lt (.finite now) = true
    · rw [if_pos hexpired, if_pos hexpired]
      rfl
    rw [if_neg hexpired, if_neg hexpired]
    cases buildCanonicalRequest J req parsed.signedHeaders unsignedPayload
      ["X-Amz-Signature".toList] with
    | none => rfl
    | some canonicalRequest =>
      dsimp only [pure, Except.pure]
      rw [ite_not]
      rfl

/-- The signature of one chunk of a payload, from that of the chunk before it. -/
def computeChunkSignature (context : ChunkSigningContext) (previousSignature chunkHash : Text) :
    Text :=
  Codec.hex (C.hmacSha256 context.signingKey (Text.bytes (Text.join '\n'
    ["AWS4-HMAC-SHA256-PAYLOAD".toList, context.amzDate, context.credentialScope,
      previousSignature, Codec.hex (C.sha256 []), chunkHash])))

/-! ## Presigned URLs -/

/-- The endpoint a link points at: its origin, and its host as the header carries it. -/
structure Endpoint where
  origin : Text
  host : Text
  host_not_space : ∀ c ∈ host, Text.isSpace c = false

/-- `parameters[name] = value` on an object without such a parameter or with one. -/
def assign (parameters : List (Text × Text)) (name value : Text) : List (Text × Text) :=
  if name = "__proto__".toList then parameters
  else if parameters.any (·.1 = name) then
    parameters.map fun parameter => if parameter.1 = name then (name, value) else parameter
  else parameters ++ [(name, value)]

/-- What a link to an object is made from. -/
structure PresignRequest where
  method : Text
  endpoint : Endpoint
  bucket : Text
  key : Text
  expiresIn : ℕ
  accessKeyId : Text
  secretAccessKey : Text
  region : Text
  /-- Extra parameters; a value may be undefined. -/
  query : List (Text × Option Text) := []

namespace PresignRequest

variable (r : PresignRequest)

def canonicalUri : Text :=
  Text.join '/' ((Text.split '/' ('/' :: (r.bucket ++ '/' :: r.key))).map uriEncode)

def parameters (amzDate : Text) : List (Text × Text) :=
  let credentialScope := credentialScopeOf (amzDate.take 8) r.region "s3".toList
  (r.query.filterMap fun entry => entry.2.map fun value => (entry.1, value)).foldl
    (fun parameters entry => assign parameters entry.1 entry.2)
    [("X-Amz-Algorithm".toList, algorithm),
      ("X-Amz-Credential".toList, r.accessKeyId ++ '/' :: credentialScope),
      ("X-Amz-Date".toList, amzDate),
      ("X-Amz-Expires".toList, Nat.toDigits 10 r.expiresIn),
      ("X-Amz-SignedHeaders".toList, "host".toList)]

def canonicalQuery (amzDate : Text) : Text :=
  let encoded := (r.parameters amzDate).map fun parameter =>
    (uriEncode parameter.1, uriEncode parameter.2)
  Text.join '&' ((encoded.insertionSort compareEncoded).map fun pair => pair.1 ++ '=' :: pair.2)

end PresignRequest

/-- A link to an object that is good for a while. -/
def presign (now : ℤ) (r : PresignRequest) : Text :=
  let amzDate := toAmzDate now
  let canonicalRequest := Text.join '\n' [r.method.map Char.toUpper, r.canonicalUri,
    r.canonicalQuery amzDate, "host:".toList ++ r.endpoint.host ++ ['\n'], "host".toList,
    unsignedPayload]
  let signature := signatureOf C r.secretAccessKey (amzDate.take 8) r.region "s3".toList amzDate
    canonicalRequest
  r.endpoint.origin ++ r.canonicalUri ++ '?' :: (r.canonicalQuery amzDate ++
    "&X-Amz-Signature=".toList ++ signature)

end S3SignatureService
end SimpleStorage
