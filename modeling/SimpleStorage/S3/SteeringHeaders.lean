import SimpleStorage.S3.TimeWindows

/-!
# Headers that steer an operation

What a `PUT` does depends on headers of the `x-amz-` family: they turn it into a copy, name
its source and carry the metadata.  A signature covers the headers its own list names.

* `canonicalHeaders_inj`: the canonical headers are as many facts as there are names in that
  list, each the value of one header.
* `signatureOf_inj`: a signature determines the canonical request, hash functions permitting.
* `steering_signed_iff`: a request whose steering headers were changed is refused if and only
  if one of the changed ones is on the list.
-/

namespace SimpleStorage
namespace SteeringHeaders

open Express S3Types S3SignatureService S3RequestService SignedUrls PresignedLinks TimeWindows

variable {J : Strings} {C : Crypto} {D : Numbers}

/-- The headers the handlers act on. -/
def Steering (name : Text) : Prop :=
  name ∈ ["x-amz-copy-source".toList, "x-amz-copy-source-range".toList,
    "x-amz-metadata-directive".toList, "x-amz-acl".toList] ∨ "x-amz-meta-".toList <+: name

instance : DecidablePred Steering := fun name =>
  inferInstanceAs (Decidable (name ∈ ["x-amz-copy-source".toList,
    "x-amz-copy-source-range".toList, "x-amz-metadata-directive".toList, "x-amz-acl".toList] ∨
      "x-amz-meta-".toList <+: name))

/-- Two requests that differ in steering headers at the most. -/
structure SameButSteering (r r' : Request) : Prop where
  method : r'.method = r.method
  originalUrl : r'.originalUrl = r.originalUrl
  url : r'.url = r.url
  headers : r'.headers.filter (¬ Steering ·.1) = r.headers.filter (¬ Steering ·.1)

/-- The value of a header as a signature sees it. -/
def canonicalValue (J : Strings) (r : Request) (name : Text) : Text :=
  ((header J r name).getD []).trim.collapseSpaces

/-! ## The canonical headers -/

theorem newline_not_mem_collapseSpaces (s : Text) : '\n' ∉ s.collapseSpaces := by
  have hfrom : ∀ inside, '\n' ∉ Text.collapseFrom inside s := by
    induction s with
    | nil => exact fun _ => List.not_mem_nil
    | cons c s ih =>
      intro inside
      unfold Text.collapseFrom
      split_ifs with hspace hinside
      · exact ih true
      · rw [List.mem_cons, not_or]
        exact ⟨by decide, ih true⟩
      · rw [List.mem_cons, not_or]
        refine ⟨?_, ih false⟩
        rintro rfl
        exact hspace (by decide)
  exact hfrom false

/-- **The canonical headers are the values of the listed headers.** -/
theorem canonicalHeaders_inj {r r' : Request} {signedHeaders : List Text} :
    canonicalHeaders J r signedHeaders = canonicalHeaders J r' signedHeaders ↔
      ∀ name ∈ signedHeaders, canonicalValue J r name = canonicalValue J r' name := by
  have hcons : ∀ (r : Request) name names, canonicalHeaders J r (name :: names) =
      name ++ ':' :: (canonicalValue J r name ++ '\n' :: canonicalHeaders J r names) := by
    intro r name names
    unfold canonicalHeaders
    rw [List.flatMap_cons, List.append_assoc, List.cons_append, List.append_assoc,
      List.singleton_append]
    rfl
  induction signedHeaders with
  | nil => exact ⟨fun _ => nofun, fun _ => rfl⟩
  | cons name names ih =>
    rw [hcons, hcons, List.forall_mem_cons]
    constructor
    · intro h
      obtain ⟨hvalue, hrest⟩ := Text.append_cons_inj (newline_not_mem_collapseSpaces _)
        (newline_not_mem_collapseSpaces _) (List.cons.inj (List.append_cancel_left h)).2
      exact ⟨hvalue, ih.mp hrest⟩
    · intro h
      rw [h.1, ih.mpr h.2]

/-! ## The canonical request -/

/-- A header that is not a steering one has not changed. -/
theorem SameButSteering.header_eq {r r' : Request} (h : SameButSteering r r') {name : Text}
    (hname : ¬ Steering (J.toLowerCase name)) : header J r' name = header J r name := by
  have hfind : ∀ headers : List (Text × PoliciesTypes.OneOrMany),
      headers.find? (·.1 = J.toLowerCase name) =
        (headers.filter (¬ Steering ·.1)).find? (·.1 = J.toLowerCase name) := by
    intro headers
    rw [← List.head?_filter, ← List.head?_filter, List.filter_filter]
    congr 2
    funext entry
    by_cases hentry : entry.1 = J.toLowerCase name
    · simp only [hentry, hname, not_false_eq_true, decide_true, Bool.and_true]
    · simp only [hentry, decide_false, Bool.false_and]
  unfold header
  rw [hfind r'.headers, h.headers, ← hfind r.headers]

theorem SameButSteering.inheritedHeader_iff {r r' : Request} (h : SameButSteering r r') (name : Text) :
    InheritedHeader J r' name ↔ InheritedHeader J r name := by
  unfold InheritedHeader
  by_cases hname : J.toLowerCase name ∈ inheritedMembers
  · have hplain : ∀ member ∈ inheritedMembers, ¬ Steering member := by decide
    rw [h.header_eq (hplain _ hname)]
  · simp only [hname, and_false]

/-- What is signed before the headers and after them. -/
theorem buildCanonicalRequest_eq {r : Request} {uri query : Text} {excludeQueryKeys : List Text}
    (hu : canonicalUri (pathOf r.originalUrl) = some uri)
    (hq : canonicalQuery excludeQueryKeys (signedQueryStringOf r.originalUrl) = some query)
    {signedHeaders : List Text} (hown : ¬ ∃ name ∈ signedHeaders, InheritedHeader J r name)
    (payloadHash : Text) :
    buildCanonicalRequest J r signedHeaders payloadHash excludeQueryKeys =
      some (Text.join '\n' [r.method, uri, query, canonicalHeaders J r signedHeaders,
        Text.join ';' signedHeaders, payloadHash]) := by
  unfold pathOf at hu
  unfold signedQueryStringOf at hq
  unfold buildCanonicalRequest
  simp only [hu, hq, Option.bind_eq_bind, Option.bind_some, Option.pure_def, if_neg hown]

/-- **Two such requests have the same canonical request if they agree on the list.** -/
theorem canonicalRequest_eq_iff {r r' : Request} (h : SameButSteering r r')
    {signedHeaders excludeQueryKeys : List Text} {payloadHash canonicalRequest : Text}
    (hr : buildCanonicalRequest J r signedHeaders payloadHash excludeQueryKeys =
      some canonicalRequest) :
    ∃ canonicalRequest', buildCanonicalRequest J r' signedHeaders payloadHash excludeQueryKeys =
        some canonicalRequest' ∧
      (canonicalRequest' = canonicalRequest ↔
        ∀ name ∈ signedHeaders, canonicalValue J r' name = canonicalValue J r name) := by
  obtain ⟨uri, query, hu, hq, hown, -⟩ := buildCanonicalRequest_eq_some hr
  have hu' := hu
  have hq' := hq
  rw [← h.originalUrl] at hu' hq'
  have hown' : ¬ ∃ name ∈ signedHeaders, InheritedHeader J r' name := by
    simp only [h.inheritedHeader_iff]
    exact hown
  rw [buildCanonicalRequest_eq hu hq hown] at hr
  refine ⟨_, buildCanonicalRequest_eq hu' hq' hown' _, ?_⟩
  rw [← Option.some.inj hr, ← canonicalHeaders_inj, h.method]
  constructor
  · intro heq
    simp only [Text.join_cons (List.cons_ne_nil _ _), List.append_cancel_left_eq, List.cons.injEq,
      true_and, List.append_cancel_right_eq] at heq
    exact heq
  · intro heq
    rw [heq]

/-! ## The signature -/

/-- The hash functions tell two canonical requests apart, and the strings that are signed. -/
structure NoCollision (C : Crypto) (key : Bytes) (amzDate credentialScope : Text)
    (canonicalRequest canonicalRequest' : Text) : Prop where
  sha256 : C.sha256 canonicalRequest'.bytes = C.sha256 canonicalRequest.bytes →
    canonicalRequest'.bytes = canonicalRequest.bytes
  hmacSha256 :
    C.hmacSha256 key (buildStringToSign C amzDate credentialScope canonicalRequest').bytes =
      C.hmacSha256 key (buildStringToSign C amzDate credentialScope canonicalRequest).bytes →
    (buildStringToSign C amzDate credentialScope canonicalRequest').bytes =
      (buildStringToSign C amzDate credentialScope canonicalRequest).bytes

theorem bytes_injective : Function.Injective Text.bytes := Utf8.encode_injective

/-- **A signature determines the canonical request.** -/
theorem signatureOf_inj {secretAccessKey date region service amzDate canonicalRequest
    canonicalRequest' : Text}
    (h : NoCollision C (deriveSigningKey C secretAccessKey date region service) amzDate
      (credentialScopeOf date region service) canonicalRequest canonicalRequest') :
    signatureOf C secretAccessKey date region service amzDate canonicalRequest' =
        signatureOf C secretAccessKey date region service amzDate canonicalRequest ↔
      canonicalRequest' = canonicalRequest := by
  constructor
  · intro hsignature
    have hstring := bytes_injective (h.hmacSha256 (Codec.hex_injective hsignature))
    unfold buildStringToSign at hstring
    simp only [Text.join_cons (List.cons_ne_nil _ _), List.append_cancel_left_eq, List.cons.injEq,
      true_and] at hstring
    unfold Text.join at hstring
    rw [List.intercalate_singleton, List.intercalate_singleton] at hstring
    exact bytes_injective (h.sha256 (Codec.hex_injective hstring))
  · intro heq
    rw [heq]

/-! ## What is covered -/

/-- The canonical requests of two requests can be told apart by their signatures. -/
def ToldApart (J : Strings) (C : Crypto) (r r' : Request) (parsed : SignatureV4Header)
    (secretAccessKey amzDate payloadHash : Text) (excludeQueryKeys : List Text) : Prop :=
  ∀ canonicalRequest canonicalRequest',
    buildCanonicalRequest J r parsed.signedHeaders payloadHash excludeQueryKeys =
      some canonicalRequest →
    buildCanonicalRequest J r' parsed.signedHeaders payloadHash excludeQueryKeys =
      some canonicalRequest' →
    NoCollision C (deriveSigningKey C secretAccessKey parsed.date parsed.region parsed.service)
      amzDate (credentialScopeOf parsed.date parsed.region parsed.service) canonicalRequest
      canonicalRequest'

/-- A header on the list does not have the value it had. -/
def SignedHeaderChanged (J : Strings) (r r' : Request) (signedHeaders : List Text) : Prop :=
  ∃ name ∈ signedHeaders, canonicalValue J r' name ≠ canonicalValue J r name

/-- **The signature of one request is that of the other, unless a header on the list has
changed.** -/
theorem not_carriesSignature_iff {r r' : Request} {parsed : SignatureV4Header}
    {secretAccessKey amzDate payloadHash : Text} {excludeQueryKeys : List Text}
    (hr : CarriesSignature J C r parsed secretAccessKey amzDate payloadHash excludeQueryKeys)
    (h : SameButSteering r r')
    (hapart : ToldApart J C r r' parsed secretAccessKey amzDate payloadHash excludeQueryKeys) :
    ¬ CarriesSignature J C r' parsed secretAccessKey amzDate payloadHash excludeQueryKeys ↔
      SignedHeaderChanged J r r' parsed.signedHeaders := by
  obtain ⟨canonicalRequest, hcanonical, hsignature⟩ := hr
  obtain ⟨canonicalRequest', hcanonical', heq⟩ := canonicalRequest_eq_iff h hcanonical
  have hsame := (signatureOf_inj (hapart _ _ hcanonical hcanonical')).trans heq
  have hcarries : CarriesSignature J C r' parsed secretAccessKey amzDate payloadHash
      excludeQueryKeys ↔
      signatureOf C secretAccessKey parsed.date parsed.region parsed.service amzDate
          canonicalRequest' =
        signatureOf C secretAccessKey parsed.date parsed.region parsed.service amzDate
          canonicalRequest := by
    unfold CarriesSignature
    rw [hcanonical', ← hsignature]
    constructor
    · rintro ⟨_, hsome, hbytes⟩
      cases hsome
      exact bytes_injective hbytes
    · intro heq
      exact ⟨_, rfl, congrArg Text.bytes heq⟩
  unfold SignedHeaderChanged
  rw [hcarries, hsame]
  simp only [not_forall, exists_prop, Ne]

/-- **What a signature covers of the headers that steer an operation.**  When they are
changed in an accepted request, the request is refused if and only if one of those on its
list of signed headers has another value than before; in the header form as in a URL. -/
theorem steering_signed_iff (J : Strings) (C : Crypto) (D : Numbers)
    (hJ : ∀ name ∈ ["x-amz-date".toList, "date".toList], J.toLowerCase name = name) :
    (∀ now r r' parsed secretAccessKey payloadHash context,
      verify J C D now r parsed secretAccessKey payloadHash = .ok context →
      SameButSteering r r' →
      ToldApart J C r r' parsed secretAccessKey (amzDateOf J r) payloadHash [] →
      ((∀ context', verify J C D now r' parsed secretAccessKey payloadHash ≠ .ok context') ↔
        SignedHeaderChanged J r r' parsed.signedHeaders)) ∧
    ∀ now r r' parsed secretAccessKey,
      verifyPresigned J C D now r parsed secretAccessKey = .ok () →
      SameButSteering r r' →
      ToldApart J C r r' parsed.toSignatureV4Header secretAccessKey parsed.amzDate unsignedPayload
        [signatureParameter] →
      (verifyPresigned J C D now r' parsed secretAccessKey ≠ .ok () ↔
        SignedHeaderChanged J r r' parsed.signedHeaders) := by
  constructor
  · intro now r r' parsed secretAccessKey payloadHash context hr h hapart
    have hdate : amzDateOf J r' = amzDateOf J r := by
      have hplain : ∀ name ∈ ["x-amz-date".toList, "date".toList], ¬ Steering name := by decide
      have hheader : ∀ name ∈ ["x-amz-date".toList, "date".toList],
          header J r' name = header J r name := by
        intro name hname
        refine h.header_eq ?_
        rw [hJ name hname]
        exact hplain name hname
      unfold amzDateOf
      rw [hheader _ (by decide), hheader _ (by decide)]
    obtain ⟨hsigned, hrest⟩ := verify_eq_ok.mp ⟨context, hr⟩
    rw [← not_carriesSignature_iff hsigned h hapart, ← not_exists, verify_eq_ok, hdate,
      and_iff_left hrest]
  · intro now r r' parsed secretAccessKey hr h hapart
    obtain ⟨hsigned, hrest⟩ := verifyPresigned_eq_ok.mp hr
    have hiff := not_carriesSignature_iff hsigned h hapart
    rw [← hiff, Ne, verifyPresigned_eq_ok, and_iff_left hrest]
    rfl

section Example

/-- A link to upload a document with. -/
def uploadLink : PresignRequest := { sharedLink with method := "put".toList }

theorem plainNames_uploadLink : PlainNames uploadLink := plainNames_sharedLink

/-- The upload, turned into a copy of another document. -/
def copied : Request :=
  { linkRequest Crypto.sample 0 uploadLink with
    headers := [("host".toList, .one uploadLink.endpoint.host),
      ("x-amz-copy-source".toList, .one "/salaries/list.csv".toList)] }

theorem sent_copied : Sent Strings.ascii Crypto.sample 0 uploadLink copied := ⟨rfl, rfl, rfl, rfl⟩

theorem accepted_of_sent {req : Request} (h : Sent Strings.ascii Crypto.sample 0 uploadLink req) :
    verifyPresigned Strings.ascii Crypto.sample Numbers.sample 0 req
      (linkParsed Crypto.sample 0 uploadLink) uploadLink.secretAccessKey = .ok () := by
  rw [verifyPresigned_link h plainNames_uploadLink (by decide) (by decide) (by decide)]
  exact if_pos (by decide)

theorem sameButSteering_copied :
    SameButSteering (linkRequest Crypto.sample 0 uploadLink) copied := by
  refine ⟨rfl, rfl, rfl, ?_⟩
  unfold copied linkRequest
  rw [List.filter_cons_of_pos (by decide), List.filter_cons_of_neg (by decide),
    List.filter_cons_of_pos (by decide)]

theorem toldApart_copied :
    ToldApart Strings.ascii Crypto.sample (linkRequest Crypto.sample 0 uploadLink) copied
      (linkParsed Crypto.sample 0 uploadLink).toSignatureV4Header uploadLink.secretAccessKey
      (linkParsed Crypto.sample 0 uploadLink).amzDate unsignedPayload [signatureParameter] := by
  intro canonicalRequest canonicalRequest' h h'
  rw [show (linkParsed Crypto.sample 0 uploadLink).signedHeaders = ["host".toList] from rfl] at h h'
  rw [buildCanonicalRequest_link (sent_linkRequest _ _ _) plainNames_uploadLink] at h
  rw [buildCanonicalRequest_link sent_copied plainNames_uploadLink] at h'
  obtain rfl := Option.some.inj (h.symm.trans h')
  exact ⟨fun _ => rfl, fun _ => rfl⟩

/-- The source of a copy is not on the list of the link, so the copy is not refused. -/
theorem steering_signed_iff_copied :
    ¬ verifyPresigned Strings.ascii Crypto.sample Numbers.sample 0 copied
      (linkParsed Crypto.sample 0 uploadLink) uploadLink.secretAccessKey ≠ .ok () := by
  rw [(steering_signed_iff Strings.ascii Crypto.sample Numbers.sample (by decide)).2 0
    (linkRequest Crypto.sample 0 uploadLink) copied _ _ (accepted_of_sent (sent_linkRequest _ _ _))
    sameButSteering_copied toldApart_copied]
  rintro ⟨name, hname, hvalue⟩
  rw [List.mem_singleton.mp hname] at hvalue
  exact hvalue rfl

/-- **The link to upload a document with copies another one.** -/
theorem uploadLink_copies :
    ¬ ∀ (J : Strings) (C : Crypto) (D : Numbers) (malformed : Text → Text) now r r' parsed
      secretAccessKey, parseQuerySignature D malformed r = .ok (some parsed) →
      verifyPresigned J C D now r parsed secretAccessKey = .ok () →
      SameButSteering r r' →
      (∃ name, Steering name ∧ canonicalValue J r' name ≠ canonicalValue J r name) →
      ToldApart J C r r' parsed.toSignatureV4Header secretAccessKey parsed.amzDate unsignedPayload
        [signatureParameter] →
      verifyPresigned J C D now r' parsed secretAccessKey ≠ .ok () := by
  intro h
  have hparse : parseQuerySignature Numbers.sample id (linkRequest Crypto.sample 0 uploadLink) =
      .ok (some (linkParsed Crypto.sample 0 uploadLink)) := by
    rw [parseQuerySignature_link (sent_linkRequest _ _ _) plainNames_uploadLink (by decide)
      (by decide) (by decide)]
    exact if_neg (by decide)
  exact h Strings.ascii Crypto.sample Numbers.sample id 0 _ copied _ uploadLink.secretAccessKey hparse
    (accepted_of_sent (sent_linkRequest _ _ _)) sameButSteering_copied
    ⟨"x-amz-copy-source".toList, by decide, by decide⟩ toldApart_copied (accepted_of_sent sent_copied)

end Example

end SteeringHeaders
end SimpleStorage
