import Mathlib.Data.Prod.Lex
import SimpleStorage.S3.AmzDates
import SimpleStorage.S3.SignedUrls

/-!
# Links that are signed by the service

`presign` writes a canonical request down from its parameters; `verifyPresigned` reads one
back from the URL, decoding, sorting and encoding again.

* `decodedPairs_join`: a canonical query is read back pair by pair.
* `parseQuerySignature_link`: what is found in the query of a link.
* `verifyPresigned_link`: the two canonical requests are the same, so the link is accepted
  until it expires.
* `presign_accepted`: the main result, for a region and an access key that can be told from
  each other in a credential.
-/

namespace SimpleStorage
namespace PresignedLinks

open Express S3Types S3SignatureService S3RequestService SignedUrls

/-! ## The parameters of a link -/

section Assign

variable (parameters : List (Text × Text)) (name value : Text)

/-- The names after an assignment. -/
theorem mem_names_assign {x : Text} (h : x ∈ (assign parameters name value).map (·.1)) :
    x ∈ parameters.map (·.1) ∨ x = name := by
  unfold assign at h
  split_ifs at h with hproto hany
  · exact .inl h
  · rw [List.map_map] at h
    obtain ⟨parameter, hparameter, rfl⟩ := List.mem_map.mp h
    rw [Function.comp_apply]
    split_ifs with hname
    · exact .inr rfl
    · exact .inl (List.mem_map_of_mem hparameter)
  · rw [List.map_append, List.mem_append] at h
    exact h.imp_right List.mem_singleton.mp

/-- Assignments keep the names apart. -/
theorem nodup_assign (h : (parameters.map (·.1)).Nodup) :
    ((assign parameters name value).map (·.1)).Nodup := by
  unfold assign
  split_ifs with hproto hany
  · exact h
  · have hnames : (parameters.map fun parameter =>
        if parameter.1 = name then (name, value) else parameter).map (·.1) = parameters.map (·.1) := by
      rw [List.map_map]
      refine List.map_congr_left fun parameter _ => ?_
      rw [Function.comp_apply]
      split_ifs with hname
      · exact hname.symm
      · rfl
    rw [hnames]
    exact h
  · rw [List.map_append, List.nodup_append]
    refine ⟨h, List.nodup_singleton _, ?_⟩
    rintro x hx y hy rfl
    obtain ⟨parameter, hparameter, rfl⟩ := List.mem_map.mp hx
    rw [List.map_singleton, List.mem_singleton] at hy
    exact hany (List.any_eq_true.mpr ⟨parameter, hparameter, decide_eq_true hy⟩)

/-- An assignment leaves the other parameters alone. -/
theorem find_assign {x : Text} (hx : x ≠ name) :
    (assign parameters name value).find? (·.1 = x) = parameters.find? (·.1 = x) := by
  unfold assign
  split_ifs with hproto hany
  · rfl
  · have hname : ∀ parameter : Text × Text,
        ((if parameter.1 = name then (name, value) else parameter).1 = x) = (parameter.1 = x) := by
      intro parameter
      split_ifs with h
      · rw [h]
      · rfl
    rw [List.find?_map]
    simp only [Function.comp_def, hname]
    cases hfind : parameters.find? (·.1 = x) with
    | none => rfl
    | some parameter =>
      have hparameter : parameter.1 = x := of_decide_eq_true (List.find?_some hfind :)
      rw [Option.map_some, if_neg]
      rw [hparameter]
      exact hx
  · rw [List.find?_append, List.find?_cons_of_neg, List.find?_nil, Option.or_none]
    rw [decide_eq_true_eq]
    exact hx.symm

end Assign

/-- The parameters every link has. -/
def signingParameters (r : PresignRequest) (amzDate : Text) : List (Text × Text) :=
  [("X-Amz-Algorithm".toList, algorithm),
    ("X-Amz-Credential".toList, r.accessKeyId ++ '/' :: credentialScopeOf (amzDate.take 8) r.region
      "s3".toList),
    ("X-Amz-Date".toList, amzDate), ("X-Amz-Expires".toList, Nat.toDigits 10 r.expiresIn),
    ("X-Amz-SignedHeaders".toList, "host".toList)]

/-- The names a link reserves for itself. -/
def Reserved (name : Text) : Prop := "X-Amz-".toList <+: name

/-- No extra parameter has a reserved name. -/
def PlainNames (r : PresignRequest) : Prop := ∀ entry ∈ r.query, ¬ Reserved entry.1

section Parameters

variable {r : PresignRequest} {amzDate : Text}

theorem parameters_induction {motive : List (Text × Text) → Prop}
    (signing : motive (signingParameters r amzDate))
    (assigned : ∀ parameters, ∀ entry ∈ r.query, ∀ value, motive parameters →
      motive (assign parameters entry.1 value)) : motive (r.parameters amzDate) := by
  unfold PresignRequest.parameters
  dsimp only
  have hentries : ∀ entry ∈ r.query.filterMap fun entry => entry.2.map fun value => (entry.1, value),
      ∃ e ∈ r.query, entry.1 = e.1 := by
    intro entry hentry
    obtain ⟨e, he, hsome⟩ := List.mem_filterMap.mp hentry
    obtain ⟨value, -, rfl⟩ := Option.map_eq_some_iff.mp hsome
    exact ⟨e, he, rfl⟩
  generalize (r.query.filterMap fun entry => entry.2.map fun value => (entry.1, value)) = entries
    at hentries
  have hfold : ∀ parameters, motive parameters → motive (entries.foldl
      (fun parameters entry => assign parameters entry.1 entry.2) parameters) := by
    induction entries with
    | nil => exact fun _ h => h
    | cons entry entries ih =>
      intro parameters h
      obtain ⟨e, he, hname⟩ := hentries entry List.mem_cons_self
      refine ih (fun entry' h' => hentries entry' (List.mem_cons_of_mem _ h')) _ ?_
      beta_reduce
      rw [hname]
      exact assigned parameters e he _ h
  exact hfold _ signing

theorem nodup_parameters : ((r.parameters amzDate).map (·.1)).Nodup := by
  refine parameters_induction (motive := fun parameters => (parameters.map (·.1)).Nodup) ?_ ?_
  · have hnames : (signingParameters r amzDate).map (·.1) =
        ["X-Amz-Algorithm".toList, "X-Amz-Credential".toList, "X-Amz-Date".toList,
          "X-Amz-Expires".toList, "X-Amz-SignedHeaders".toList] := rfl
    rw [hnames]
    decide
  · intro parameters entry _ value h
    exact nodup_assign _ _ _ h

/-- A reserved parameter is the link's own. -/
theorem find_parameters (h : PlainNames r) {name : Text} (hname : Reserved name) :
    (r.parameters amzDate).find? (·.1 = name) =
      (signingParameters r amzDate).find? (·.1 = name) := by
  refine parameters_induction (motive := fun parameters => parameters.find? (·.1 = name) =
    (signingParameters r amzDate).find? (·.1 = name)) rfl ?_
  intro parameters entry hentry value ih
  have hne : name ≠ entry.1 := by
    rintro rfl
    exact h entry hentry hname
  rw [find_assign _ _ _ hne, ih]

/-- The signature is not among the parameters it signs. -/
theorem signature_not_mem (h : PlainNames r) :
    signatureParameter ∉ (r.parameters amzDate).map (·.1) := by
  intro hmem
  obtain ⟨parameter, hparameter, hname⟩ := List.mem_map.mp hmem
  have hnone : (r.parameters amzDate).find? (·.1 = signatureParameter) = none := by
    rw [find_parameters h (by unfold Reserved signatureParameter; decide)]
    rfl
  exact List.find?_eq_none.mp hnone parameter hparameter (decide_eq_true hname)

end Parameters

/-! ## Reading a canonical query -/

theorem decodeURIComponent_uriEncode (s : Text) : decodeURIComponent (uriEncode s) = some s := by
  rw [uriEncode_eq_escape]
  exact PercentCoding.unescape_escape (by decide) s

theorem decodedPair_canonicalPair (pair : Text × Text) :
    decodedPair (canonicalPair pair) = some pair := by
  unfold decodedPair canonicalPair
  rw [nameAndValue_append (not_mem_uriEncode (by decide) pair.1)]
  dsimp only
  rw [decodeURIComponent_uriEncode, decodeURIComponent_uriEncode]
  rfl

/-- **A canonical query is read back pair by pair.** -/
theorem decodedPairs_join (pairs : List (Text × Text)) :
    decodedPairs (Text.join '&' (pairs.map canonicalPair)) = some pairs := by
  rcases pairs with _ | ⟨pair, pairs⟩
  · rfl
  have hsep : ∀ s ∈ (pair :: pairs).map canonicalPair, '&' ∉ s := by
    intro s hs
    obtain ⟨pair', -, rfl⟩ := List.mem_map.mp hs
    exact not_mem_canonicalPair pair'
  have hsplit : Text.split '&' (Text.join '&' ((pair :: pairs).map canonicalPair)) =
      (pair :: pairs).map canonicalPair := List.splitOn_intercalate '&' hsep (List.cons_ne_nil _ _)
  have hfilter : ((pair :: pairs).map canonicalPair).filter (· ≠ []) =
      (pair :: pairs).map canonicalPair := by
    refine List.filter_eq_self.mpr fun s hs => ?_
    obtain ⟨pair', -, rfl⟩ := List.mem_map.mp hs
    exact decide_eq_true (canonicalPair_ne_nil pair')
  unfold decodedPairs
  rw [hsplit, hfilter, mapM_eq_some_iff, List.map_map]
  refine List.map_congr_left fun pair' _ => ?_
  exact decodedPair_canonicalPair pair'

/-! ## The order of the pairs -/

/-- Encoded pairs are in lexicographic order. -/
theorem compareEncoded_iff (left right : Text × Text) :
    compareEncoded left right ↔ toLex left ≤ toLex right := by
  unfold compareEncoded
  rw [Prod.Lex.toLex_le_toLex]
  split_ifs with hname
  · constructor
    · exact .inl
    · rintro (h | ⟨h, -⟩)
      · exact h
      · exact absurd h hname
  · rw [not_not] at hname
    rw [hname, le_iff_eq_or_lt]
    constructor
    · exact fun h => .inr ⟨rfl, h⟩
    · rintro (h | ⟨-, h⟩)
      · exact absurd h (lt_irrefl _)
      · exact h

instance : Std.Total canonicalOrder where
  total left right := by
    unfold canonicalOrder
    rw [compareEncoded_iff, compareEncoded_iff]
    exact le_total _ _

instance : IsTrans (Text × Text) canonicalOrder where
  trans first second third h h' := by
    unfold canonicalOrder at *
    rw [compareEncoded_iff] at *
    exact le_trans h h'

/-! ## The URL of a link -/

/-- The segments of the path of a link. -/
def segments (r : PresignRequest) : List Text := Text.split '/' ('/' :: (r.bucket ++ '/' :: r.key))

theorem segments_eq (r : PresignRequest) :
    segments r = [] :: Text.split '/' (r.bucket ++ '/' :: r.key) := by
  unfold segments
  have hsplit := @Text.split_append_cons '/' [] (r.bucket ++ '/' :: r.key)
  rw [List.nil_append] at hsplit
  rw [hsplit]
  rfl

/-- The path of a link is read segment by segment. -/
theorem split_canonicalUri (r : PresignRequest) :
    Text.split '/' r.canonicalUri = (segments r).map uriEncode := by
  refine List.splitOn_intercalate '/' (fun s hs => ?_) ?_
  · obtain ⟨segment, -, rfl⟩ := List.mem_map.mp hs
    exact not_mem_uriEncode (by decide) segment
  · rw [← segments, segments_eq]
    exact List.cons_ne_nil _ _

theorem decode_segments (r : PresignRequest) :
    (Text.split '/' r.canonicalUri).mapM decodeURIComponent = some (segments r) := by
  rw [split_canonicalUri, mapM_eq_some_iff, List.map_map]
  exact List.map_congr_left fun segment _ => decodeURIComponent_uriEncode segment

/-- **The path of a link is its own canonical path.** -/
theorem canonicalUri_canonicalUri (r : PresignRequest) :
    canonicalUri r.canonicalUri = some r.canonicalUri := by
  have hrooted : rooted (segments r) = segments r := by
    unfold rooted
    rw [if_neg]
    rw [segments_eq]
    intro h
    exact Text.split_ne_nil _ _ (List.cons.inj h).2
  rw [canonicalUri_eq (decode_segments r), hrooted]
  rfl

theorem question_not_mem_canonicalUri (r : PresignRequest) : '?' ∉ r.canonicalUri := by
  intro hmem
  rcases Text.mem_of_mem_join hmem with hsep | ⟨s, hs, hc⟩
  · cases hsep
  · obtain ⟨segment, -, rfl⟩ := List.mem_map.mp hs
    exact not_mem_uriEncode (by decide) segment hc

/-- No question mark and no plus sign in a canonical query. -/
theorem not_mem_canonicalQuery {c : Char} (h : c ∈ "?+".toList) (pairs : List (Text × Text)) :
    c ∉ Text.join '&' (pairs.map canonicalPair) := by
  have hne : ∀ c ∈ "?+".toList, c ≠ '&' ∧ c ≠ '=' ∧ c ∈ "/?&=+\n".toList :=
    Text.forall_mem_of_all (by decide)
  obtain ⟨hand, heq, hsep⟩ := hne c h
  intro hmem
  rcases Text.mem_of_mem_join hmem with hc | ⟨s, hs, hc⟩
  · exact hand hc
  · obtain ⟨pair, -, rfl⟩ := List.mem_map.mp hs
    simp only [canonicalPair, List.mem_append, List.mem_cons] at hc
    rcases hc with hc | hc | hc
    · exact not_mem_uriEncode hsep _ hc
    · exact heq hc
    · exact not_mem_uriEncode hsep _ hc

section Link

variable (C : Crypto) (now : ℤ) (r : PresignRequest)

/-- The pairs a link is signed with. -/
def signed : List (Text × Text) := (r.parameters (toAmzDate now)).insertionSort canonicalOrder

/-- What is signed. -/
def linkCanonicalRequest : Text :=
  Text.join '\n' [r.method.map Char.toUpper, r.canonicalUri,
    Text.join '&' ((signed now r).map canonicalPair), "host:".toList ++ r.endpoint.host ++ ['\n'],
    "host".toList, unsignedPayload]

def linkSignature : Text :=
  signatureOf C r.secretAccessKey ((toAmzDate now).take 8) r.region "s3".toList (toAmzDate now)
    (linkCanonicalRequest now r)

/-- The query string of a link. -/
def linkQuery : Text :=
  Text.join '&' ((signed now r ++ [(signatureParameter, linkSignature C now r)]).map canonicalPair)

variable {C now r}

/-- What the query of a link says under one of its own names. -/
theorem find_signed (h : PlainNames r) {name : Text} (hname : Reserved name) :
    (signed now r).find? (·.1 = name) =
      (signingParameters r (toAmzDate now)).find? (·.1 = name) := by
  have hperm : (r.parameters (toAmzDate now)).Perm (signed now r) :=
    (List.perm_insertionSort _ _).symm
  rw [← find_of_perm hperm nodup_parameters, find_parameters h hname]

theorem signed_ne_nil (h : PlainNames r) : signed now r ≠ [] := by
  intro hnil
  have hreserved : Reserved "X-Amz-Algorithm".toList := by
    unfold Reserved
    decide
  have hfind : (signed now r).find? (·.1 = "X-Amz-Algorithm".toList) =
      (signingParameters r (toAmzDate now)).find? (·.1 = "X-Amz-Algorithm".toList) :=
    find_signed h hreserved
  rw [hnil] at hfind
  cases hfind

theorem uriEncode_linkSignature : uriEncode (linkSignature C now r) = linkSignature C now r := by
  have hdigits : ∀ c ∈ "0123456789abcdef".toList, unreserved c = true :=
    Text.forall_mem_of_all (by decide)
  rw [uriEncode_eq_escape]
  exact PercentCoding.escape_of_all fun c hc => hdigits c (Codec.mem_hex hc)

/-- **A link is its path and the pairs it is signed with, the signature last.** -/
theorem presign_eq (h : PlainNames r) :
    presign C now r = r.endpoint.origin ++ (r.canonicalUri ++ '?' :: linkQuery C now r) := by
  have hquery : r.canonicalQuery (toAmzDate now) = Text.join '&' ((signed now r).map canonicalPair) := by
    unfold PresignRequest.canonicalQuery
    dsimp only
    rw [map_sorted_encoded]
    rfl
  have hpair : canonicalPair (signatureParameter, linkSignature C now r) =
      "X-Amz-Signature=".toList ++ linkSignature C now r := by
    unfold canonicalPair
    dsimp only
    rw [uriEncode_linkSignature]
    rfl
  unfold linkQuery
  rw [List.map_append, List.map_singleton, hpair,
    Text.join_append_singleton (mt List.map_eq_nil_iff.mp (signed_ne_nil h)), ← hquery]
  unfold presign linkSignature linkCanonicalRequest
  dsimp only
  rw [← hquery, List.append_assoc, List.append_assoc, List.append_assoc]
  rfl

end Link

/-! ## The request a link stands for -/

/-- A link sent unchanged, with the method it was made for, to the endpoint it points at. -/
structure Sent (J : Strings) (C : Crypto) (now : ℤ) (r : PresignRequest) (req : Request) :
    Prop where
  method : req.method = r.method.map Char.toUpper
  originalUrl : req.originalUrl = (presign C now r).drop r.endpoint.origin.length
  url : req.url = req.originalUrl
  host : header J req "host".toList = some r.endpoint.host

section Sent

variable {J : Strings} {C : Crypto} {D : Numbers} {malformed : Text → Text} {now : ℤ}
  {r : PresignRequest} {req : Request}

theorem Sent.originalUrl_eq (h : Sent J C now r req) (hr : PlainNames r) :
    req.originalUrl = r.canonicalUri ++ '?' :: linkQuery C now r := by
  rw [h.originalUrl, presign_eq hr, List.drop_left]

theorem Sent.split_originalUrl (h : Sent J C now r req) (hr : PlainNames r) :
    Text.split '?' req.originalUrl = [r.canonicalUri, linkQuery C now r] := by
  have hquery : '?' ∉ linkQuery C now r := not_mem_canonicalQuery (by decide) _
  rw [h.originalUrl_eq hr, Text.split_append_cons,
    Text.split_of_not_mem (question_not_mem_canonicalUri r), Text.split_of_not_mem hquery,
    List.singleton_append]

/-- **The path of a link names its bucket and its key.** -/
theorem bucketAndKey_link (h : Sent J C now r req) (hr : PlainNames r) (hbucket : '/' ∉ r.bucket) :
    bucketAndKey req = (r.bucket, r.key) := by
  have hpath : pathOf req.url = r.canonicalUri := by
    unfold pathOf
    rw [h.url, h.split_originalUrl hr, List.headD_cons]
  have hsegments : segments r = [] :: r.bucket :: Text.split '/' r.key := by
    rw [segments_eq, Text.split_append_cons, Text.split_of_not_mem hbucket, List.singleton_append]
  have hdecoded : (Text.split '/' (pathOf req.url)).mapM decodeURIComponent = some (segments r) := by
    rw [hpath, decode_segments]
  rw [bucketAndKey_eq hdecoded, hsegments]
  unfold ofSegments
  rw [List.headD_cons, if_pos rfl, List.tail_cons]
  dsimp only
  rw [List.headD_cons, List.tail_cons, Text.join_split]

/-- The signature is left out of what it signs, and the rest is in order already. -/
theorem canonicalQuery_linkQuery (hr : PlainNames r) :
    canonicalQuery [signatureParameter] (linkQuery C now r) =
      some (Text.join '&' ((signed now r).map canonicalPair)) := by
  have hkeep : signedPairs [signatureParameter]
      (signed now r ++ [(signatureParameter, linkSignature C now r)]) = signed now r := by
    have hname : uriEncode signatureParameter = signatureParameter := by decide
    unfold signedPairs
    rw [List.filter_append, List.filter_eq_self.mpr, List.filter_singleton]
    · simp only [hname, List.mem_singleton, not_true_eq_false, decide_false, cond_false,
        List.append_nil]
    · intro pair hpair
      rw [decide_eq_true_eq, List.mem_singleton]
      intro heq
      have hmem : pair ∈ r.parameters (toAmzDate now) := (List.mem_insertionSort _).mp hpair
      refine signature_not_mem hr (List.mem_map.mpr ⟨pair, hmem, ?_⟩)
      exact uriEncode_injective (heq.trans hname.symm)
  unfold linkQuery
  have hsorted : (signed now r).Pairwise canonicalOrder := List.pairwise_insertionSort _ _
  rw [canonicalQuery_eq (decodedPairs_join _), hkeep, hsorted.insertionSort_eq]

/-- **The canonical request is read back from the URL.** -/
theorem buildCanonicalRequest_link (h : Sent J C now r req) (hr : PlainNames r) :
    buildCanonicalRequest J req ["host".toList] unsignedPayload [signatureParameter] =
      some (linkCanonicalRequest now r) := by
  have hheaders : canonicalHeaders J req ["host".toList] =
      "host:".toList ++ r.endpoint.host ++ ['\n'] := by
    unfold canonicalHeaders
    rw [List.flatMap_singleton, h.host, Option.getD_some,
      Text.trim_of_not_space r.endpoint.host_not_space,
      Text.collapseSpaces_of_not_space r.endpoint.host_not_space, List.append_assoc]
    rfl
  have hown : ¬ ∃ name ∈ ["host".toList], InheritedHeader J req name := by
    rintro ⟨name, hname, hnone, -⟩
    rw [List.mem_singleton.mp hname, h.host] at hnone
    cases hnone
  unfold buildCanonicalRequest linkCanonicalRequest
  dsimp only
  rw [h.split_originalUrl hr, List.headD_cons, canonicalUri_canonicalUri, Option.bind_eq_bind,
    Option.bind_some, List.getElem?_cons_succ, List.getElem?_cons_zero, Option.getD_some,
    canonicalQuery_linkQuery hr, Option.bind_some, if_neg hown, hheaders, h.method]
  rfl

/-- What a link carries as its signature. -/
def linkParsed (C : Crypto) (now : ℤ) (r : PresignRequest) : SignatureV4Query where
  accessKeyId := r.accessKeyId
  date := (toAmzDate now).take 8
  region := r.region
  service := "s3".toList
  signedHeaders := ["host".toList]
  signature := linkSignature C now r
  amzDate := toAmzDate now
  expires := .finite r.expiresIn

theorem slash_not_mem_toAmzDate (time : ℤ) : '/' ∉ toAmzDate time := by
  intro h
  rcases mem_toAmzDate h with hdigit | hletter
  · exact absurd hdigit (by decide)
  · exact absurd hletter (by decide)

/-- What a query says under a name. -/
def valueOf (pairs : List (Text × Text)) (name : Text) : Option Text :=
  (pairs.find? (·.1 = name)).map (·.2)

/-- Looking up one of a link's own names. -/
theorem valueOf_link (hr : PlainNames r) {name : Text} (hname : Reserved name) :
    valueOf (signed now r ++ [(signatureParameter, linkSignature C now r)]) name =
      valueOf (signingParameters r (toAmzDate now) ++ [(signatureParameter, linkSignature C now r)])
        name := by
  unfold valueOf
  rw [List.find?_append, List.find?_append, find_signed hr hname]

theorem linkSignature_ne_nil : linkSignature C now r ≠ [] := by
  refine List.ne_nil_of_length_pos ?_
  unfold linkSignature signatureOf
  rw [Codec.length_hex, C.length_hmacSha256]
  omega

/-- **What is found in the query of a link.** -/
theorem parseQuerySignature_link (h : Sent J C now r req) (hr : PlainNames r)
    (hkey : '/' ∉ r.accessKeyId) (hregion : '/' ∉ r.region) (hexpires : r.expiresIn < 2 ^ 53) :
    parseQuerySignature D malformed req =
      if r.accessKeyId = [] ∨ r.region = [] then .error .malformedAuthorization
      else .ok (some (linkParsed C now r)) := by
  have hparameters : parameters malformed (((Text.split '?' req.originalUrl)[1]?).getD []) =
      signed now r ++ [(signatureParameter, linkSignature C now r)] := by
    rw [h.split_originalUrl hr]
    exact parameters_eq (not_mem_canonicalQuery (by decide) _) (decodedPairs_join _)
  have hcredential : Text.split '/' (r.accessKeyId ++ '/' ::
      credentialScopeOf ((toAmzDate now).take 8) r.region "s3".toList) =
      [r.accessKeyId, (toAmzDate now).take 8, r.region, "s3".toList, "aws4_request".toList] := by
    have hdate : '/' ∉ (toAmzDate now).take 8 := fun hmem =>
      slash_not_mem_toAmzDate now (List.mem_of_mem_take hmem)
    rw [Text.split_append_cons, Text.split_of_not_mem hkey, List.singleton_append]
    congr 1
    refine List.splitOn_intercalate '/' (fun s hs => ?_) (List.cons_ne_nil _ _)
    simp only [List.mem_cons, List.not_mem_nil, or_false] at hs
    rcases hs with rfl | rfl | rfl | rfl
    · exact hdate
    · exact hregion
    · decide
    · decide
  have hvalue : ∀ name, "X-Amz-".toList <+: name →
      ((signed now r ++ [(signatureParameter, linkSignature C now r)]).find? (·.1 = name)).map (·.2) =
        valueOf (signingParameters r (toAmzDate now) ++
          [(signatureParameter, linkSignature C now r)]) name := fun _ hname => valueOf_link hr hname
  have halgorithm := (hvalue "X-Amz-Algorithm".toList (by decide)).trans
    (show _ = some algorithm from rfl)
  have hcred := (hvalue "X-Amz-Credential".toList (by decide)).trans
    (show _ = some (r.accessKeyId ++ '/' ::
      credentialScopeOf ((toAmzDate now).take 8) r.region "s3".toList) from rfl)
  have hheaders := (hvalue "X-Amz-SignedHeaders".toList (by decide)).trans
    (show _ = some "host".toList from rfl)
  have hsignature := (hvalue "X-Amz-Signature".toList (by decide)).trans
    (show _ = some (linkSignature C now r) from rfl)
  have hdate := (hvalue "X-Amz-Date".toList (by decide)).trans
    (show _ = some (toAmzDate now) from rfl)
  have hlifetime := (hvalue "X-Amz-Expires".toList (by decide)).trans
    (show _ = some (Nat.toDigits 10 r.expiresIn) from rfl)
  have hdate' : (toAmzDate now).take 8 ≠ [] := by
    rw [Ne, List.take_eq_nil_iff, not_or]
    exact ⟨by decide, toAmzDate_ne_nil now⟩
  have hhost : (Text.split ';' "host".toList).filter (· ≠ []) = ["host".toList] := by decide
  unfold parseQuerySignature
  simp only [hparameters, halgorithm, hcred, hheaders, hsignature, hdate, hlifetime,
    Option.getD_some, hcredential, hhost, D.number_toDigits _ hexpires]
  rw [if_neg (not_not_intro rfl)]
  by_cases hempty : r.accessKeyId = [] ∨ r.region = []
  · rw [if_pos hempty, if_pos]
    exact hempty.imp id fun h => .inr (.inl h)
  · rw [not_or] at hempty
    rw [if_neg (not_or.mpr hempty), if_neg]
    · rfl
    · simp only [not_or]
      exact ⟨hempty.1, hdate', hempty.2, List.cons_ne_nil _ _, linkSignature_ne_nil, toAmzDate_ne_nil now,
        List.cons_ne_nil _ _⟩

/-- **A link is accepted until it expires.** -/
theorem verifyPresigned_link (h : Sent J C now r req) (hr : PlainNames r) (hnow : -59011459200000 ≤ now)
    (hnow' : now < 253402300800000) (hexpires : 1 ≤ r.expiresIn ∧ r.expiresIn ≤ 7 * 24 * 3600)
    (later : ℤ) :
    verifyPresigned J C D later req (linkParsed C now r) r.secretAccessKey =
      if later ≤ now / 1000 * 1000 + r.expiresIn * 1000 then .ok () else .error .expiredSignature := by
  have hissued : parseAmzDate D (linkParsed C now r).amzDate = .ok (now / 1000 * 1000) :=
    parseAmzDate_toAmzDate D hnow hnow'
  have hlifetime : ((linkParsed C now r).expires.le (.finite 0) ||
      (Number.finite (7 * 24 * 3600)).lt (linkParsed C now r).expires) = false := by
    have h0 : ¬ (r.expiresIn : ℚ) ≤ 0 := by
      rw [not_le]
      exact_mod_cast hexpires.1
    have h7 : ¬ (7 * 24 * 3600 : ℚ) < r.expiresIn := by
      rw [not_lt]
      exact_mod_cast hexpires.2
    unfold linkParsed Number.le Number.lt
    dsimp only
    rw [decide_eq_false h0, decide_eq_false h7]
    rfl
  have hexpired : ((linkParsed C now r).expires.affine (now / 1000 * 1000 : ℤ) 1000).lt
      (.finite later) = decide (¬ later ≤ now / 1000 * 1000 + r.expiresIn * 1000) := by
    unfold linkParsed Number.affine Number.lt
    dsimp only
    refine decide_eq_decide.mpr ?_
    rw [not_le, mul_comm (1000 : ℚ)]
    exact_mod_cast Iff.rfl
  have hrequest : buildCanonicalRequest J req (linkParsed C now r).signedHeaders unsignedPayload
      ["X-Amz-Signature".toList] = some (linkCanonicalRequest now r) :=
    buildCanonicalRequest_link h hr
  have hsignature : Text.bytes (signatureOf C r.secretAccessKey (linkParsed C now r).date
      (linkParsed C now r).region (linkParsed C now r).service (linkParsed C now r).amzDate
      (linkCanonicalRequest now r)) = (linkParsed C now r).signature.bytes := rfl
  rw [verifyPresigned_eq, hissued]
  dsimp only
  rw [hlifetime, if_neg Bool.false_ne_true, hexpired, hrequest]
  dsimp only
  rw [if_pos hsignature]
  by_cases hlater : later ≤ now / 1000 * 1000 + r.expiresIn * 1000
  · rw [if_pos hlater, if_neg]
    simpa using hlater
  · rw [if_neg hlater, if_pos]
    simpa using hlater

end Sent

/-! ## Links are accepted -/

/-- What a link is good for: the service reads back what it signed, accepts it from its
issue until it expires, and finds the object. -/
def Accepted (J : Strings) (C : Crypto) (D : Numbers) (malformed : Text → Text) (now : ℤ)
    (r : PresignRequest) : Prop :=
  ∀ req, Sent J C now r req →
    ∃ parsed, parseQuerySignature D malformed req = .ok (some parsed) ∧
      parsed.accessKeyId = r.accessKeyId ∧ parsed.amzDate = toAmzDate now ∧
      parsed.date = (toAmzDate now).take 8 ∧ parsed.region = r.region ∧
      parsed.expires = .finite r.expiresIn ∧
      (∃ issuedAt, parseAmzDate D parsed.amzDate = .ok issuedAt ∧ issuedAt = now / 1000 * 1000 ∧
        (∀ later, now ≤ later → later ≤ issuedAt + r.expiresIn * 1000 →
          verifyPresigned J C D later req parsed r.secretAccessKey = .ok ()) ∧
        ∀ later, issuedAt + r.expiresIn * 1000 < later →
          verifyPresigned J C D later req parsed r.secretAccessKey = .error .expiredSignature) ∧
      bucketAndKey req = (r.bucket, r.key)

/-- **Every link the service signs is accepted**, for an access key and a region that are
there and can be told apart in the credential, from the year 100 to the year 9999. -/
theorem presign_accepted (J : Strings) (C : Crypto) (D : Numbers) (malformed : Text → Text)
    {now : ℤ} (hnow : -59011459200000 ≤ now) (hnow' : now < 253402300800000)
    (r : PresignRequest)
    (hbucket : '/' ∉ r.bucket) (hkey : r.accessKeyId ≠ [] ∧ '/' ∉ r.accessKeyId)
    (hregion : r.region ≠ [] ∧ '/' ∉ r.region) (hquery : PlainNames r)
    (hexpires : 1 ≤ r.expiresIn ∧ r.expiresIn ≤ 7 * 24 * 3600) :
    Accepted J C D malformed now r := by
  intro req h
  have hparse : parseQuerySignature D malformed req =
      if r.accessKeyId = [] ∨ r.region = [] then .error .malformedAuthorization
      else .ok (some (linkParsed C now r)) :=
    parseQuerySignature_link h hquery hkey.2 hregion.2 (lt_of_le_of_lt hexpires.2 (by decide))
  rw [if_neg (not_or.mpr ⟨hkey.1, hregion.1⟩)] at hparse
  refine ⟨_, hparse, rfl, rfl, rfl, rfl, rfl, ⟨_, parseAmzDate_toAmzDate D hnow hnow', rfl,
    fun later _ hlater => ?_, fun later hlater => ?_⟩, bucketAndKey_link h hquery hbucket⟩
  · rw [verifyPresigned_link h hquery hnow hnow' hexpires, if_pos hlater]
  · rw [verifyPresigned_link h hquery hnow hnow' hexpires, if_neg (not_le.mpr hlater)]

/-- A link to a document whose name has to be escaped. -/
def sharedLink : PresignRequest where
  method := "get".toList
  endpoint :=
    { origin := "https://s3.example.com".toList
      host := "s3.example.com".toList
      host_not_space := Text.forall_mem_of_all (by decide) }
  bucket := "docs".toList
  key := "plans/q1 + q2.txt".toList
  expiresIn := 900
  accessKeyId := "AK".toList
  secretAccessKey := "secret".toList
  region := "us-east-1".toList
  query := [("versionId".toList, some "v1".toList)]

/-- The request of a link. -/
def linkRequest (C : Crypto) (now : ℤ) (r : PresignRequest) : Request where
  method := r.method.map Char.toUpper
  originalUrl := (presign C now r).drop r.endpoint.origin.length
  headers := [("host".toList, .one r.endpoint.host)]

theorem sent_linkRequest (C : Crypto) (now : ℤ) (r : PresignRequest) :
    Sent Strings.ascii C now r (linkRequest C now r) := ⟨rfl, rfl, rfl, rfl⟩

theorem presign_accepted_sharedLink :
    Sent Strings.ascii Crypto.sample 0 sharedLink (linkRequest Crypto.sample 0 sharedLink) ∧
      Accepted Strings.ascii Crypto.sample Numbers.sample id 0 sharedLink :=
  ⟨sent_linkRequest _ _ _, presign_accepted Strings.ascii Crypto.sample Numbers.sample id (by decide)
    (by decide) sharedLink (by decide) (by decide) (by decide)
    (by unfold PlainNames Reserved; decide) (by decide)⟩

/-- The link of a service that has no name for its region. -/
def noRegion : PresignRequest := { sharedLink with region := [] }

/-- **Two kinds of links are refused.**  A credential without a region has an empty field,
which the service does not take; and it does not read a year of more than four digits. -/
theorem links_refused :
    (¬ ∀ (J : Strings) (C : Crypto) (D : Numbers) (malformed : Text → Text) (now : ℤ)
      (r : PresignRequest), -59011459200000 ≤ now → now < 253402300800000 → '/' ∉ r.bucket →
      r.key ≠ [] → r.accessKeyId ≠ [] ∧ '/' ∉ r.accessKeyId → '/' ∉ r.region → PlainNames r →
      (r.query.map (·.1)).Nodup → 1 ≤ r.expiresIn ∧ r.expiresIn ≤ 7 * 24 * 3600 →
      Accepted J C D malformed now r) ∧
    ¬ ∀ (J : Strings) (C : Crypto) (D : Numbers) (malformed : Text → Text) (now : ℤ)
      (r : PresignRequest), '/' ∉ r.bucket → r.key ≠ [] →
      r.accessKeyId ≠ [] ∧ '/' ∉ r.accessKeyId → r.region ≠ [] ∧ '/' ∉ r.region → PlainNames r →
      (r.query.map (·.1)).Nodup → 1 ≤ r.expiresIn ∧ r.expiresIn ≤ 7 * 24 * 3600 →
      Accepted J C D malformed now r := by
  constructor
  · intro h
    have hplain : PlainNames noRegion := by
      unfold PlainNames Reserved
      decide
    obtain ⟨parsed, hparsed, -⟩ := h Strings.ascii Crypto.sample Numbers.sample id 0 noRegion
      (by decide) (by decide) (by decide) (by decide) (by decide) (by decide) hplain (by decide)
      (by decide) _ (sent_linkRequest Crypto.sample 0 noRegion)
    rw [parseQuerySignature_link (sent_linkRequest Crypto.sample 0 noRegion) hplain (by decide)
      (by decide) (by decide), if_pos (.inr rfl)] at hparsed
    cases hparsed
  · intro h
    have hplain : PlainNames sharedLink := by
      unfold PlainNames Reserved
      decide
    obtain ⟨parsed, -, -, hdate, -, -, -, ⟨issuedAt, hissued, -⟩, -⟩ :=
      h Strings.ascii Crypto.sample Numbers.sample id 253402300800000 sharedLink (by decide)
        (by decide) (by decide) (by decide) hplain (by decide) (by decide) _
        (sent_linkRequest Crypto.sample 253402300800000 sharedLink)
    have hunread : parseAmzDate Numbers.sample (toAmzDate 253402300800000) =
        .error .malformedAuthorization := by decide
    rw [hdate, hunread] at hissued
    cases hissued

end PresignedLinks
end SimpleStorage
