import SimpleStorage.Buckets.BucketsService
import SimpleStorage.S3.SignedUrls
import SimpleStorage.S3.Types

/-!
# How a request names an object

A bucket and a key stand in the path of a request, or the bucket in its host name and the key
in the path; a copy names its source in a header.  Keys are written percent-encoded.

* `addressing_agrees`: whatever a client escapes in a key, both ways of addressing lead to the
  object it means.
* `copySource_names_iff`: the header of a copy does not, where the key has a question mark in it.
  The header is decoded before it is cut, so what stands behind the question mark is taken for
  a query.
-/

namespace SimpleStorage

open Express PercentCoding

namespace S3VirtualHostMiddleware

/-- `req.headers.host`, of which there is one. -/
def host (req : Request) : Text :=
  match req.headers.find? (·.1 = "host".toList) with
  | some (_, .one value) => value
  | _ => []

/-- The bucket moves from the host name to the path. -/
def use (J : Strings) (endpointDomain : Text) (req : Request) : Request :=
  let domain := J.toLowerCase endpointDomain
  let name := J.toLowerCase ((Text.split ':' (host req)).headD [])
  if domain = [] then req
  else if name = domain ∨ ¬ ('.' :: domain) <:+ name then req
  else
    let bucket := name.take (name.length - (domain.length + 1))
    if bucket = [] then req
    else { req with url := if req.url = ['/'] then '/' :: bucket else '/' :: bucket ++ req.url }

end S3VirtualHostMiddleware

namespace S3RequestService

open BucketsTypes S3Types

variable {J : Strings} {malformed : Text → Text} {plain : Char → Bool}

/-! ## Bucket names -/

/-- What a bucket name is made of. -/
theorem not_mem_of_pattern {bucket : Text} (h : BucketNamePattern bucket) {c : Char}
    (hc : ¬ (('a' ≤ c && c ≤ 'z' || c.isDigit) || c == '.' || c == '-')) : c ∉ bucket :=
  fun hmem => hc (List.all_eq_true.mp h.2.2.2.2 c hmem)

theorem ne_nil_of_pattern {bucket : Text} (h : BucketNamePattern bucket) : bucket ≠ [] := by
  rintro rfl
  exact absurd h.1 (by decide)

/-- A bucket name is written as it is. -/
theorem decodeURIComponent_bucket {bucket : Text} (h : BucketNamePattern bucket) :
    decodeURIComponent bucket = some bucket :=
  unescape_of_encodes (show (fun c : Char => decide (c ≠ '%')) '%' = false by decide)
    (encodes_self fun c hc => decide_eq_true
      (ne_of_mem_of_not_mem hc (not_mem_of_pattern h (by decide))))

/-! ## Keys in a path -/

/-- A piece of an encoding in which there is no separator. -/
theorem decoded_pieces_append (hpercent : plain '%' = false) {c : Char} {w s e : Text}
    (hw : Encodes plain [c] w) (hsep : '/' ∉ w)
    (h : ∃ segments, (Text.split '/' e).mapM decodeURIComponent = some segments ∧
      Text.join '/' segments = s) :
    ∃ segments, (Text.split '/' (w ++ e)).mapM decodeURIComponent = some segments ∧
      Text.join '/' segments = c :: s := by
  obtain ⟨segments, hsegments, hjoin⟩ := h
  obtain ⟨p, ps, hsplit⟩ := List.exists_cons_of_ne_nil (Text.split_ne_nil '/' e)
  rw [hsplit, mapM_eq_some_iff] at hsegments
  rw [Text.split_append hsep hsplit]
  rcases segments with _ | ⟨q, qs⟩
  · cases hsegments
  · obtain ⟨hp, hps⟩ := List.cons.inj hsegments
    refine ⟨(c :: q) :: qs, mapM_eq_some_iff.mpr ?_, ?_⟩
    · rw [List.map_cons, List.map_cons, hps, decodeURIComponent, unescape_append hpercent hw,
        ← decodeURIComponent, hp]
      rfl
    · rw [← hjoin]
      rcases qs with _ | ⟨r, rs⟩
      · simp only [Text.join, List.intercalate_singleton]
      · rw [Text.join_cons (List.cons_ne_nil _ _), Text.join_cons (List.cons_ne_nil _ _),
          List.cons_append]

/-- **A key is decoded segment by segment**: the separators that are not escaped are kept, those
that are come out of the segments. -/
theorem decoded_pieces (hpercent : plain '%' = false) {s e : Text} (h : Encodes plain s e) :
    ∃ segments, (Text.split '/' e).mapM decodeURIComponent = some segments ∧
      Text.join '/' segments = s := by
  induction h with
  | nil => exact ⟨[[]], rfl, rfl⟩
  | @plain c s e hc h ih =>
    by_cases hsep : c = '/'
    · obtain ⟨segments, hsegments, hjoin⟩ := ih
      have hne : segments ≠ [] := by
        rintro rfl
        exact Text.split_ne_nil '/' e (List.map_eq_nil_iff.mp (mapM_eq_some_iff.mp hsegments))
      refine ⟨[] :: segments, ?_, ?_⟩
      · rw [hsep, ← List.nil_append ('/' :: e), Text.split_append_cons,
          Text.split_of_not_mem List.not_mem_nil, List.singleton_append, mapM_eq_some_iff,
          List.map_cons, List.map_cons, mapM_eq_some_iff.mp hsegments]
        rfl
      · rw [Text.join_cons hne, hjoin, hsep, List.nil_append]
    · exact decoded_pieces_append hpercent (.plain hc .nil) (by simpa using Ne.symm hsep) ih
  | @escaped c ws s e hws h ih =>
    have hw := @Encodes.escaped plain _ _ _ _ hws .nil
    rw [List.append_nil] at hw
    exact decoded_pieces_append hpercent hw (escapes_not_mem hws (by decide) (by decide)) ih

/-- A query string with its question mark, or none. -/
def IsQuery (queryPart : Text) : Prop := queryPart = [] ∨ ∃ queryString, queryPart = '?' :: queryString

theorem pathOf_append {path queryPart : Text} (h : '?' ∉ path) (hquery : IsQuery queryPart) :
    pathOf (path ++ queryPart) = path := by
  rcases hquery with rfl | ⟨queryString, rfl⟩
  · rw [List.append_nil, pathOf, Text.split_of_not_mem h]
    rfl
  · rw [pathOf, Text.split_append_cons, Text.split_of_not_mem h]
    rfl

/-- **The path style.** -/
theorem bucketAndKey_path (hpercent : plain '%' = false) (hquestion : plain '?' = false)
    {bucket key enc queryPart : Text} (hbucket : BucketNamePattern bucket)
    (henc : Encodes plain key enc) (hquery : IsQuery queryPart) {r : Request}
    (hurl : r.url = '/' :: bucket ++ '/' :: enc ++ queryPart) : bucketAndKey r = (bucket, key) := by
  obtain ⟨segments, hsegments, hjoin⟩ := decoded_pieces hpercent henc
  have hpath : pathOf r.url = '/' :: bucket ++ '/' :: enc := by
    rw [hurl]
    refine pathOf_append ?_ hquery
    simp only [List.cons_append, List.mem_cons, List.mem_append, not_or]
    exact ⟨by decide, not_mem_of_pattern hbucket (by decide), by decide,
      henc.not_mem hquestion (by decide) (by decide)⟩
  have hpieces : Text.split '/' (pathOf r.url) = [] :: bucket :: Text.split '/' enc := by
    rw [hpath, Text.split_append_cons, ← List.nil_append ('/' :: bucket), Text.split_append_cons,
      Text.split_of_not_mem List.not_mem_nil,
      Text.split_of_not_mem (not_mem_of_pattern hbucket (by decide))]
    rfl
  have hdecoded : (Text.split '/' (pathOf r.url)).mapM decodeURIComponent =
      some ([] :: bucket :: segments) := by
    rw [hpieces, mapM_eq_some_iff, List.map_cons, List.map_cons, decodeURIComponent_bucket hbucket,
      mapM_eq_some_iff.mp hsegments]
    rfl
  rw [SignedUrls.bucketAndKey_eq hdecoded, SignedUrls.ofSegments, List.headD_cons, if_pos rfl,
    List.tail_cons, List.headD_cons, List.tail_cons, hjoin]

/-- The host name a request is sent to: that of the bucket under the endpoint's domain, in any
case, and a port or none. -/
def SentTo (J : Strings) (bucket endpointDomain : Text) (req : Request) : Prop :=
  ∃ name port, S3VirtualHostMiddleware.host req = name ++ port ∧ ':' ∉ name ∧
    (port = [] ∨ ∃ digits, port = ':' :: digits) ∧
    J.toLowerCase name = bucket ++ '.' :: J.toLowerCase endpointDomain

/-- What the middleware makes of such a request. -/
theorem use_url {bucket endpointDomain : Text} (hbucket : BucketNamePattern bucket)
    (hdomain : J.toLowerCase endpointDomain ≠ []) {r : Request}
    (hhost : SentTo J bucket endpointDomain r) (hurl : r.url ≠ ['/']) :
    (S3VirtualHostMiddleware.use J endpointDomain r).url = '/' :: bucket ++ r.url := by
  obtain ⟨name, port, hhost, hcolon, hport, hname⟩ := hhost
  have hhead : (Text.split ':' (S3VirtualHostMiddleware.host r)).headD [] = name := by
    rw [hhost]
    rcases hport with rfl | ⟨digits, rfl⟩
    · rw [List.append_nil, Text.split_of_not_mem hcolon, List.headD_cons]
    · rw [Text.split_append_cons, Text.split_of_not_mem hcolon]
      rfl
  have hne : bucket ++ '.' :: J.toLowerCase endpointDomain ≠ J.toLowerCase endpointDomain := by
    intro heq
    have hlength := congrArg List.length heq
    rw [List.length_append, List.length_cons] at hlength
    omega
  have htake : (bucket ++ '.' :: J.toLowerCase endpointDomain).take
      ((bucket ++ '.' :: J.toLowerCase endpointDomain).length -
        ((J.toLowerCase endpointDomain).length + 1)) = bucket := by
    rw [List.length_append, List.length_cons, Nat.add_sub_cancel, List.take_left]
  simp only [S3VirtualHostMiddleware.use, hhead, hname, htake]
  rw [if_neg hdomain, if_neg, if_neg (ne_nil_of_pattern hbucket), if_neg hurl]
  rw [not_or, not_not]
  exact ⟨hne, List.suffix_append _ _⟩

/-- **Both ways of addressing reach the object the client means**, whatever it escapes in the key:
which characters may stand for themselves is open, but for the percent sign and the question
mark. -/
theorem addressing_agrees (J : Strings) (plain : Char → Bool) (hpercent : plain '%' = false)
    (hquestion : plain '?' = false) (bucket key enc queryPart : Text)
    (hbucket : BucketNamePattern bucket) (hkey : key ≠ []) (henc : Encodes plain key enc)
    (hquery : IsQuery queryPart) :
    (∀ r : Request, r.url = '/' :: bucket ++ '/' :: enc ++ queryPart →
      bucketAndKey r = (bucket, key)) ∧
    ∀ (endpointDomain : Text) (r : Request), J.toLowerCase endpointDomain ≠ [] →
      SentTo J bucket endpointDomain r → r.url = '/' :: enc ++ queryPart →
      bucketAndKey (S3VirtualHostMiddleware.use J endpointDomain r) = (bucket, key) := by
  refine ⟨fun r hurl => bucketAndKey_path hpercent hquestion hbucket henc hquery hurl,
    fun endpointDomain r hdomain hhost hurl => ?_⟩
  refine bucketAndKey_path hpercent hquestion hbucket henc hquery ?_
  rw [use_url hbucket hdomain hhost, hurl]
  · simp only [List.cons_append, List.append_assoc]
  · rw [hurl]
    intro hroot
    have hnil : enc ++ queryPart = [] := (List.cons.inj hroot).2
    have hencoded := unescape_of_encodes hpercent henc
    rw [(List.append_eq_nil_iff.mp hnil).1] at hencoded
    exact hkey (Option.some.inj hencoded).symm

/-- A key with a slash and a percent sign in it, the slash escaped. -/
theorem escaped_key_encodes : Encodes (fun c => decide (c ≠ '%') && decide (c ≠ '?'))
    "a/b%".toList "a%2fb%25".toList :=
  .plain (by decide) (@Encodes.escaped _ '/' ["%2f".toList] "b%".toList "b%25".toList
    (.cons ⟨'2', 'f', by decide, by decide, by decide⟩ .nil)
    (.plain (by decide) (@Encodes.escaped _ '%' ["%25".toList] [] []
      (.cons ⟨'2', '5', by decide, by decide, by decide⟩ .nil) .nil)))

/-- A request to the host of a bucket. -/
def virtualHosted : Request where
  method := "GET".toList
  originalUrl := "/a%2fb%25?acl".toList
  headers := [("host".toList, .one "Docs.S3.Test:4000".toList)]

/-- One key, in both styles. -/
theorem addressing_agrees_escaped_slash :
    bucketAndKey { virtualHosted with url := "/docs/a%2fb%25?acl".toList } =
      ("docs".toList, "a/b%".toList) ∧
    bucketAndKey (S3VirtualHostMiddleware.use Strings.ascii "s3.test".toList virtualHosted) =
      ("docs".toList, "a/b%".toList) := by
  obtain ⟨hpath, hhost⟩ := addressing_agrees Strings.ascii
    (fun c => decide (c ≠ '%') && decide (c ≠ '?')) (by decide) (by decide) "docs".toList
    "a/b%".toList "a%2fb%25".toList "?acl".toList (by decide) (by decide) escaped_key_encodes
    (Or.inr ⟨"acl".toList, rfl⟩)
  exact ⟨hpath _ (by decide), hhost "s3.test".toList virtualHosted (by decide)
    ⟨"Docs.S3.Test".toList, ":4000".toList, by decide, by decide, Or.inr ⟨"4000".toList, rfl⟩,
      by decide⟩ (by decide)⟩

/-! ## The source of a copy -/

/-- The errors of reading the header. -/
inductive CopySourceFault where
  | malformedUri
  | invalidArgument (resource : Text)
  deriving DecidableEq, Repr

/-- `new URLSearchParams(queryString).get(name)`. -/
def searchParam (malformed : Text → Text) (queryString name : Text) : Option Text :=
  ((parameters malformed queryString).find? (·.1 = name)).map (·.2)

/-- `s.replace(/^\//, '')`. -/
def withoutLeadingSlash : Text → Text
  | '/' :: rest => rest
  | s => s

def copySource (J : Strings) (malformed : Text → Text) (req : Request) :
    Except CopySourceFault (Option CopySource) :=
  match header J req "x-amz-copy-source".toList with
  | none | some [] => .ok none
  | some raw =>
      match decodeURIComponent raw with
      | none => .error .malformedUri
      | some decoded =>
          let pieces := Text.split '?' (withoutLeadingSlash decoded)
          let segments := Text.split '/' (pieces.headD [])
          if segments.headD [] = [] ∨ segments.tail = [] then .error (.invalidArgument raw)
          else
            .ok (some
              { bucket := segments.headD []
                key := Text.join '/' segments.tail
                versionId := searchParam malformed (pieces.tail.headD []) "versionId".toList })

/-- The query of a source: the version, if there is one. -/
def versionQuery : Option Text → Text
  | none => []
  | some versionId => '?' :: "versionId=".toList ++ versionId

/-- The header a client names an object with. -/
def copySourceHeader (leading : Bool) (bucket key : Text) (versionId : Option Text) : Text :=
  (if leading then ['/'] else []) ++ bucket ++
    '/' :: Text.join '/' ((Text.split '/' key).map encodeURIComponent) ++ versionQuery versionId

/-- A version id: hexadecimal digits, or `null`. -/
def IsVersionId (versionId : Text) : Prop :=
  (∀ c ∈ versionId, (Codec.hexValue c).isSome) ∨ versionId = "null".toList

theorem IsVersionId.not_mem {versionId : Text} (h : IsVersionId versionId) {c : Char}
    (hdigit : Codec.hexValue c = none) (hc : c ∉ "null".toList) : c ∉ versionId := by
  rcases h with hdigits | rfl
  · intro hmem
    have hsome := hdigits c hmem
    rw [hdigit] at hsome
    cases hsome
  · exact hc

/-- Encoded segments are an encoding of the key. -/
theorem encodes_join {l : List Text} :
    Encodes (fun c => decide (c ≠ '%')) (Text.join '/' l) (Text.join '/' (l.map encodeURIComponent)) := by
  have hsegment : ∀ s : Text, Encodes (fun c => decide (c ≠ '%')) s (encodeURIComponent s) := by
    refine encodes_escape fun c hc => decide_eq_true ?_
    rintro rfl
    exact absurd hc (by decide)
  induction l with
  | nil => exact .nil
  | cons s l ih =>
    rcases l with _ | ⟨t, l⟩
    · simp only [Text.join, List.map_cons, List.map_nil, List.intercalate_singleton]
      exact hsegment s
    · rw [List.map_cons, Text.join_cons (List.cons_ne_nil _ _),
        @Text.join_cons '/' _ ((t :: l).map encodeURIComponent) (List.cons_ne_nil _ _)]
      exact (hsegment s).append (.plain (by decide) ih)

section Header

variable {leading : Bool} {bucket key : Text} {versionId : Option Text}

/-- **The header is decoded as a whole.** -/
theorem decode_copySourceHeader (hbucket : BucketNamePattern bucket)
    (hversion : ∀ v, versionId = some v → IsVersionId v) :
    decodeURIComponent (copySourceHeader leading bucket key versionId) =
      some ((if leading then ['/'] else []) ++ bucket ++ '/' :: key ++ versionQuery versionId) := by
  have hplain : ∀ s : Text, '%' ∉ s → Encodes (fun c => decide (c ≠ '%')) s s := fun s hs =>
    encodes_self fun c hc => decide_eq_true (ne_of_mem_of_not_mem hc hs)
  have hkey : Encodes (fun c => decide (c ≠ '%')) key
      (Text.join '/' ((Text.split '/' key).map encodeURIComponent)) := by
    have hjoin := @encodes_join (Text.split '/' key)
    rwa [Text.join_split] at hjoin
  refine @unescape_of_encodes (fun c => decide (c ≠ '%')) (by decide) _ _ ?_
  refine (((hplain _ ?_).append (hplain _ ?_)).append (.plain (by decide) hkey)).append (hplain _ ?_)
  · cases leading <;> decide
  · exact not_mem_of_pattern hbucket (by decide)
  · cases versionId with
    | none => exact List.not_mem_nil
    | some v =>
      simp only [versionQuery, List.cons_append, List.mem_cons, List.mem_append, not_or]
      exact ⟨by decide, by decide, (hversion v rfl).not_mem (by decide) (by decide)⟩

/-- The leading slash is taken off, and only that one. -/
theorem withoutLeadingSlash_header (hbucket : BucketNamePattern bucket) (rest : Text) :
    withoutLeadingSlash ((if leading then ['/'] else []) ++ (bucket ++ rest)) = bucket ++ rest := by
  cases leading with
  | true => rfl
  | false =>
    rcases bucket with _ | ⟨c, cs⟩
    · exact absurd rfl (ne_nil_of_pattern hbucket)
    · have hc : c ≠ '/' := by
        rintro rfl
        exact not_mem_of_pattern hbucket (by decide) List.mem_cons_self
      simp only [Bool.false_eq_true, if_false, List.nil_append, List.cons_append]
      rw [withoutLeadingSlash]
      intro rest' h
      exact hc (List.cons.inj h).1

/-- The version of a query that names one. -/
theorem searchParam_versionQuery (hversion : ∀ v, versionId = some v → IsVersionId v) :
    searchParam malformed (versionQuery versionId).tail "versionId".toList = versionId := by
  cases versionId with
  | none => rfl
  | some v =>
    have hv := hversion v rfl
    have hpair : Text.split '&' ("versionId=".toList ++ v) = ["versionId=".toList ++ v] := by
      refine Text.split_of_not_mem ?_
      rw [List.mem_append, not_or]
      exact ⟨by decide, hv.not_mem (by decide) (by decide)⟩
    have hname : nameAndValue ("versionId=".toList ++ v) = ("versionId".toList, v) :=
      SignedUrls.nameAndValue_append (show '=' ∉ "versionId".toList by decide) v
    have hplain : ∀ s : Text, '%' ∉ s → decodeURIComponent s = some s := fun s hs =>
      @unescape_of_encodes (fun c => decide (c ≠ '%')) (by decide) _ _
        (encodes_self fun c hc => decide_eq_true (ne_of_mem_of_not_mem hc hs))
    have hdecodedName : formDecode malformed "versionId".toList = "versionId".toList :=
      SignedUrls.formDecode_eq (by decide) (hplain _ (by decide))
    have hdecodedValue : formDecode malformed v = v :=
      SignedUrls.formDecode_eq (hv.not_mem (by decide) (by decide))
        (hplain _ (hv.not_mem (by decide) (by decide)))
    simp only [searchParam, versionQuery, List.cons_append, List.tail_cons, parameters, hpair]
    rw [List.filter_cons_of_pos (by simp), List.filter_nil, List.map_singleton, hname]
    simp only [hdecodedName, hdecodedValue, List.find?_cons_of_pos, decide_true, Option.map_some]

/-- What is left of a decoded header up to the first question mark, and behind it. -/
theorem split_header (hbucket : BucketNamePattern bucket)
    (hversion : ∀ v, versionId = some v → IsVersionId v) :
    ∃ before rest, Text.split '?' (bucket ++ '/' :: key ++ versionQuery versionId) =
        (bucket ++ '/' :: before) :: rest ∧
      (('?' ∉ key ∧ before = key ∧ rest.headD [] = (versionQuery versionId).tail) ∨
        ('?' ∈ key ∧ before ≠ key)) := by
  have hquestion : '?' ∉ bucket := not_mem_of_pattern hbucket (by decide)
  by_cases hkey : '?' ∈ key
  · obtain ⟨before, behind, rfl, hbefore⟩ := List.eq_append_cons_of_mem hkey
    refine ⟨before, Text.split '?' (behind ++ versionQuery versionId), ?_, Or.inr ⟨hkey, ?_⟩⟩
    · have hassoc : bucket ++ '/' :: (before ++ '?' :: behind) ++ versionQuery versionId =
          (bucket ++ '/' :: before) ++ '?' :: (behind ++ versionQuery versionId) := by
        simp only [List.append_assoc, List.cons_append]
      rw [hassoc, Text.split_append_cons, Text.split_of_not_mem, List.singleton_append]
      simp only [List.mem_append, List.mem_cons, not_or]
      exact ⟨hquestion, by decide, hbefore⟩
    · intro heq
      have hlength := congrArg List.length heq
      rw [List.length_append, List.length_cons] at hlength
      omega
  · have hpath : '?' ∉ bucket ++ '/' :: key := by
      simp only [List.mem_append, List.mem_cons, not_or]
      exact ⟨hquestion, by decide, hkey⟩
    cases versionId with
    | none =>
      refine ⟨key, [], ?_, Or.inl ⟨hkey, rfl, rfl⟩⟩
      rw [versionQuery, List.append_nil, Text.split_of_not_mem hpath]
    | some v =>
      have hv : '?' ∉ "versionId=".toList ++ v := by
        rw [List.mem_append, not_or]
        exact ⟨by decide, (hversion v rfl).not_mem (by decide) (by decide)⟩
      refine ⟨key, ["versionId=".toList ++ v], ?_, Or.inl ⟨hkey, rfl, rfl⟩⟩
      rw [versionQuery, List.cons_append, Text.split_append_cons, Text.split_of_not_mem hpath,
        Text.split_of_not_mem hv, List.singleton_append]

/-- What the function returns, in these terms. -/
theorem copySource_eq {req : Request} (hbucket : BucketNamePattern bucket)
    (hversion : ∀ v, versionId = some v → IsVersionId v)
    (hheader : header J req "x-amz-copy-source".toList =
      some (copySourceHeader leading bucket key versionId)) {before : Text} {rest : List Text}
    (hpieces : Text.split '?' (bucket ++ '/' :: key ++ versionQuery versionId) =
      (bucket ++ '/' :: before) :: rest) :
    copySource J malformed req = .ok (some
      ⟨bucket, before, searchParam malformed (rest.headD []) "versionId".toList⟩) := by
  have hslash : '/' ∉ bucket := not_mem_of_pattern hbucket (by decide)
  have hsegments : Text.split '/' (bucket ++ '/' :: before) = bucket :: Text.split '/' before := by
    rw [Text.split_append_cons, Text.split_of_not_mem hslash, List.singleton_append]
  rw [copySource, hheader]
  rcases hraw : copySourceHeader leading bucket key versionId with _ | ⟨c, cs⟩
  · rw [copySourceHeader] at hraw
    simp at hraw
  · dsimp only
    rw [← hraw, decode_copySourceHeader hbucket hversion]
    dsimp only
    rw [List.append_assoc, List.append_assoc, withoutLeadingSlash_header hbucket, ← List.append_assoc,
      hpieces, List.headD_cons, List.tail_cons, hsegments, List.headD_cons, List.tail_cons,
      if_neg, Text.join_split]
    exact not_or.mpr ⟨ne_nil_of_pattern hbucket, Text.split_ne_nil '/' before⟩

end Header

/-- **Which copies read what they name**: those of keys without a question mark.  Of any other key
the part before the question mark is copied. -/
theorem copySource_names_iff (J : Strings) (malformed : Text → Text) (req : Request) (leading : Bool)
    (bucket key : Text) (versionId : Option Text) (hbucket : BucketNamePattern bucket)
    (hversion : ∀ v, versionId = some v → IsVersionId v)
    (hheader : header J req "x-amz-copy-source".toList =
      some (copySourceHeader leading bucket key versionId)) :
    copySource J malformed req = .ok (some ⟨bucket, key, versionId⟩) ↔ '?' ∉ key := by
  obtain ⟨before, rest, hpieces, hbefore⟩ := @split_header bucket key versionId hbucket hversion
  rw [copySource_eq hbucket hversion hheader hpieces]
  rcases hbefore with ⟨hkey, rfl, hrest⟩ | ⟨hkey, hother⟩
  · rw [hrest, searchParam_versionQuery hversion]
    exact ⟨fun _ => hkey, fun _ => rfl⟩
  · refine ⟨fun heq => ?_, fun hno => absurd hkey hno⟩
    exact absurd (congrArg CopySource.key (Option.some.inj (Except.ok.inj heq))) hother

/-- A copy of a key that ends like the address of a version. -/
def copyOfQuestion : Request where
  method := "PUT".toList
  originalUrl := "/docs/copy".toList
  headers := [("x-amz-copy-source".toList, .one "/docs/plan%3FversionId%3D1f".toList)]

/-- **Another object is copied**, and a version of it that nobody has asked for. -/
theorem copySource_other_object :
    header Strings.ascii copyOfQuestion "x-amz-copy-source".toList =
      some (copySourceHeader true "docs".toList "plan?versionId=1f".toList none) ∧
    copySource Strings.ascii id copyOfQuestion = .ok (some ⟨"docs".toList, "plan".toList, some "1f".toList⟩) ∧
    copySource Strings.ascii id copyOfQuestion ≠
      .ok (some ⟨"docs".toList, "plan?versionId=1f".toList, none⟩) := by
  decide +kernel

/-- A version of a key with a slash and a blank is found. -/
theorem copySource_names_blank :
    copySource Strings.ascii id { copyOfQuestion with
      headers := [("x-amz-copy-source".toList, .one "docs/a/b%20c?versionId=null".toList)] } =
      .ok (some ⟨"docs".toList, "a/b c".toList, some "null".toList⟩) :=
  (copySource_names_iff Strings.ascii id _ false "docs".toList "a/b c".toList (some "null".toList)
    (by decide) (fun v hv => Or.inr (Option.some.inj hv).symm) (by decide +kernel)).mpr (by decide)

end S3RequestService
end SimpleStorage
