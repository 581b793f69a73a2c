import Mathlib.Data.List.TakeWhile
import SimpleStorage.S3.S3SignatureService

/-!
# What a signature binds in a URL

Two parsers read the URL of a signed request: the canonical request splits it at every
question mark and signs the first two pieces, the router takes everything after the first
question mark for the query.

* `bucketAndKey_signed`: the bucket and the key are bound.
* `query_signed`: so are the parameters of a URL with a plain query, one without a second
  question mark, a plus sign or a repeated name.
* `url_signed_iff`: and of no other one.  Whatever the signed URL is, a question mark and
  another parameter can be put behind it.
-/

namespace SimpleStorage

/-- A list that is decoded element by element. -/
theorem mapM_eq_some_iff {α β : Type} {f : α → Option β} {l : List α} {out : List β} :
    l.mapM f = some out ↔ l.map f = out.map some := by
  induction l generalizing out with
  | nil =>
    cases out <;> simp
  | cons a l ih =>
    cases hfa : f a with
    | none => cases out <;> simp [hfa]
    | some b =>
      cases out with
      | nil => cases hl : l.mapM f <;> simp [hfa, hl]
      | cons c out =>
        cases hl : l.mapM f with
        | none =>
          have hne : l.map f ≠ out.map some := fun h => by
            rw [ih.mpr h] at hl
            cases hl
          simp [hfa, hl, hne]
        | some out' =>
          have hout' := ih.mp hl
          simp only [List.mapM_cons, hfa, hl, Option.pure_def, Option.bind_eq_bind, Option.bind_some,
            Option.some.injEq, List.cons.injEq, List.map_cons, hout']
          rw [List.map_inj_right fun _ _ h => Option.some.inj h]

namespace SignedUrls

open Express S3SignatureService S3RequestService

variable {J : Strings} {malformed : Text → Text}

/-- The parameter a presigned URL carries its signature in. -/
def signatureParameter : Text := "X-Amz-Signature".toList

/-- The router works on the URL as the client sent it. -/
def PathStyle (r : Request) : Prop := r.url = r.originalUrl

/-- The same method and the same signed headers. -/
structure SameHeaders (J : Strings) (signedHeaders : List Text) (r₁ r₂ : Request) : Prop where
  method : r₁.method = r₂.method
  header : ∀ name ∈ signedHeaders, header J r₁ name = header J r₂ name

/-- The same bucket, key and parameters. -/
structure SameUrl (malformed : Text → Text) (r₁ r₂ : Request) : Prop where
  bucketAndKey : bucketAndKey r₁ = bucketAndKey r₂
  query : ∀ name, name ≠ signatureParameter → query malformed r₁ name = query malformed r₂ name

/-! ## Encoded components -/

/-- The characters `uriEncode` leaves alone. -/
def unreserved (c : Char) : Bool := unescapedInComponents c && decide (c ∉ "!'()*".toList)

theorem uriEncode_eq_escape (s : Text) : uriEncode s = PercentCoding.escape unreserved s :=
  PercentCoding.escape_escape (Text.forall_mem_of_all (by decide)) s

theorem uriEncode_injective : Function.Injective uriEncode := by
  intro s t h
  rw [uriEncode_eq_escape, uriEncode_eq_escape] at h
  exact PercentCoding.escape_injective (by decide) h

/-- The separators of a canonical request do not occur in encoded components. -/
theorem not_mem_uriEncode {sep : Char} (h : sep ∈ "/?&=+\n".toList) (s : Text) : sep ∉ uriEncode s := by
  rw [uriEncode_eq_escape]
  have hplain : ∀ c ∈ "/?&=+\n".toList, unreserved c = false :=
    Text.forall_mem_of_all (by decide)
  have hescape : ∀ c ∈ "/?&=+\n".toList, c ∉ PercentCoding.escapeChars :=
    Text.forall_mem_of_all (by decide)
  exact PercentCoding.not_mem_escape (hplain sep h) (hescape sep h) s

theorem uriEncode_eq_nil {s : Text} (h : uriEncode s = []) : s = [] :=
  uriEncode_injective (h.trans (uriEncode_eq_escape []).symm)

/-! ## The path -/

/-- The bucket and the key of a path, from its decoded segments. -/
def ofSegments (segments : List Text) : Text × Text :=
  let rest := if segments.headD [] = [] then segments.tail else segments
  (rest.headD [], Text.join '/' rest.tail)

theorem map_decodeSegment {pieces segments : List Text}
    (h : pieces.mapM decodeURIComponent = some segments) : pieces.map decodeSegment = segments := by
  have hmap := congrArg (List.map fun o : Option Text => o.getD []) (mapM_eq_some_iff.mp h)
  simp only [List.map_map] at hmap
  have hleft : pieces.map decodeSegment = pieces.map ((fun o => o.getD []) ∘ decodeURIComponent) := by
    refine List.map_congr_left fun piece hpiece => ?_
    have hsome : decodeURIComponent piece ∈ segments.map some :=
      mapM_eq_some_iff.mp h ▸ List.mem_map_of_mem hpiece
    obtain ⟨segment, -, hsegment⟩ := List.mem_map.mp hsome
    rw [decodeSegment, Function.comp_apply, ← hsegment]
    rfl
  rw [hleft, hmap]
  exact List.map_id'' (fun _ => rfl) segments

theorem decodeSegment_nil : decodeSegment [] = [] := rfl

theorem headD_map {α β : Type} (f : α → β) (l : List α) (d : α) :
    (l.map f).headD (f d) = f (l.headD d) := by
  cases l <;> rfl

/-- A decoded path determines the bucket and the key. -/
theorem bucketAndKey_eq {r : Request} {segments : List Text}
    (h : (Text.split '/' (pathOf r.url)).mapM decodeURIComponent = some segments) :
    bucketAndKey r = ofSegments segments := by
  have hmap := map_decodeSegment h
  have hempty : (Text.split '/' (pathOf r.url)).headD [] = [] ↔ segments.headD [] = [] := by
    rw [← hmap, ← decodeSegment_nil, headD_map, decodeSegment_nil]
    constructor
    · intro hnil
      rw [hnil, decodeSegment_nil]
    · rcases hpieces : Text.split '/' (pathOf r.url) with _ | ⟨piece, pieces⟩
      · exact fun _ => rfl
      · rw [hpieces] at h
        obtain ⟨segment, hsegment⟩ : ∃ segment, decodeURIComponent piece = some segment := by
          have heq := mapM_eq_some_iff.mp h
          rcases segments with _ | ⟨segment, segments⟩
          · cases heq
          · exact ⟨segment, (List.cons.inj heq).1⟩
        rw [List.headD_cons, decodeSegment, hsegment, Option.getD_some]
        rintro rfl
        exact PercentCoding.unescape_eq_nil hsegment
  have hrest : (if segments.headD [] = [] then segments.tail else segments) =
      (if (Text.split '/' (pathOf r.url)).headD [] = [] then (Text.split '/' (pathOf r.url)).tail
        else Text.split '/' (pathOf r.url)).map decodeSegment := by
    by_cases hnil : segments.headD [] = []
    · rw [if_pos hnil, if_pos (hempty.mpr hnil), ← hmap, List.map_tail]
    · rw [if_neg hnil, if_neg (mt hempty.mp hnil), hmap]
  simp only [bucketAndKey, ofSegments, hrest]
  generalize (if (Text.split '/' (pathOf r.url)).headD [] = [] then _ else _) = rest
  cases rest <;> rfl

/-- The canonical path `/` is that of an empty path as well. -/
def rooted (segments : List Text) : List Text := if segments = [[]] then [[], []] else segments

theorem ofSegments_rooted (segments : List Text) : ofSegments (rooted segments) = ofSegments segments := by
  rw [rooted]
  split_ifs with h
  · rw [h]
    rfl
  · rfl

theorem canonicalUri_eq {uriPath : Text} {segments : List Text}
    (h : (Text.split '/' uriPath).mapM decodeURIComponent = some segments) :
    canonicalUri uriPath = some (Text.join '/' ((rooted segments).map uriEncode)) := by
  have hlength : segments ≠ [] := by
    rintro rfl
    exact Text.split_ne_nil '/' uriPath (List.map_eq_nil_iff.mp (mapM_eq_some_iff.mp h))
  rw [canonicalUri, h]
  simp only [Option.bind_eq_bind, Option.bind_some, Option.pure_def, Option.some.injEq, rooted]
  by_cases hroot : segments = [[]]
  · rw [if_pos hroot, hroot]
    rfl
  · rw [if_neg hroot, if_neg]
    rcases segments with _ | ⟨s, _ | ⟨t, segments⟩⟩
    · exact absurd rfl hlength
    · intro hnil
      rw [List.map_singleton, Text.join, List.intercalate_singleton] at hnil
      exact hroot (by rw [uriEncode_eq_nil hnil])
    · rw [List.map_cons, Text.join_cons (by simp)]
      simp

theorem canonicalUri_eq_some {uriPath uri : Text} (h : canonicalUri uriPath = some uri) :
    ∃ segments, (Text.split '/' uriPath).mapM decodeURIComponent = some segments ∧
      uri = Text.join '/' ((rooted segments).map uriEncode) := by
  cases hsegments : (Text.split '/' uriPath).mapM decodeURIComponent with
  | none =>
    rw [canonicalUri, hsegments] at h
    cases h
  | some segments =>
    rw [canonicalUri_eq hsegments] at h
    exact ⟨segments, rfl, (Option.some.inj h).symm⟩

/-- A line of the canonical request ends where it says. -/
theorem newline_not_mem_canonicalUri {uriPath uri : Text} (h : canonicalUri uriPath = some uri) :
    '\n' ∉ uri := by
  obtain ⟨segments, -, rfl⟩ := canonicalUri_eq_some h
  intro hmem
  rcases Text.mem_of_mem_join hmem with hsep | ⟨s, hs, hc⟩
  · cases hsep
  · obtain ⟨segment, -, rfl⟩ := List.mem_map.mp hs
    exact not_mem_uriEncode (by decide) segment hc

/-- **The canonical path determines the bucket and the key.** -/
theorem bucketAndKey_of_canonicalUri {r₁ r₂ : Request} {uri : Text}
    (h₁ : canonicalUri (pathOf r₁.url) = some uri) (h₂ : canonicalUri (pathOf r₂.url) = some uri) :
    bucketAndKey r₁ = bucketAndKey r₂ := by
  obtain ⟨segments₁, hs₁, rfl⟩ := canonicalUri_eq_some h₁
  obtain ⟨segments₂, hs₂, huri⟩ := canonicalUri_eq_some h₂
  have hne : ∀ {segments : List Text} {path : Text},
      (Text.split '/' path).mapM decodeURIComponent = some segments →
      (rooted segments).map uriEncode ≠ [] := by
    intro segments path hsegments hnil
    rw [List.map_eq_nil_iff, rooted] at hnil
    split_ifs at hnil with hroot
    subst hnil
    exact Text.split_ne_nil '/' path (List.map_eq_nil_iff.mp (mapM_eq_some_iff.mp hsegments))
  have hsep : ∀ segments : List Text, ∀ s ∈ (rooted segments).map uriEncode, '/' ∉ s := by
    intro segments s hs
    obtain ⟨segment, -, rfl⟩ := List.mem_map.mp hs
    exact not_mem_uriEncode (by decide) segment
  have hmap := Text.join_inj (hsep _) (hsep _) (hne hs₁) (hne hs₂) huri
  have hrooted : rooted segments₁ = rooted segments₂ := List.map_injective_iff.mpr uriEncode_injective hmap
  rw [bucketAndKey_eq hs₁, bucketAndKey_eq hs₂, ← ofSegments_rooted, hrooted, ofSegments_rooted]

/-! ## The query -/

theorem queryStringOf_append {path : Text} (h : '?' ∉ path) (rest : Text) :
    queryStringOf (path ++ '?' :: rest) = rest := by
  rw [queryStringOf, List.dropWhile_append_of_pos fun c hc => ?_, List.dropWhile_cons_of_neg,
    List.tail_cons]
  · simp
  · rw [decide_eq_true_eq]
    exact ne_of_mem_of_not_mem hc h

theorem queryStringOf_of_not_mem {url : Text} (h : '?' ∉ url) : queryStringOf url = [] := by
  rw [queryStringOf, List.dropWhile_eq_nil_iff.mpr fun c hc => ?_, List.tail_nil]
  rw [decide_eq_true_eq]
  exact ne_of_mem_of_not_mem hc h

/-- A URL up to its first question mark and from there on. -/
theorem url_cases (url : Text) :
    ('?' ∉ url ∧ queryStringOf url = [] ∧ Text.split '?' url = [url]) ∨
      ∃ path, '?' ∉ path ∧ url = path ++ '?' :: queryStringOf url ∧
        Text.split '?' url = path :: Text.split '?' (queryStringOf url) := by
  by_cases h : '?' ∈ url
  · obtain ⟨path, rest, rfl, hpath⟩ := List.eq_append_cons_of_mem h
    refine Or.inr ⟨path, hpath, by rw [queryStringOf_append hpath], ?_⟩
    rw [queryStringOf_append hpath, Text.split_append_cons, Text.split_of_not_mem hpath,
      List.singleton_append]
  · exact Or.inl ⟨h, queryStringOf_of_not_mem h, Text.split_of_not_mem h⟩

/-- A pair up to its first `=` and from there on. -/
theorem nameAndValue_cases (pair : Text) :
    nameAndValue pair = (pair, []) ∨
      pair = (nameAndValue pair).1 ++ '=' :: (nameAndValue pair).2 := by
  by_cases h : '=' ∈ pair
  · obtain ⟨name, value, rfl, hname⟩ := List.eq_append_cons_of_mem h
    refine Or.inr ?_
    simp only [nameAndValue, Text.split_append_cons, Text.split_of_not_mem hname,
      List.singleton_append, List.headD_cons, List.tail_cons, Text.join_split]
  · refine Or.inl ?_
    rw [nameAndValue, Text.split_of_not_mem h]
    rfl

theorem nameAndValue_append {name : Text} (h : '=' ∉ name) (value : Text) :
    nameAndValue (name ++ '=' :: value) = (name, value) := by
  simp only [nameAndValue, Text.split_append_cons, Text.split_of_not_mem h, List.singleton_append,
    List.headD_cons, List.tail_cons, Text.join_split]

/-- Without a plus sign, the router decodes as the canonical request does. -/
theorem formDecode_eq {s decoded : Text} (hplus : '+' ∉ s) (h : decodeURIComponent s = some decoded) :
    formDecode malformed s = decoded := by
  have hmap : (s.map fun c => if c = '+' then ' ' else c) = s := by
    refine (List.map_congr_left fun c hc => ?_).trans (List.map_id s)
    rw [if_neg (ne_of_mem_of_not_mem hc hplus), id]
  rw [formDecode, hmap]
  simp only [h, Option.getD_some]

theorem decodedPair_eq_some {pair : Text} {decoded : Text × Text}
    (h : decodedPair pair = some decoded) :
    decodeURIComponent (nameAndValue pair).1 = some decoded.1 ∧
      decodeURIComponent (nameAndValue pair).2 = some decoded.2 := by
  rw [decodedPair] at h
  cases hname : decodeURIComponent (nameAndValue pair).1 with
  | none =>
    rw [hname] at h
    cases h
  | some name =>
    cases hvalue : decodeURIComponent (nameAndValue pair).2 with
    | none =>
      rw [hname, hvalue] at h
      cases h
    | some value =>
      rw [hname, hvalue] at h
      cases h
      exact ⟨rfl, rfl⟩

/-- Without a plus sign, the router reads the pairs of the canonical request. -/
theorem parameters_eq {queryString : Text} {pairs : List (Text × Text)} (hplus : '+' ∉ queryString)
    (h : decodedPairs queryString = some pairs) : parameters malformed queryString = pairs := by
  have hmap := mapM_eq_some_iff.mp h
  refine List.map_injective_iff.mpr (Option.some_injective _) ?_
  rw [← hmap, parameters, List.map_map]
  refine List.map_congr_left fun pair hpair => ?_
  have hsome : decodedPair pair ∈ pairs.map some := hmap ▸ List.mem_map_of_mem hpair
  obtain ⟨decoded, -, hdecoded⟩ := List.mem_map.mp hsome
  obtain ⟨hname, hvalue⟩ := decodedPair_eq_some hdecoded.symm
  have hpair' : '+' ∉ pair := fun hc => hplus (Text.mem_of_mem_split (List.mem_of_mem_filter hpair) hc)
  have hparts : '+' ∉ (nameAndValue pair).1 ∧ '+' ∉ (nameAndValue pair).2 := by
    rcases nameAndValue_cases pair with hcase | hcase
    · rw [hcase]
      exact ⟨hpair', List.not_mem_nil⟩
    · rw [hcase] at hpair'
      simp only [List.mem_append, List.mem_cons, not_or] at hpair'
      exact ⟨hpair'.1, hpair'.2.2⟩
  rw [Function.comp_apply, formDecode_eq hparts.1 hname, formDecode_eq hparts.2 hvalue, ← hdecoded]

/-- A pair of the canonical query. -/
def canonicalPair (pair : Text × Text) : Text := uriEncode pair.1 ++ '=' :: uriEncode pair.2

theorem canonicalPair_injective : Function.Injective canonicalPair := by
  intro pair pair' h
  have hsep := not_mem_uriEncode (show '=' ∈ "/?&=+\n".toList by decide)
  obtain ⟨hname, hvalue⟩ := Text.append_cons_inj (hsep _) (hsep _) h
  exact Prod.ext (uriEncode_injective hname) (uriEncode_injective hvalue)

theorem canonicalPair_ne_nil (pair : Text × Text) : canonicalPair pair ≠ [] :=
  List.append_ne_nil_of_right_ne_nil _ (List.cons_ne_nil _ _)

theorem not_mem_canonicalPair (pair : Text × Text) : '&' ∉ canonicalPair pair := by
  have hsep := not_mem_uriEncode (show '&' ∈ "/?&=+\n".toList by decide)
  simp only [canonicalPair, List.mem_append, List.mem_cons, not_or]
  exact ⟨hsep _, by decide, hsep _⟩

/-- The pairs a signature covers. -/
def signedPairs (excludeQueryKeys : List Text) (pairs : List (Text × Text)) : List (Text × Text) :=
  pairs.filter fun pair => uriEncode pair.1 ∉ excludeQueryKeys

/-- The order of the pairs in a canonical query: that of their encodings. -/
def canonicalOrder (left right : Text × Text) : Prop :=
  compareEncoded (uriEncode left.1, uriEncode left.2) (uriEncode right.1, uriEncode right.2)

instance : DecidableRel canonicalOrder := fun left right =>
  inferInstanceAs (Decidable (compareEncoded (uriEncode left.1, uriEncode left.2)
    (uriEncode right.1, uriEncode right.2)))

/-- Encoded pairs are sorted and written down. -/
theorem map_sorted_encoded (pairs : List (Text × Text)) :
    ((pairs.map fun pair => (uriEncode pair.1, uriEncode pair.2)).insertionSort compareEncoded).map
        (fun pair => pair.1 ++ '=' :: pair.2) =
      (pairs.insertionSort canonicalOrder).map canonicalPair := by
  have hsort := List.map_insertionSort canonicalOrder compareEncoded
    (fun pair : Text × Text => (uriEncode pair.1, uriEncode pair.2)) pairs fun _ _ _ _ => Iff.rfl
  rw [← hsort, List.map_map]
  rfl

/-- The canonical query of a query string whose pairs are known. -/
theorem canonicalQuery_eq {queryString : Text} {pairs : List (Text × Text)}
    (h : decodedPairs queryString = some pairs) (excludeQueryKeys : List Text) :
    canonicalQuery excludeQueryKeys queryString =
      some (Text.join '&'
        (((signedPairs excludeQueryKeys pairs).insertionSort canonicalOrder).map canonicalPair)) := by
  have hsigned : (pairs.map fun pair => (uriEncode pair.1, uriEncode pair.2)).filter
        (fun pair => decide (pair.1 ∉ excludeQueryKeys)) =
      (signedPairs excludeQueryKeys pairs).map fun pair => (uriEncode pair.1, uriEncode pair.2) :=
    List.filter_map
  rw [canonicalQuery, h]
  simp only [Option.bind_eq_bind, Option.bind_some, Option.pure_def, hsigned, map_sorted_encoded]

theorem canonicalQuery_eq_some {excludeQueryKeys : List Text} {queryString query : Text}
    (h : canonicalQuery excludeQueryKeys queryString = some query) :
    ∃ pairs sorted, decodedPairs queryString = some pairs ∧
      List.Perm sorted (signedPairs excludeQueryKeys pairs) ∧
      query = Text.join '&' (sorted.map canonicalPair) := by
  cases hpairs : decodedPairs queryString with
  | none =>
    rw [canonicalQuery, hpairs] at h
    cases h
  | some pairs =>
    rw [canonicalQuery_eq hpairs] at h
    exact ⟨pairs, _, rfl, List.perm_insertionSort _ _, (Option.some.inj h).symm⟩

/-- **The canonical query determines the signed pairs**, up to their order. -/
theorem signedPairs_perm {excludeQueryKeys : List Text} {queryString₁ queryString₂ query : Text}
    {pairs₁ pairs₂ : List (Text × Text)}
    (h₁ : canonicalQuery excludeQueryKeys queryString₁ = some query)
    (h₂ : canonicalQuery excludeQueryKeys queryString₂ = some query)
    (hpairs₁ : decodedPairs queryString₁ = some pairs₁)
    (hpairs₂ : decodedPairs queryString₂ = some pairs₂) :
    (signedPairs excludeQueryKeys pairs₁).Perm (signedPairs excludeQueryKeys pairs₂) := by
  obtain ⟨_, sorted₁, hp₁, hperm₁, rfl⟩ := canonicalQuery_eq_some h₁
  obtain ⟨_, sorted₂, hp₂, hperm₂, hquery⟩ := canonicalQuery_eq_some h₂
  obtain rfl := Option.some.inj (hpairs₁.symm.trans hp₁)
  obtain rfl := Option.some.inj (hpairs₂.symm.trans hp₂)
  have hsep : ∀ sorted : List (Text × Text), ∀ s ∈ sorted.map canonicalPair, '&' ∉ s := by
    intro sorted s hs
    obtain ⟨pair, -, rfl⟩ := List.mem_map.mp hs
    exact not_mem_canonicalPair pair
  have hne : ∀ sorted : List (Text × Text), ∀ s ∈ sorted.map canonicalPair, s ≠ [] := by
    intro sorted s hs
    obtain ⟨pair, -, rfl⟩ := List.mem_map.mp hs
    exact canonicalPair_ne_nil pair
  have hmap : sorted₁.map canonicalPair = sorted₂.map canonicalPair := by
    by_cases hnil₁ : sorted₁.map canonicalPair = []
    · rw [hnil₁] at hquery ⊢
      exact (Text.join_eq_nil (hne sorted₂) hquery.symm).symm
    by_cases hnil₂ : sorted₂.map canonicalPair = []
    · rw [hnil₂] at hquery ⊢
      exact Text.join_eq_nil (hne sorted₁) hquery
    exact Text.join_inj (hsep sorted₁) (hsep sorted₂) hnil₁ hnil₂ hquery
  obtain rfl := List.map_injective_iff.mpr canonicalPair_injective hmap
  exact hperm₁.symm.trans hperm₂

/-! ## What a signature binds -/

section Canonical

variable {signedHeaders : List Text} {payloadHash : Text} {excludeQueryKeys : List Text}

/-- The piece of a URL that is signed as its query. -/
def signedQueryStringOf (url : Text) : Text := ((Text.split '?' url)[1]?).getD []

theorem buildCanonicalRequest_eq_some {r : Request} {canonical : Text}
    (h : buildCanonicalRequest J r signedHeaders payloadHash excludeQueryKeys = some canonical) :
    ∃ uri query, canonicalUri (pathOf r.originalUrl) = some uri ∧
      canonicalQuery excludeQueryKeys (signedQueryStringOf r.originalUrl) = some query ∧
      (¬ ∃ name ∈ signedHeaders, InheritedHeader J r name) ∧
      canonical = r.method ++ '\n' :: (uri ++ '\n' :: (query ++ '\n' ::
        (Text.join '\n' [canonicalHeaders J r signedHeaders, Text.join ';' signedHeaders,
          payloadHash]))) := by
  cases huri : canonicalUri (pathOf r.originalUrl) with
  | none =>
    rw [buildCanonicalRequest] at h
    rw [pathOf] at huri
    simp only [huri, Option.bind_eq_bind, Option.bind_none] at h
    cases h
  | some uri =>
    cases hquery : canonicalQuery excludeQueryKeys (signedQueryStringOf r.originalUrl) with
    | none =>
      rw [buildCanonicalRequest] at h
      rw [pathOf] at huri
      rw [signedQueryStringOf] at hquery
      simp only [huri, hquery, Option.bind_eq_bind, Option.bind_some, Option.bind_none] at h
      cases h
    | some query =>
      rw [buildCanonicalRequest] at h
      rw [pathOf] at huri
      rw [signedQueryStringOf] at hquery
      simp only [huri, hquery, Option.bind_eq_bind, Option.bind_some, Option.pure_def] at h
      split_ifs at h with hinherited
      refine ⟨uri, query, rfl, rfl, hinherited, ?_⟩
      rw [← Option.some.inj h]
      simp only [Text.join_cons (List.cons_ne_nil _ _)]

/-- The headers enter the canonical request by their values alone. -/
theorem canonicalHeaders_congr {r₁ r₂ : Request}
    (h : ∀ name ∈ signedHeaders, header J r₁ name = header J r₂ name) :
    canonicalHeaders J r₁ signedHeaders = canonicalHeaders J r₂ signedHeaders := by
  rw [canonicalHeaders, canonicalHeaders]
  induction signedHeaders with
  | nil => rfl
  | cons name names ih =>
    rw [List.flatMap_cons, List.flatMap_cons, h name List.mem_cons_self,
      ih fun name' hname' => h name' (List.mem_cons_of_mem _ hname')]

/-- **Equal canonical requests have equal paths and equal queries.** -/
theorem canonical_parts {r₁ r₂ : Request} {canonical : Text}
    (hsame : SameHeaders J signedHeaders r₁ r₂)
    (h₁ : buildCanonicalRequest J r₁ signedHeaders payloadHash excludeQueryKeys = some canonical)
    (h₂ : buildCanonicalRequest J r₂ signedHeaders payloadHash excludeQueryKeys = some canonical) :
    ∃ uri query, (canonicalUri (pathOf r₁.originalUrl) = some uri ∧
        canonicalUri (pathOf r₂.originalUrl) = some uri) ∧
      canonicalQuery excludeQueryKeys (signedQueryStringOf r₁.originalUrl) = some query ∧
      canonicalQuery excludeQueryKeys (signedQueryStringOf r₂.originalUrl) = some query := by
  obtain ⟨uri₁, query₁, hu₁, hq₁, -, rfl⟩ := buildCanonicalRequest_eq_some h₁
  obtain ⟨uri₂, query₂, hu₂, hq₂, -, heq⟩ := buildCanonicalRequest_eq_some h₂
  rw [hsame.method, canonicalHeaders_congr hsame.header] at heq
  have htail := (List.cons.inj (List.append_cancel_left heq)).2
  obtain ⟨rfl, hrest⟩ := Text.append_cons_inj (newline_not_mem_canonicalUri hu₁)
    (newline_not_mem_canonicalUri hu₂) htail
  obtain rfl := List.append_cancel_right hrest
  exact ⟨uri₁, query₁, ⟨hu₁, hu₂⟩, hq₁, hq₂⟩

/-- **The bucket and the key are bound by the signature.** -/
theorem bucketAndKey_signed {r₁ r₂ : Request} {canonical : Text} (hpath₁ : PathStyle r₁)
    (hpath₂ : PathStyle r₂) (hsame : SameHeaders J signedHeaders r₁ r₂)
    (h₁ : buildCanonicalRequest J r₁ signedHeaders payloadHash excludeQueryKeys = some canonical)
    (h₂ : buildCanonicalRequest J r₂ signedHeaders payloadHash excludeQueryKeys = some canonical) :
    bucketAndKey r₁ = bucketAndKey r₂ := by
  obtain ⟨uri, query, ⟨hu₁, hu₂⟩, -⟩ := canonical_parts hsame h₁ h₂
  rw [← hpath₁] at hu₁
  rw [← hpath₂] at hu₂
  exact bucketAndKey_of_canonicalUri hu₁ hu₂

/-- A query both parsers read alike: one question mark, no plus sign, no repeated name. -/
structure PlainQuery (malformed : Text → Text) (r : Request) : Prop where
  question : '?' ∉ queryStringOf r.url
  plus : '+' ∉ queryStringOf r.url
  names : ((parameters malformed (queryStringOf r.url)).map (·.1)).Nodup

theorem signedQueryStringOf_eq {url : Text} (h : '?' ∉ queryStringOf url) :
    signedQueryStringOf url = queryStringOf url := by
  rcases url_cases url with ⟨-, hquery, hsplit⟩ | ⟨path, -, -, hsplit⟩
  · rw [signedQueryStringOf, hsplit, hquery]
    rfl
  · rw [signedQueryStringOf, hsplit, Text.split_of_not_mem h]
    rfl

/-- Among pairs of different names, the one of a given name can be looked up in any order. -/
theorem find_of_perm {pairs₁ pairs₂ : List (Text × Text)} (hperm : pairs₁.Perm pairs₂)
    (hnames : (pairs₁.map (·.1)).Nodup) (name : Text) :
    pairs₁.find? (·.1 = name) = pairs₂.find? (·.1 = name) := by
  have hfilter := hperm.filter (·.1 = name)
  have hone : (pairs₁.filter (·.1 = name)).length ≤ 1 := by
    have hsub : ((pairs₁.filter (·.1 = name)).map (·.1)).Nodup :=
      (List.filter_sublist.map _).nodup hnames
    have hall : (pairs₁.filter (·.1 = name)).map (·.1) =
        List.replicate (pairs₁.filter (·.1 = name)).length name := by
      rw [List.eq_replicate_iff]
      refine ⟨List.length_map _, fun x hx => ?_⟩
      obtain ⟨pair, hpair, rfl⟩ := List.mem_map.mp hx
      exact of_decide_eq_true (List.mem_filter.mp hpair).2
    rw [hall, List.nodup_replicate] at hsub
    exact hsub
  rw [← List.head?_filter, ← List.head?_filter]
  rcases hf : pairs₁.filter (·.1 = name) with _ | ⟨pair, _ | ⟨pair', rest⟩⟩
  · rw [hf] at hfilter
    rw [hf, ← hfilter.nil_eq]
  · rw [hf] at hfilter
    rw [hf, ← List.singleton_perm.mp hfilter]
  · rw [hf] at hone
    simp at hone

/-- Looking up a name that is not left out. -/
theorem find_signedPairs (hexclude : ∀ key ∈ excludeQueryKeys, key = signatureParameter)
    (pairs : List (Text × Text)) {name : Text} (hname : name ≠ signatureParameter) :
    (signedPairs excludeQueryKeys pairs).find? (·.1 = name) = pairs.find? (·.1 = name) := by
  have hkeep : uriEncode name ∉ excludeQueryKeys := by
    intro hmem
    refine hname (uriEncode_injective ?_)
    rw [hexclude _ hmem]
    decide
  rw [signedPairs, ← List.head?_filter, ← List.head?_filter, List.filter_filter]
  congr 2
  funext pair
  by_cases hpair : pair.1 = name
  · simp only [hpair, hkeep, not_false_eq_true, decide_true, Bool.and_true]
  · simp only [hpair, decide_false, Bool.false_and]

/-- **The parameters of a plain query are bound by the signature.** -/
theorem query_signed (hexclude : ∀ key ∈ excludeQueryKeys, key = signatureParameter)
    {r₁ r₂ : Request} {canonical : Text} (hpath₁ : PathStyle r₁)
    (hpath₂ : PathStyle r₂) (hsame : SameHeaders J signedHeaders r₁ r₂)
    (h₁ : buildCanonicalRequest J r₁ signedHeaders payloadHash excludeQueryKeys = some canonical)
    (h₂ : buildCanonicalRequest J r₂ signedHeaders payloadHash excludeQueryKeys = some canonical)
    (hplain₁ : PlainQuery malformed r₁) (hplain₂ : PlainQuery malformed r₂) {name : Text}
    (hname : name ≠ signatureParameter) : query malformed r₁ name = query malformed r₂ name := by
  obtain ⟨uri, query, -, hq₁, hq₂⟩ := canonical_parts hsame h₁ h₂
  rw [← hpath₁, signedQueryStringOf_eq hplain₁.question] at hq₁
  rw [← hpath₂, signedQueryStringOf_eq hplain₂.question] at hq₂
  obtain ⟨pairs₁, -, hpairs₁, -⟩ := canonicalQuery_eq_some hq₁
  obtain ⟨pairs₂, -, hpairs₂, -⟩ := canonicalQuery_eq_some hq₂
  have hperm := signedPairs_perm hq₁ hq₂ hpairs₁ hpairs₂
  have hnames := hplain₁.names
  rw [parameters_eq hplain₁.plus hpairs₁] at hnames
  rw [query_eq_find, query_eq_find, parameters_eq hplain₁.plus hpairs₁,
    parameters_eq hplain₂.plus hpairs₂, ← find_signedPairs hexclude pairs₁ hname,
    ← find_signedPairs hexclude pairs₂ hname,
    find_of_perm hperm ((List.filter_sublist.map _).nodup hnames)]

end Canonical

/-! ## What it does not bind -/

/-- A URL with a parameter behind a second question mark. -/
def appended (url name value : Text) : Text :=
  url ++ '?' :: ((if '?' ∈ url then [] else ['?']) ++
    '&' :: (encodeURIComponent name ++ '=' :: encodeURIComponent value))

/-- The path and the query that are signed stay as they are. -/
theorem signed_appended (url name value : Text) :
    pathOf (appended url name value) = pathOf url ∧
      signedQueryStringOf (appended url name value) = signedQueryStringOf url := by
  rw [appended, pathOf, pathOf, signedQueryStringOf, signedQueryStringOf, Text.split_append_cons]
  rcases url_cases url with ⟨hnot, -, hsplit⟩ | ⟨path, -, hurl, hsplit⟩
  · rw [if_neg hnot, hsplit]
    constructor
    · rfl
    · rw [List.singleton_append, List.getElem?_cons_succ]
      have hempty := @Text.split_append_cons '?' []
        ('&' :: (encodeURIComponent name ++ '=' :: encodeURIComponent value))
      rw [List.nil_append] at hempty
      rw [List.singleton_append, hempty]
      rfl
  · have hmem : '?' ∈ url := by
      rw [hurl]
      exact List.mem_append_right _ List.mem_cons_self
    rw [if_pos hmem, hsplit]
    refine ⟨rfl, ?_⟩
    rcases hquery : Text.split '?' (queryStringOf url) with _ | ⟨query, rest⟩
    · exact absurd hquery (Text.split_ne_nil _ _)
    · rfl

theorem queryStringOf_appended (url name value : Text) :
    queryStringOf (appended url name value) = queryStringOf url ++ '?' ::
      '&' :: (encodeURIComponent name ++ '=' :: encodeURIComponent value) := by
  rcases url_cases url with ⟨hnot, hquery, -⟩ | ⟨path, hpath, hurl, -⟩
  · rw [appended, if_neg hnot, queryStringOf_append hnot, hquery]
    rfl
  · have hmem : '?' ∈ url := by
      rw [hurl]
      exact List.mem_append_right _ List.mem_cons_self
    rw [appended, if_pos hmem]
    conv_lhs => rw [hurl]
    rw [List.append_assoc, List.cons_append, queryStringOf_append hpath]
    rfl

theorem not_mem_encodeURIComponent {c : Char} (h : c ∈ "+&=".toList) (s : Text) :
    c ∉ encodeURIComponent s := by
  have hplain : ∀ c ∈ "+&=".toList, unescapedInComponents c = false :=
    Text.forall_mem_of_all (by decide)
  have hescape : ∀ c ∈ "+&=".toList, c ∉ PercentCoding.escapeChars :=
    Text.forall_mem_of_all (by decide)
  exact PercentCoding.not_mem_escape (hplain c h) (hescape c h) s

/-- The router reads what was put behind the second question mark. -/
theorem parameters_appended (query name value : Text) :
    parameters malformed (query ++ '&' :: (encodeURIComponent name ++ '=' :: encodeURIComponent value)) =
      parameters malformed query ++ [(name, value)] := by
  have hand := not_mem_encodeURIComponent (show '&' ∈ "+&=".toList by decide)
  have hplus := not_mem_encodeURIComponent (show '+' ∈ "+&=".toList by decide)
  have heq := not_mem_encodeURIComponent (show '=' ∈ "+&=".toList by decide) name
  have hpair : '&' ∉ encodeURIComponent name ++ '=' :: encodeURIComponent value := by
    simp only [List.mem_append, List.mem_cons, not_or]
    exact ⟨hand _, by decide, hand _⟩
  have hne : encodeURIComponent name ++ '=' :: encodeURIComponent value ≠ [] :=
    List.append_ne_nil_of_right_ne_nil _ (List.cons_ne_nil _ _)
  rw [parameters, Text.split_append_cons, Text.split_of_not_mem hpair, List.filter_append,
    List.map_append, ← parameters]
  congr 1
  rw [List.filter_singleton, decide_eq_true hne, cond_true, List.map_singleton,
    nameAndValue_append heq, formDecode_eq (hplus _) (decodeURIComponent_encodeURIComponent name),
    formDecode_eq (hplus _) (decodeURIComponent_encodeURIComponent value)]

section Appended

variable {signedHeaders : List Text} {payloadHash : Text} {excludeQueryKeys : List Text}

/-- A request with another URL. -/
def withUrl (r : Request) (url : Text) : Request := { r with originalUrl := url, url := url }

/-- **A signature does not see what stands behind a second question mark.** -/
theorem buildCanonicalRequest_appended (r : Request) (name value : Text) :
    buildCanonicalRequest J (withUrl r (appended r.originalUrl name value)) signedHeaders payloadHash
        excludeQueryKeys =
      buildCanonicalRequest J r signedHeaders payloadHash excludeQueryKeys := by
  obtain ⟨hpath, hquery⟩ := signed_appended r.originalUrl name value
  rw [pathOf, pathOf] at hpath
  rw [signedQueryStringOf, signedQueryStringOf] at hquery
  rw [buildCanonicalRequest, buildCanonicalRequest]
  simp only [withUrl, hpath, hquery]
  rfl

/-- **The handlers do.** -/
theorem query_appended_ne {r : Request} {name : Text}
    (h : query malformed r name = none) (value : Text) :
    query malformed (withUrl r (appended r.originalUrl name value)) name ≠ query malformed r name := by
  have hquery : queryStringOf (appended r.originalUrl name value) =
      (queryStringOf r.originalUrl ++ ['?']) ++
        '&' :: (encodeURIComponent name ++ '=' :: encodeURIComponent value) := by
    rw [queryStringOf_appended, List.append_assoc, List.singleton_append]
  rw [h, query_eq_find, withUrl]
  simp only
  rw [hquery, parameters_appended, List.find?_append]
  cases (parameters malformed (queryStringOf r.originalUrl ++ ['?'])).find? (·.1 = name) with
  | none => simp
  | some pair => simp

/-- No list of names has all names. -/
theorem exists_not_mem (names : List Text) : ∃ name, name ≠ signatureParameter ∧ name ∉ names := by
  refine ⟨List.replicate (names.flatten.length + 16) 'a', fun h => ?_, fun hmem => ?_⟩
  · have hlength := congrArg List.length h
    rw [List.length_replicate] at hlength
    have hfifteen : signatureParameter.length = 15 := by decide
    omega
  · have hlength := (List.sublist_flatten_of_mem hmem).length_le
    rw [List.length_replicate] at hlength
    omega

theorem query_eq_none {r : Request} {name : Text}
    (h : name ∉ (parameters malformed (queryStringOf r.url)).map (·.1)) :
    query malformed r name = none := by
  rw [query_eq_find, Option.map_eq_none_iff, List.find?_eq_none]
  intro pair hpair hname
  exact h (of_decide_eq_true hname ▸ List.mem_map_of_mem hpair)

end Appended

/-- **What a signature covers.**  It covers the bucket and the key, and the parameters of a
plain query; but the only requests whose URL it covers as a whole are those for which there
is no canonical request at all. -/
theorem url_signed_iff (J : Strings) (malformed : Text → Text) (signedHeaders : List Text)
    (payloadHash : Text) (excludeQueryKeys : List Text)
    (hexclude : ∀ key ∈ excludeQueryKeys, key = signatureParameter) :
    (∀ r₁, PathStyle r₁ →
      ((∀ r₂ canonical, PathStyle r₂ → SameHeaders J signedHeaders r₁ r₂ →
          buildCanonicalRequest J r₁ signedHeaders payloadHash excludeQueryKeys = some canonical →
          buildCanonicalRequest J r₂ signedHeaders payloadHash excludeQueryKeys = some canonical →
          SameUrl malformed r₁ r₂) ↔
        buildCanonicalRequest J r₁ signedHeaders payloadHash excludeQueryKeys = none)) ∧
    ∀ r₁ r₂ canonical, PathStyle r₁ → PathStyle r₂ → SameHeaders J signedHeaders r₁ r₂ →
      buildCanonicalRequest J r₁ signedHeaders payloadHash excludeQueryKeys = some canonical →
      buildCanonicalRequest J r₂ signedHeaders payloadHash excludeQueryKeys = some canonical →
      bucketAndKey r₁ = bucketAndKey r₂ ∧
        (PlainQuery malformed r₁ → PlainQuery malformed r₂ → SameUrl malformed r₁ r₂) := by
  refine ⟨fun r₁ hpath₁ => ⟨fun h => ?_, fun hnone r₂ canonical _ _ h₁ _ => ?_⟩,
    fun r₁ r₂ canonical hpath₁ hpath₂ hsame h₁ h₂ => ?_⟩
  · by_contra hsome
    obtain ⟨canonical, hcanonical⟩ := Option.ne_none_iff_exists'.mp hsome
    obtain ⟨name, hname, hfresh⟩ :=
      exists_not_mem ((parameters malformed (queryStringOf r₁.url)).map (·.1))
    have hsame : SameHeaders J signedHeaders r₁ (withUrl r₁ (appended r₁.originalUrl name [])) :=
      ⟨rfl, fun _ _ => rfl⟩
    have hurl := h (withUrl r₁ (appended r₁.originalUrl name [])) canonical rfl hsame hcanonical
      ((buildCanonicalRequest_appended r₁ name []).trans hcanonical)
    exact query_appended_ne (query_eq_none hfresh) [] (hurl.query name hname).symm
  · rw [hnone] at h₁
    cases h₁
  · have hkey := bucketAndKey_signed hpath₁ hpath₂ hsame h₁ h₂
    exact ⟨hkey, fun hplain₁ hplain₂ => ⟨hkey, fun name hname =>
      query_signed hexclude hpath₁ hpath₂ hsame h₁ h₂ hplain₁ hplain₂ hname⟩⟩

/-- A link to an object. -/
def link : Request :=
  { method := "GET".toList, originalUrl := "/docs/plan.txt?X-Amz-Expires=60".toList }

theorem url_signed_iff_link :
    ¬ ∀ r₂ canonical, PathStyle r₂ → SameHeaders Strings.ascii [] link r₂ →
      buildCanonicalRequest Strings.ascii link [] [] [signatureParameter] = some canonical →
      buildCanonicalRequest Strings.ascii r₂ [] [] [signatureParameter] = some canonical →
      SameUrl id link r₂ := by
  have hexclude : ∀ key ∈ [signatureParameter], key = signatureParameter := by
    intro key hkey
    exact List.mem_singleton.mp hkey
  rw [(url_signed_iff Strings.ascii id [] [] [signatureParameter] hexclude).1 link rfl]
  decide

/-- The link with a version put behind a second question mark. -/
def anotherVersion : Request :=
  { method := "GET".toList
    originalUrl := "/docs/plan.txt?X-Amz-Expires=60?&versionId=v1".toList }

/-- **The link of another version has the same signature.** -/
theorem link_of_another_version :
    ¬ ∀ r₁ r₂ : Request, ∀ canonical, PathStyle r₁ → PathStyle r₂ →
      SameHeaders Strings.ascii [] r₁ r₂ →
      buildCanonicalRequest Strings.ascii r₁ [] [] [signatureParameter] = some canonical →
      buildCanonicalRequest Strings.ascii r₂ [] [] [signatureParameter] = some canonical →
      SameUrl id r₁ r₂ := by
  intro h
  have hsigned : buildCanonicalRequest Strings.ascii link [] [] [signatureParameter] =
      some "GET\n/docs/plan.txt\nX-Amz-Expires=60\n\n\n".toList := by decide
  have hother : buildCanonicalRequest Strings.ascii anotherVersion [] [] [signatureParameter] =
      some "GET\n/docs/plan.txt\nX-Amz-Expires=60\n\n\n".toList := by decide
  have hversion : query id anotherVersion "versionId".toList = some "v1".toList := by decide
  have hnone : query id link "versionId".toList = none := by decide
  have hheaders : SameHeaders Strings.ascii [] link anotherVersion := ⟨rfl, nofun⟩
  have hsame := h link anotherVersion _ rfl rfl hheaders hsigned hother
  have hquery := hsame.query "versionId".toList (by decide)
  rw [hversion, hnone] at hquery
  cases hquery

end SignedUrls
end SimpleStorage
