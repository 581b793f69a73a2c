import SimpleStorage.Buckets.BucketsService
import SimpleStorage.Library.Interleaving
import SimpleStorage.Usage.Accounting

/-!
# Quotas while others write

A write reads the usage of its bucket and of the owner and commits later, when what it read
may be out of date.

`within_quotas` says that quotas hold on every schedule on which each commit finds its check
still valid: nothing was charged to the bucket, or to a bucket of the owner, since the
request read its usage, or the new total fits all the same.  `quota_exceeded` is a schedule
of two writes that both fit alone.
-/

namespace SimpleStorage
namespace UsageService

open ObjectsService ObjectsTypes Program Statements

/-- Requests that store bytes in a bucket. -/
inductive StoreRequest where
  | put (bucket : Text) (params : PutObjectParams)
  | copy (source : ObjectVersionDetail) (bucket key : Text) (directive : MetadataDirective)
      (accessKeyId : Option Text) (headers : ObjectHeaders)
  | uploadPart (bucket uploadId : Text) (partNumber : ℤ) (stream : Readable)
      (contentMd5 : Option Text) (declaredLength maxBytes : Option ℕ)

/-- Each resolves its bucket first. -/
def StoreRequest.program (N : Node) : StoreRequest → Service Unit
  | .put bucket params => do
      let bucket ← BucketsService.getByName bucket
      let _ ← ObjectsService.put N { params with bucket := bucket.toBucketContext }
  | .copy source bucket key directive accessKeyId headers => do
      let bucket ← BucketsService.getByName bucket
      let _ ← ObjectsService.copy N source bucket.toBucketContext key directive accessKeyId headers
  | .uploadPart bucket uploadId partNumber stream contentMd5 declaredLength maxBytes => do
      let bucket ← BucketsService.getByName bucket
      let _ ← ObjectsService.uploadPart N bucket.toBucketContext uploadId partNumber stream contentMd5
        declaredLength maxBytes

/-- **Every bucket and every user is within the quota**, if there is one. -/
structure WithinQuotas (db : Database) : Prop where
  buckets : ∀ b ∈ db.buckets, b.deletedAt = none → ∀ q ∈ b.quotaBytes,
    ((bucketUsage b.guid db).totalBytes : ℤ) ≤ q
  users : ∀ u ∈ db.users, ∀ q ∈ u.quotaBytes, ((userUsage u.guid db).totalBytes : ℤ) ≤ q

/-! ## When a check is still valid -/

/-- The bucket an event charges, and how much. -/
def charge : Event → Option (Guid × ℕ)
  | .committedVersion bucketGuid _ _ size _ => some (bucketGuid, size)
  | .storedPart bucketGuid _ _ size _ => some (bucketGuid, size)
  | _ => none

/-- Nothing was charged to the bucket since thread `i` read its usage. -/
def BucketUpToDate (v : Shared Event World) (i : ℕ) (bucketGuid : Guid) : Prop :=
  ∀ e ∈ v.record.takeWhile (· ≠ (i, .readBucketUsage bucketGuid)),
    ∀ c ∈ charge e.2, c.1 ≠ bucketGuid

/-- Nothing was charged to the user since thread `i` read the usage. -/
def OwnerUpToDate (v : Shared Event World) (i : ℕ) (userGuid : UserGuid) : Prop :=
  ∀ e ∈ v.record.takeWhile (· ≠ (i, .readUserUsage userGuid)),
    ∀ c ∈ charge e.2, c.1 ∉ (chargedBuckets userGuid v.state.db).map (·.guid)

/-- **What is charged was checked**: the usage that was read is up to date, or the charge fits
the quota all the same. -/
def ChecksValid (v : Shared Event World) (i : ℕ) (e : Event) : Prop :=
  ∀ c ∈ charge e, ∀ b ∈ v.state.db.buckets, b.guid = c.1 → b.deletedAt = none →
    (∀ q ∈ b.quotaBytes, BucketUpToDate v i b.guid ∨
      ((bucketUsage b.guid v.state.db).totalBytes + c.2 : ℤ) ≤ q) ∧
    ∀ u ∈ v.state.db.users, u.guid = b.ownerUserGuid → ∀ q ∈ u.quotaBytes,
      OwnerUpToDate v i u.guid ∨ ((userUsage u.guid v.state.db).totalBytes + c.2 : ℤ) ≤ q

instance (db : Database) : Decidable (WithinQuotas db) :=
  decidable_of_iff (_ ∧ _) ⟨fun h => ⟨h.1, h.2⟩, fun h => ⟨h.buckets, h.users⟩⟩

instance (v : Shared Event World) (i : ℕ) (bucketGuid : Guid) :
    Decidable (BucketUpToDate v i bucketGuid) := inferInstanceAs (Decidable (∀ e ∈ _, _))

instance (v : Shared Event World) (i : ℕ) (userGuid : UserGuid) :
    Decidable (OwnerUpToDate v i userGuid) := inferInstanceAs (Decidable (∀ e ∈ _, _))

instance (v : Shared Event World) (i : ℕ) (e : Event) : Decidable (ChecksValid v i e) :=
  inferInstanceAs (Decidable (∀ c ∈ charge e, _))

/-! ## The protocol -/

/-- What no request of these changes. -/
structure SameOwners (db db' : Database) : Prop where
  buckets : db'.buckets = db.buckets
  users : db'.users = db.users
  uploads : db'.multipartUploads = db.multipartUploads

theorem SameOwners.trans {db db' db'' : Database} (h : SameOwners db db') (h' : SameOwners db' db'') :
    SameOwners db db'' :=
  ⟨h'.buckets.trans h.buckets, h'.users.trans h.users, h'.uploads.trans h.uploads⟩

/-- The usage of a bucket grows by charges only. -/
def GrowsByCharges (events : List Event) (db db' : Database) : Prop :=
  ∀ guid, (∀ e ∈ events, ∀ c ∈ charge e, c.1 ≠ guid) →
    (bucketUsage guid db').totalBytes ≤ (bucketUsage guid db).totalBytes

/-- Threads rely on each other to put on record what they charge. -/
def charges : Protocol Event World where
  permits := ChecksValid
  inv v := Integrity v.state ∧ (v.state.db.users.map (·.guid)).Nodup ∧ WithinQuotas v.state.db
  rely i v v' := SameOwners v.state.db v'.state.db ∧
    ∃ new, v'.record = new ++ v.record ∧ (∀ e ∈ new, e.1 ≠ i) ∧
      GrowsByCharges (new.map (·.2)) v.state.db v'.state.db
  guar _ v e s := SameOwners v.state.db s.db ∧ GrowsByCharges e.toList v.state.db s.db
  refl _ v := ⟨⟨rfl, rfl, rfl⟩, [], rfl, nofun, fun _ _ => le_rfl⟩
  trans := by
    rintro i v v' v'' ⟨hsame, new, hrecord, hother, hgrows⟩ ⟨hsame', new', hrecord', hother', hgrows'⟩
    refine ⟨hsame.trans hsame', new' ++ new, by rw [hrecord', hrecord, List.append_assoc],
      fun e he => (List.mem_append.mp he).elim (hother' e) (hother e), fun guid h => ?_⟩
    rw [List.map_append] at h
    exact (hgrows' guid fun e he => h e (List.mem_append_left _ he)).trans
      (hgrows guid fun e he => h e (List.mem_append_right _ he))
  rely_of_guar := by
    rintro i j v e s hij - ⟨hsame, hgrows⟩ -
    refine ⟨hsame, e.toList.map (j, ·), rfl, fun e' he' => ?_, ?_⟩
    · obtain ⟨_, -, rfl⟩ := List.mem_map.mp he'
      exact hij.symm
    · have hmap : (e.toList.map (j, ·)).map (·.2) = e.toList := by
        rw [List.map_map]
        exact List.map_id _
      rw [hmap]
      exact hgrows

/-! ## What a request knows -/

/-- The bucket is there, and so is the upload in it, if the request is about one. -/
structure Resolved (row : BucketRow) (upload : Option Guid) (v : Shared Event World) : Prop where
  mem : row ∈ v.state.db.buckets
  live : row.deletedAt = none
  upload : ∀ u ∈ upload, ∀ guid, (u, guid) ∈ uploadRefs v.state.db → guid = row.guid

/-- There is room for `n` bytes more in the bucket, if the usage read is up to date. -/
def BucketRoom (i : ℕ) (row : BucketRow) (n : ℕ) (v : Shared Event World) : Prop :=
  ∀ q ∈ row.quotaBytes, BucketUpToDate v i row.guid →
    ((bucketUsage row.guid v.state.db).totalBytes + n : ℤ) ≤ q

/-- There is room for `n` bytes more in the quota of the owner, if the usage read is up to date. -/
def OwnerRoom (i : ℕ) (row : BucketRow) (n : ℕ) (v : Shared Event World) : Prop :=
  ∀ u ∈ v.state.db.users, u.guid = row.ownerUserGuid → ∀ q ∈ u.quotaBytes, OwnerUpToDate v i u.guid →
    ((userUsage u.guid v.state.db).totalBytes + n : ℤ) ≤ q

/-- Later, with new events on record none of which is thread `i` reading usage `e₀`. -/
structure Later (i : ℕ) (e₀ : Event) (v v' : Shared Event World) : Prop where
  same : SameOwners v.state.db v'.state.db
  record : ∃ new, v'.record = new ++ v.record ∧ (∀ e ∈ new, e ≠ (i, e₀)) ∧
    GrowsByCharges (new.map (·.2)) v.state.db v'.state.db

theorem Later.of_rely {i : ℕ} {v v' : Shared Event World} (h : charges.rely i v v') (e₀ : Event) :
    Later i e₀ v v' := by
  obtain ⟨hsame, new, hrecord, hother, hgrows⟩ := h
  exact ⟨hsame, new, hrecord, fun e he h => hother e he (congrArg Prod.fst h), hgrows⟩

/-- A step of the thread's own that is not that reading. -/
theorem Later.of_step {i : ℕ} {v : Shared Event World} {e : Option Event} {s : World} {e₀ : Event}
    (he : e₀ ∉ e) (h : charges.guar i v e s) : Later i e₀ v (v.after i e s) := by
  obtain ⟨hsame, hgrows⟩ := h
  refine ⟨hsame, e.toList.map (i, ·), rfl, fun e' he' h => ?_, ?_⟩
  · obtain ⟨e'', he'', heq⟩ := List.mem_map.mp he'
    obtain rfl := congrArg Prod.snd (heq.trans h)
    exact he (Option.mem_toList.mp he'')
  · have hmap : (e.toList.map (i, ·)).map (·.2) = e.toList := by
      rw [List.map_map]
      exact List.map_id _
    rw [hmap]
    exact hgrows

theorem Resolved.of_same {row : BucketRow} {upload : Option Guid} {v v' : Shared Event World}
    (h : Resolved row upload v) (hsame : SameOwners v.state.db v'.state.db) : Resolved row upload v' where
  mem := hsame.buckets ▸ h.mem
  live := h.live
  upload := fun u hu guid hguid => h.upload u hu guid (by rwa [uploadRefs, ← hsame.uploads])

theorem BucketRoom.later {i n : ℕ} {row : BucketRow} {v v' : Shared Event World}
    (h : BucketRoom i row n v) (hlater : Later i (.readBucketUsage row.guid) v v') :
    BucketRoom i row n v' := by
  obtain ⟨hsame, new, hrecord, hnew, hgrows⟩ := hlater
  intro q hq huptodate
  rw [BucketUpToDate, hrecord, List.takeWhile_append_of_pos fun e he => decide_eq_true (hnew e he)]
    at huptodate
  have hgrown := hgrows row.guid fun e he c hc => by
    obtain ⟨e', he', rfl⟩ := List.mem_map.mp he
    exact huptodate e' (List.mem_append_left _ he') c hc
  have hroom := h q hq fun e he => huptodate e (List.mem_append_right _ he)
  omega

theorem OwnerRoom.later {i n : ℕ} {row : BucketRow} {v v' : Shared Event World}
    (h : OwnerRoom i row n v) (hlater : Later i (.readUserUsage row.ownerUserGuid) v v') :
    OwnerRoom i row n v' := by
  obtain ⟨hsame, new, hrecord, hnew, hgrows⟩ := hlater
  intro u hu howner q hq huptodate
  have hcharged : chargedBuckets u.guid v'.state.db = chargedBuckets u.guid v.state.db := by
    rw [chargedBuckets, hsame.buckets, chargedBuckets]
  rw [OwnerUpToDate, hrecord, List.takeWhile_append_of_pos fun e he => by
    rw [howner]
    exact decide_eq_true (hnew e he), hcharged] at huptodate
  have hgrown : (userUsage u.guid v'.state.db).totalBytes ≤ (userUsage u.guid v.state.db).totalBytes := by
    rw [userUsage_totalBytes, userUsage_totalBytes, hcharged]
    refine List.sum_le_sum fun b hb => hgrows b.guid fun e he c hc hguid => ?_
    obtain ⟨e', he', rfl⟩ := List.mem_map.mp he
    exact huptodate e' (List.mem_append_left _ he') c hc (hguid ▸ List.mem_map_of_mem hb)
  have hroom := h u (hsame.users ▸ hu) howner q hq fun e he => huptodate e (List.mem_append_right _ he)
  omega

/-- The one quota of a user is the one that is found. -/
theorem quotaBytes_of_find {users : List UserRow} (hguids : (users.map (·.guid)).Nodup) {u : UserRow}
    (hu : u ∈ users) {userGuid : UserGuid} (howner : u.guid = userGuid) :
    u.quotaBytes = (users.find? (·.guid = userGuid)).bind (·.quotaBytes) := by
  cases hfound : users.find? (·.guid = userGuid) with
  | none => exact absurd (decide_eq_true howner) (List.find?_eq_none.mp hfound u hu)
  | some u' =>
    have howner' : u'.guid = userGuid := by simpa using List.find?_some hfound
    rw [List.inj_on_of_nodup_map hguids hu (List.mem_of_find?_eq_some hfound) (howner.trans howner'.symm)]
    rfl

/-! ## Steps -/

variable {N : Node} {i : ℕ} {row : BucketRow} {upload : Option Guid}

/-- A step off the tables does nothing to anyone's usage. -/
theorem offTables_step {event : World → Option Event} {effect : World → World}
    (h : OffTables N event effect) {v : Shared Event World} (hinv : charges.inv v) (e : Option Event) :
    charges.guar i v e (effect v.state) ∧ charges.inv (v.after i e (effect v.state)) := by
  obtain ⟨hw, husers, hquotas⟩ := hinv
  have hdb := h.db v.state
  refine ⟨⟨⟨by rw [hdb], by rw [hdb], by rw [hdb]⟩, fun guid _ => by rw [hdb]⟩,
    hw.congr hdb (h.calls_le v.state), ?_, ?_⟩
  · rw [Shared.state_after, hdb]
    exact husers
  · rw [Shared.state_after, hdb]
    exact hquotas

theorem read_step {v : Shared Event World} (hinv : charges.inv v) (e : Option Event) :
    charges.guar i v e v.state ∧ charges.inv (v.after i e v.state) :=
  offTables_step (.read nofun : OffTables Node.counting (fun _ => none) id) hinv e

/-- Such a step leaves a request with the bucket it resolved. -/
theorem offTables_stepHolds {event : World → Option Event} {effect : World → World}
    (h : OffTables N event effect) {v : Shared Event World} (hv : Resolved row upload v) :
    charges.StepHolds i event effect (fun _ => Resolved row upload) v := by
  rintro v' ⟨hsame, -⟩ hinv -
  obtain ⟨hguar, hinv'⟩ := offTables_step (i := i) h hinv (event v'.state)
  exact ⟨hguar, hinv', (hv.of_same hsame).of_same hguar.1⟩

theorem offTables_holds {α : Type} {x : Service α} (hx : x.Every (OffTables N)) {v : Shared Event World}
    (hv : Resolved row upload v) :
    charges.holds i x (fun _ => Resolved row upload) (fun _ => Resolved row upload) v :=
  Protocol.holds_of_stable (Resolved row upload) (fun _ _ h _ => offTables_stepHolds h) hx hv

/-- What a request knows that is about to charge `n` bytes. -/
structure Checked (i : ℕ) (row : BucketRow) (upload : Option Guid) (n : ℕ) (v : Shared Event World) :
    Prop where
  resolved : Resolved row upload v
  bucket : BucketRoom i row n v
  owner : OwnerRoom i row n v

/-- A step that leaves nothing on record takes nothing from what was checked. -/
theorem checked_stepHolds {event : World → Option Event} {effect : World → World}
    (h : OffTables N event effect) (hsilent : ∀ w, event w = none) {n : ℕ} {v : Shared Event World}
    (hv : Checked i row upload n v) :
    charges.StepHolds i event effect (fun _ => Checked i row upload n) v := by
  intro v' hrely hinv _
  obtain ⟨hguar, hinv'⟩ := offTables_step (i := i) h hinv (event v'.state)
  refine ⟨hguar, hinv', (hv.resolved.of_same hrely.1).of_same hguar.1, ?_, ?_⟩
  · refine (hv.bucket.later (.of_rely hrely _)).later (.of_step ?_ hguar)
    simp [hsilent]
  · refine (hv.owner.later (.of_rely hrely _)).later (.of_step ?_ hguar)
    simp [hsilent]

theorem nextVersionId_holds (versioning : BucketVersioning) {n : ℕ} {v : Shared Event World}
    (hv : Checked i row upload n v) :
    charges.holds i (nextVersionId N versioning) (fun _ => Checked i row upload n) (fun _ _ => True) v := by
  cases versioning with
  | disabled => exact hv
  | suspended => exact hv
  | enabled =>
    rw [nextVersionId, Protocol.holds_bind]
    exact checked_stepHolds (N := N) .draw (fun _ => rfl) hv

theorem findPart_holds (uploadGuid : Guid) (partNumber : ℤ) {n : ℕ} {v : Shared Event World}
    (hv : Checked i row upload n v) :
    charges.holds i (World.select (findPart uploadGuid partNumber)) (fun _ => Checked i row upload n)
      (fun _ _ => True) v :=
  checked_stepHolds (.read nofun : OffTables Node.counting (fun _ => none) id) (fun _ => rfl) hv

/-- **A charge that was checked** keeps to the quotas. -/
theorem charge_step {v : Shared Event World} (hinv : charges.inv v) {n : ℕ}
    (hv : Checked i row upload n v) {e : Event} (hvalid : ChecksValid v i e)
    (hcharge : charge e = some (row.guid, n)) {s : World} (hs : Integrity s)
    (hsame : SameOwners v.state.db s.db)
    (hbytes : ∀ guid, (bucketUsage guid s.db).totalBytes ≤
      (bucketUsage guid v.state.db).totalBytes + if guid = row.guid then n else 0) :
    charges.guar i v (some e) s ∧ charges.inv (v.after i (some e) s) := by
  obtain ⟨hw, husers, hquotas⟩ := hinv
  have hcheck := hvalid (row.guid, n) hcharge row hv.resolved.mem rfl hv.resolved.live
  refine ⟨⟨hsame, fun guid hno => ?_⟩, hs, ?_, fun b hb hlive q hq => ?_, fun u hu q hq => ?_⟩
  · have hne : guid ≠ row.guid := (hno e (List.mem_singleton_self e) _ hcharge).symm
    have := hbytes guid
    rwa [if_neg hne] at this
  · rw [Shared.state_after, hsame.users]
    exact husers
  · rw [Shared.state_after, hsame.buckets] at hb
    have hbytes := hbytes b.guid
    by_cases hguid : b.guid = row.guid
    · obtain rfl := List.inj_on_of_nodup_map hw.bucket_guid hb hv.resolved.mem hguid
      rw [if_pos rfl] at hbytes
      have hfits := (hcheck.1 q hq).elim (hv.bucket q hq) id
      rw [Shared.state_after]
      omega
    · rw [if_neg hguid] at hbytes
      have hfits := hquotas.buckets b hb hlive q hq
      rw [Shared.state_after]
      omega
  · rw [Shared.state_after, hsame.users] at hu
    have hbytes := userUsage_le hsame.buckets hw.bucket_guid hbytes u.guid
    have hfits := hquotas.users u hu q hq
    rw [Shared.state_after]
    split_ifs at hbytes with hcharged
    · obtain ⟨b, hb, hguid⟩ := List.mem_map.mp hcharged
      obtain ⟨hb, howner⟩ := List.mem_filter.mp hb
      obtain rfl := List.inj_on_of_nodup_map hw.bucket_guid hb hv.resolved.mem hguid
      rw [Bool.and_eq_true, decide_eq_true_iff] at howner
      have hfits := (hcheck.2 u hu howner.1.symm q hq).elim (hv.owner u hu howner.1.symm q hq) id
      omega
    · omega

/-! ## Requests -/

/-- The second half of the check. -/
theorem assertOwnerQuota_holds {bucket : UsageTypes.QuotaTarget}
    (howner : bucket.ownerUserGuid = row.ownerUserGuid) {n : ℕ} {v : Shared Event World}
    (hresolved : Resolved row upload v) (hbucket : BucketRoom i row n v) :
    charges.holds i (assertOwnerQuota bucket n)
      (fun _ => Checked i row upload n) (fun _ => Resolved row upload) v := by
  rw [assertOwnerQuota, Protocol.holds_bind, World.select, Program.query, Protocol.holds_observe]
  intro v₁ hrely₁ hinv₁ _
  obtain ⟨hguar₁, hinv₁'⟩ := read_step (i := i) hinv₁ none
  refine ⟨hguar₁, hinv₁', ?_⟩
  have hresolved₁ : Resolved row upload (v₁.after i none v₁.state) :=
    (hresolved.of_same hrely₁.1).of_same hguar₁.1
  have hbucket₁ : BucketRoom i row n (v₁.after i none v₁.state) :=
    (hbucket.later (.of_rely hrely₁ _)).later (.of_step (by simp) hguar₁)
  have hquota₁ : ∀ u ∈ v₁.state.db.users, u.guid = bucket.ownerUserGuid → u.quotaBytes = _ :=
    fun u hu => quotaBytes_of_find hinv₁.2.1 hu
  beta_reduce
  cases hquota : (v₁.state.db.users.find? (·.guid = bucket.ownerUserGuid)).bind (·.quotaBytes) with
  | none =>
    refine ⟨hresolved₁, hbucket₁, fun u hu huser q hq => ?_⟩
    rw [hquota₁ u hu (huser.trans howner.symm), hquota] at hq
    cases hq
  | some quotaBytes =>
    rw [Protocol.holds_bind, World.selectFor, Protocol.holds_observe]
    intro v₂ hrely₂ hinv₂ _
    obtain ⟨hguar₂, hinv₂'⟩ := read_step (i := i) hinv₂ (some (.readUserUsage bucket.ownerUserGuid))
    refine ⟨hguar₂, hinv₂', ?_⟩
    beta_reduce
    have hresolved₂ : Resolved row upload
        (v₂.after i (some (.readUserUsage bucket.ownerUserGuid)) v₂.state) :=
      (hresolved₁.of_same hrely₂.1).of_same hguar₂.1
    rw [Protocol.holds_require]
    refine ⟨fun hfits => ⟨hresolved₂, ?_, fun u hu huser q hq _ => ?_⟩, fun _ => hresolved₂⟩
    · exact (hbucket₁.later (.of_rely hrely₂ _)).later (.of_step (by simp) hguar₂)
    · have huser' := huser.trans howner.symm
      have hu₁ : u ∈ v₁.state.db.users := hrely₂.1.users ▸ hu
      rw [hquota₁ u hu₁ huser', hquota] at hq
      obtain rfl : quotaBytes = q := Option.some.inj hq
      rw [huser']
      exact hfits

/-- **A check that passes** tells that there is room, as long as nothing more is charged. -/
theorem assertQuota_holds (n : ℕ) {v : Shared Event World} (hresolved : Resolved row upload v) :
    charges.holds i (assertQuota (BucketsService.toItem row).toQuotaTarget n)
      (fun _ => Checked i row upload n) (fun _ => Resolved row upload) v := by
  rw [assertQuota, show (BucketsService.toItem row).toQuotaTarget.quotaBytes = row.quotaBytes from rfl]
  cases hquota : row.quotaBytes with
  | none =>
    refine assertOwnerQuota_holds rfl hresolved fun q hq => ?_
    rw [hquota] at hq
    cases hq
  | some quotaBytes =>
    dsimp only
    rw [Protocol.holds_bind, World.selectFor, Protocol.holds_observe]
    intro v₁ hrely₁ hinv₁ _
    obtain ⟨hguar₁, hinv₁'⟩ := read_step (i := i) hinv₁ (some (.readBucketUsage row.guid))
    refine ⟨hguar₁, hinv₁', ?_⟩
    beta_reduce
    have hresolved₁ : Resolved row upload (v₁.after i (some (.readBucketUsage row.guid)) v₁.state) :=
      (hresolved.of_same hrely₁.1).of_same hguar₁.1
    rw [Protocol.holds_bind, Protocol.holds_require]
    refine ⟨fun hfits => assertOwnerQuota_holds rfl hresolved₁ fun q hq _ => ?_, fun _ => hresolved₁⟩
    rw [hquota] at hq
    obtain rfl : quotaBytes = q := Option.some.inj hq
    exact hfits

/-- What was written is checked before it is committed. -/
theorem checkWritten_holds (contentMd5 : Option Text) (written : StorageTypes.WriteResult)
    {v : Shared Event World} (hv : Resolved row upload v) :
    charges.holds i (tryCatch (do
        assertContentMd5 contentMd5 written.etag
        assertQuota (BucketsService.toItem row).toQuotaTarget written.size) fun err => do
          StorageService.delete written.storagePath
          throw err)
      (fun _ => Checked i row upload written.size) (fun _ _ => True) v := by
  have hdelete : ∀ (e : Fault) v', Resolved row upload v' →
      charges.holds i (StorageService.delete written.storagePath >>= fun _ => (throw e : Service Unit))
        (fun _ => Checked i row upload written.size) (fun _ _ => True) v' := by
    intro e v' hv'
    rw [Protocol.holds_bind]
    exact Protocol.holds_mono (offTables_holds (delete_offTables (N := Node.counting) _) hv')
      (fun _ _ _ => trivial) fun _ _ _ => trivial
  rw [Protocol.holds_tryCatch, Protocol.holds_bind, assertContentMd5, Protocol.holds_require]
  refine ⟨fun _ => ?_, fun _ => hdelete _ v hv⟩
  exact Protocol.holds_mono (assertQuota_holds written.size hv) (fun _ _ h => h) hdelete

/-- **A commit charges what was checked.** -/
theorem commitVersion_holds (key versionId : Text) (values : VersionValues) {v : Shared Event World}
    (hv : Checked i row upload values.size v) :
    charges.holds i (ObjectsService.commitVersion N (BucketsService.toItem row).toBucketContext key versionId
      values) (fun _ _ => True) (fun _ _ => True) v := by
  rw [ObjectsService.commitVersion, World.insertFor, Protocol.holds_perform]
  intro v' hrely hinv hvalid
  have hchecked : Checked i row upload values.size v' :=
    ⟨hv.resolved.of_same hrely.1, hv.bucket.later (.of_rely hrely _), hv.owner.later (.of_rely hrely _)⟩
  obtain ⟨objects, objectVersions, hframe⟩ :=
    commitVersion_others v'.state.calls (N.now v'.state.calls) row.guid key versionId values v'.state.db
  have hsame : SameOwners v'.state.db (Statements.commitVersion v'.state.calls (N.now v'.state.calls)
      row.guid key versionId values v'.state.db).2 := by
    rw [hframe]
    exact ⟨rfl, rfl, rfl⟩
  obtain ⟨hguar, hinv'⟩ := charge_step hinv hchecked (hvalid _ rfl) rfl
    (s := { v'.state with
      db := (Statements.commitVersion v'.state.calls (N.now v'.state.calls) row.guid key versionId values
        v'.state.db).2
      calls := v'.state.calls + 1 })
    (hinv.1.commitVersion _ _ _ _ _) hsame (commit_bytes_le hinv.1 _ _ _ _ _)
  exact ⟨hguar, hinv', trivial⟩

/-- The rest of a request writes no row. -/
theorem rest_holds {α : Type} {x : Service α} (hx : x.Every (OffTables N)) (v : Shared Event World) :
    charges.holds i x (fun _ _ => True) (fun _ _ => True) v := by
  refine Protocol.holds_of_stable (fun _ => True) (fun _ _ h _ _ v' _ hinv _ => ?_) hx trivial
  obtain ⟨hguar, hinv'⟩ := offTables_step (i := i) h hinv _
  exact ⟨hguar, hinv', trivial⟩

theorem put_holds (params : PutObjectParams) {v : Shared Event World} (hv : Resolved row none v) :
    charges.holds i (ObjectsService.put N { params with
      bucket := (BucketsService.toItem row).toBucketContext }) (fun _ _ => True) (fun _ _ => True) v := by
  rw [ObjectsService.put, Protocol.holds_bind, assertValidKey, Protocol.holds_require]
  refine ⟨fun _ => ?_, fun _ => trivial⟩
  rw [Protocol.holds_bind, assertWithinMaxBytes, Protocol.holds_require]
  refine ⟨fun _ => ?_, fun _ => trivial⟩
  rw [Protocol.holds_bind]
  refine Protocol.holds_mono (offTables_holds (assertQuota_offTables (N := N) _ _) hv) ?_ fun _ _ _ => trivial
  intro _ v₁ hv₁
  rw [Protocol.holds_bind]
  refine Protocol.holds_mono (offTables_holds (write_offTables _ _) hv₁) ?_ fun _ _ _ => trivial
  intro written v₂ hv₂
  rw [Protocol.holds_bind]
  refine Protocol.holds_mono (checkWritten_holds _ written hv₂) ?_ fun _ _ _ => trivial
  intro _ v₃ hv₃
  rw [Protocol.holds_bind]
  refine Protocol.holds_mono (nextVersionId_holds row.versioning hv₃) ?_ fun _ _ _ => trivial
  intro versionId v₄ hv₄
  rw [Protocol.holds_bind]
  refine Protocol.holds_mono (commitVersion_holds _ versionId _ hv₄) ?_ fun _ _ _ => trivial
  intro replaced v₅ _
  exact rest_holds (.bind (deleteBlobs_offTables (N := N) _) fun _ => .pure _) v₅

theorem copy_holds (source : ObjectVersionDetail) (key : Text) (directive : MetadataDirective)
    (accessKeyId : Option Text) (headers : ObjectHeaders) {v : Shared Event World}
    (hv : Resolved row none v) :
    charges.holds i (ObjectsService.copy N source (BucketsService.toItem row).toBucketContext key directive
      accessKeyId headers) (fun _ _ => True) (fun _ _ => True) v := by
  rw [ObjectsService.copy, Protocol.holds_bind, Protocol.holds_orThrow]
  refine ⟨fun storagePath _ => ?_, fun _ => trivial⟩
  rw [Protocol.holds_bind]
  refine Protocol.holds_mono (offTables_holds (read_offTables _ _ _) hv) ?_ fun _ _ _ => trivial
  intro payload v₁ hv₁
  rw [Protocol.holds_bind]
  refine Protocol.holds_mono (put_holds {
    bucket := (BucketsService.toItem row).toBucketContext
    key
    stream := payload.stream
    accessKeyId
    headers := inheritedHeaders source.headers directive headers } hv₁) ?_ fun _ _ _ => trivial
  intro result v₂ _
  exact rest_holds (.bind (nextCall_offTables (N := N)) fun _ => .pure _) v₂

/-- What a request knows that found its upload. -/
theorem resolved_of_upload {uploadId : Text} {u : MultipartUploadRow} {v : Shared Event World}
    (hv : Resolved row none v) (hw : Integrity v.state)
    (hu : findUpload row.guid uploadId v.state.db = some u) : Resolved row (some u.guid) v := by
  refine ⟨hv.mem, hv.live, ?_⟩
  rintro _ ⟨⟩ guid hguid
  exact uploadRefs_unique hw hguid (uploadRefs_of_found hu)

theorem requireUpload_holds (uploadId : Text) {v : Shared Event World} (hv : Resolved row none v) :
    charges.holds i (requireUpload row.guid uploadId) (fun u => Resolved row (some u.guid))
      (fun _ _ => True) v := by
  rw [requireUpload, Protocol.holds_bind, World.selectFor, Protocol.holds_observe]
  intro v₁ hrely hinv _
  obtain ⟨hguar, hinv'⟩ := read_step (i := i) hinv
    ((findUpload row.guid uploadId v₁.state.db).map (.requiredUpload ·.guid))
  refine ⟨hguar, hinv', ?_⟩
  beta_reduce
  rw [Protocol.holds_orThrow]
  exact ⟨fun u hu => (resolved_of_upload (hv.of_same hrely.1) hinv.1 hu).of_same hguar.1,
    fun _ => trivial⟩

/-- **A stored part charges what was checked.** -/
theorem storePart_holds {uploadGuid : Guid} {partNumber : ℤ} {written : StorageTypes.WriteResult}
    {v : Shared Event World} (hv : Checked i row (some uploadGuid) written.size v) :
    charges.holds i (World.insertFor (fun call =>
        some (.storedPart row.guid uploadGuid written.storagePath written.size call))
      fun call db => ((), upsertPart {
        uploadGuid
        partNumber
        size := written.size
        etag := written.etag
        storagePath := written.storagePath
        sse := toEncryptionColumns written.encryption
        createdAt := N.now call } db)) (fun _ _ => True) (fun _ _ => True) v := by
  rw [World.insertFor, Protocol.holds_perform]
  intro v' hrely hinv hvalid
  have hchecked : Checked i row (some uploadGuid) written.size v' :=
    ⟨hv.resolved.of_same hrely.1, hv.bucket.later (.of_rely hrely _), hv.owner.later (.of_rely hrely _)⟩
  let part : ℕ → MultipartPartRow := fun call => {
    uploadGuid
    partNumber
    size := written.size
    etag := written.etag
    storagePath := written.storagePath
    sse := toEncryptionColumns written.encryption
    createdAt := N.now call }
  have hbytes : ∀ guid, (bucketUsage guid (upsertPart (part v'.state.calls) v'.state.db)).totalBytes ≤ _ :=
    storePart_bytes_le hinv.1 (hchecked.resolved.upload uploadGuid rfl)
  obtain ⟨hguar, hinv'⟩ := charge_step hinv hchecked (hvalid _ rfl) rfl
    ((Atomic.storePart (N := N) row.guid part).integrity hinv.1) ⟨rfl, rfl, rfl⟩ hbytes
  exact ⟨hguar, hinv', trivial⟩

theorem uploadPart_holds (uploadId : Text) (partNumber : ℤ) (stream : Readable)
    (contentMd5 : Option Text) (declaredLength maxBytes : Option ℕ) {v : Shared Event World}
    (hv : Resolved row none v) :
    charges.holds i (ObjectsService.uploadPart N (BucketsService.toItem row).toBucketContext uploadId
      partNumber stream contentMd5 declaredLength maxBytes) (fun _ _ => True) (fun _ _ => True) v := by
  rw [ObjectsService.uploadPart, Protocol.holds_bind]
  refine Protocol.holds_mono (requireUpload_holds uploadId hv) ?_ fun _ _ _ => trivial
  intro u v₁ hv₁
  rw [Protocol.holds_bind, Protocol.holds_require]
  refine ⟨fun _ => ?_, fun _ => trivial⟩
  rw [Protocol.holds_bind, assertWithinMaxBytes, Protocol.holds_require]
  refine ⟨fun _ => ?_, fun _ => trivial⟩
  rw [Protocol.holds_bind]
  refine Protocol.holds_mono (offTables_holds (assertQuota_offTables (N := N) _ _) hv₁) ?_
    fun _ _ _ => trivial
  intro _ v₂ hv₂
  rw [Protocol.holds_bind]
  refine Protocol.holds_mono (offTables_holds (write_offTables _ _) hv₂) ?_ fun _ _ _ => trivial
  intro written v₃ hv₃
  rw [Protocol.holds_bind]
  refine Protocol.holds_mono (checkWritten_holds _ written hv₃) ?_ fun _ _ _ => trivial
  intro _ v₄ hv₄
  rw [Protocol.holds_bind]
  refine Protocol.holds_mono (findPart_holds u.guid partNumber hv₄) ?_ fun _ _ _ => trivial
  intro previous v₅ hv₅
  rw [Protocol.holds_bind]
  refine Protocol.holds_mono (storePart_holds hv₅) ?_ fun _ _ _ => trivial
  intro _ v₆ _
  exact rest_holds (.bind (deleteBlobs_offTables (N := N) _) fun _ => .pure _) v₆

theorem getByName_holds (name : Text) (v : Shared Event World) :
    charges.holds i (BucketsService.getByName name)
      (fun bucket v' => ∃ row, bucket = BucketsService.toItem row ∧ Resolved row none v')
      (fun _ _ => True) v := by
  rw [BucketsService.getByName, Protocol.holds_bind, World.select, Program.query, Protocol.holds_observe]
  intro v₁ _ hinv _
  obtain ⟨hguar, hinv'⟩ := read_step (i := i) hinv none
  refine ⟨hguar, hinv', ?_⟩
  beta_reduce
  rw [Protocol.holds_bind, Protocol.holds_orThrow]
  refine ⟨fun row hrow => ?_, fun _ => trivial⟩
  obtain ⟨hmem, -, hlive⟩ := BucketsService.findBucket_eq_some hrow
  exact ⟨row, rfl, hmem, hlive, by simp⟩

/-- **Every request charges what it checked.** -/
theorem program_holds (r : StoreRequest) (v : Shared Event World) :
    charges.holds i (r.program N) (fun _ _ => True) (fun _ _ => True) v := by
  cases r with
  | put bucket params =>
    rw [StoreRequest.program, Protocol.holds_bind]
    refine Protocol.holds_mono (getByName_holds bucket v) ?_ fun _ _ _ => trivial
    rintro _ v₁ ⟨row, rfl, hv₁⟩
    rw [Protocol.holds_bind]
    exact Protocol.holds_mono (put_holds params hv₁) (fun _ _ _ => trivial) fun _ _ _ => trivial
  | copy source bucket key directive accessKeyId headers =>
    rw [StoreRequest.program, Protocol.holds_bind]
    refine Protocol.holds_mono (getByName_holds bucket v) ?_ fun _ _ _ => trivial
    rintro _ v₁ ⟨row, rfl, hv₁⟩
    rw [Protocol.holds_bind]
    exact Protocol.holds_mono (copy_holds source key directive accessKeyId headers hv₁)
      (fun _ _ _ => trivial) fun _ _ _ => trivial
  | uploadPart bucket uploadId partNumber stream contentMd5 declaredLength maxBytes =>
    rw [StoreRequest.program, Protocol.holds_bind]
    refine Protocol.holds_mono (getByName_holds bucket v) ?_ fun _ _ _ => trivial
    rintro _ v₁ ⟨row, rfl, hv₁⟩
    rw [Protocol.holds_bind]
    exact Protocol.holds_mono
      (uploadPart_holds uploadId partNumber stream contentMd5 declaredLength maxBytes hv₁)
      (fun _ _ _ => trivial) fun _ _ _ => trivial

/-! ## All requests together -/

/-- **Quotas hold on every schedule on which what is charged was checked**: nothing was charged to the
bucket or the owner since the request read their usage, or there is still room. -/
theorem within_quotas {w : World} (hw : Integrity w) (husers : (w.db.users.map (·.guid)).Nodup)
    (hquotas : WithinQuotas w.db) (schedule : List (Move StoreRequest))
    (hpermitted : (⟨⟨w, []⟩, []⟩ : Pool _ _ _ _ _).Permitted (StoreRequest.program N) ChecksValid
      schedule) :
    WithinQuotas ((⟨⟨w, []⟩, []⟩ : Pool _ _ _ _ _).run (StoreRequest.program N) schedule).state.db :=
  (Protocol.sound (P := charges) (fun r _ v _ _ => program_holds r v)
    (.of_idle (v := ⟨w, []⟩) ⟨hw, husers, hquotas⟩ rfl) hpermitted).inv.2.2

/-! ## A quota exceeded -/

def smallBucket : BucketRow where
  guid := 1
  name := "photos".toList
  ownerUserGuid := "user-1".toList
  quotaBytes := some 3

def smallWorld : World where
  db := { users := [{ guid := "user-1".toList, quotaBytes := some 4 }], buckets := [smallBucket] }
  encryption := ⟨false, []⟩
  calls := 2

def smallPool : Pool StoreRequest Event Fault World Unit := ⟨⟨smallWorld, []⟩, []⟩

/-- Two bytes for a key. -/
def putTwo (key : Char) : StoreRequest :=
  .put "photos".toList {
    bucket := (BucketsService.toItem smallBucket).toBucketContext
    key := [key]
    stream := ⟨[[1, 2]], false⟩ }

/-- Both requests check before either commits. -/
def bothChecked : List (Move StoreRequest) :=
  [.start (putTwo 'a'), .start (putTwo 'b')] ++ List.replicate 10 (.advance 0) ++
    List.replicate 11 (.advance 1) ++ [.advance 0]

/-- **Two writes that both fit alone exceed the quota together.** -/
theorem quota_exceeded : WithinQuotas smallWorld.db ∧
    ¬ WithinQuotas (smallPool.run (StoreRequest.program Node.counting) bothChecked).state.db := by
  decide

theorem integrity_smallWorld : Integrity smallWorld :=
  ⟨by decide, by decide, by decide, by decide, by decide, by decide, by decide⟩

/-- One after the other, the second write is refused. -/
theorem within_quotas_inTurn : WithinQuotas (smallPool.run (StoreRequest.program Node.counting)
    ([.start (putTwo 'a'), .start (putTwo 'b')] ++ List.replicate 11 (.advance 0) ++
      List.replicate 11 (.advance 1))).state.db :=
  within_quotas integrity_smallWorld (by decide) (by decide) _ (by decide)

end UsageService
end SimpleStorage
