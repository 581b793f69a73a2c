import SimpleStorage.Api.Mediation

/-!
# Where permissions come from, and what they show

* `permission_traced`: whoever may do something on a bucket owns it, or was granted it, by a chain of
  grants that begins with the owner or an admin.
* `list_opens`: both endpoints list for a user the buckets he can open with some permission.
-/

namespace SimpleStorage
namespace Access

open AuthTypes BucketsService Delegation Program

/-! ## Chains of grants -/

/-- **How permissions on a bucket are passed on.**  The owner and admins need no grant to do so. -/
def rightsOn (b : Guid) : Rights World Request UserGuid BucketPermission where
  holds w userGuid permission := Granted w.db b userGuid permission
  grants w r userGuid permission := (b, userGuid, permission) ∈ granting w r
  actor
    | .setGrant _ _ _ user => user.guid
    | _ => []
  root w r := ∃ bucketName userGuid permissions user,
    r = .setGrant bucketName userGuid permissions user ∧ (user.role = .admin ∨
      ∃ row, findBucketByGuid b w.db = some row ∧ row.ownerUserGuid = user.guid)
  pass := .manage

theorem findBucketByGuid_mem {b : Guid} {row : BucketRow} {db : Database}
    (h : findBucketByGuid b db = some row) : row ∈ db.buckets ∧ row.guid = b := by
  have hguid := List.find?_some h
  rw [Bool.and_eq_true, decide_eq_true_iff] at hguid
  exact ⟨List.mem_of_find?_eq_some h, hguid.1⟩

/-- Who grants something may manage the bucket. -/
theorem grantor_of_granting {w : World} {r : Request} {b : Guid} {userGuid : UserGuid}
    {permission : BucketPermission} (h : (b, userGuid, permission) ∈ granting w r) :
    (rightsOn b).root w r ∨ Granted w.db b ((rightsOn b).actor r) .manage := by
  obtain ⟨bucketName, permissions, user, row, rfl, -, hrow, -, hadmin | howner | hgranted⟩ := h
  · exact .inl ⟨_, _, _, user, rfl, .inl hadmin⟩
  · exact .inl ⟨_, _, _, user, rfl, .inr ⟨row, hrow, howner⟩⟩
  · have hguid : row.guid = b := (findBucketByGuid_mem hrow).2
    subst hguid
    exact .inr hgranted

section Runs

variable (D : Retention.Deployment) {w w₀ : World}

/-- Nobody takes a bucket away from its owner. -/
theorem runAll_owners (hw : Tables w) (requests : List Request) :
    ∀ row ∈ w.db.buckets, ∃ row' ∈ (runAll (Request.program D) requests w).db.buckets,
      row'.guid = row.guid ∧ row'.ownerUserGuid = row.ownerUserGuid := by
  induction requests generalizing w with
  | nil => exact fun row hrow => ⟨row, hrow, rfl, rfl⟩
  | cons r requests ih =>
    intro row hrow
    have htouches := request_touches D hw r
    obtain ⟨row', hrow', hguid, howner⟩ := htouches.owners row hrow
    obtain ⟨row'', hrow'', hguid', howner'⟩ := ih (htouches.tables hw) row' hrow'
    exact ⟨row'', hrow'', hguid'.trans hguid, howner'.trans howner⟩

theorem granted_traced (h₀ : Pristine w₀) {past : List Request} {b : Guid} {userGuid : UserGuid}
    {permission : BucketPermission}
    (h : Granted (runAll (Request.program D) past w₀).db b userGuid permission) :
    Traced (Request.program D) (rightsOn b) w₀ past userGuid permission := by
  refine traced_of_holds (R := rightsOn b) (Request.program D)
    (fun s r (hs : Tables s) => (request_touches D hs r).tables hs) ?_ h₀.tables ?_ h
  · intro s r userGuid permission hs hnot hgranted
    have hgranting := ((request_touches D hs r).granted b userGuid permission hgranted).resolve_left hnot
    exact ⟨hgranting, grantor_of_granting hgranting⟩
  · rintro userGuid permission ⟨grant, hfound, -⟩
    rw [findGrant_eq, h₀.bucketAccess] at hfound
    cases hfound

/-- **Every permission goes back to the owner or an admin.**  After any run of requests to both
endpoints, in a deployment that began without buckets: who is not an admin and may do something on
a bucket owns it, or was granted it in the run and has held it ever since; and who granted it was an
admin, the owner, or somebody whose own right to manage the bucket had been granted before in the
same way.  The owner is who he was all along. -/
theorem permission_traced (h₀ : Pristine w₀) (past : List Request) {b : Guid} {row : BucketRow}
    (hrow : findBucketByGuid b (runAll (Request.program D) past w₀).db = some row) :
    (∀ userGuid permission,
      Permitted row userGuid .user permission (runAll (Request.program D) past w₀).db →
        row.ownerUserGuid = userGuid ∨
          Traced (Request.program D) (rightsOn b) w₀ past userGuid permission) ∧
    ∀ before after, past = before ++ after → ∀ row',
      findBucketByGuid b (runAll (Request.program D) before w₀).db = some row' →
        row'.ownerUserGuid = row.ownerUserGuid := by
  obtain ⟨hmem, hguid⟩ := findBucketByGuid_mem hrow
  refine ⟨fun userGuid permission hpermitted => ?_, fun before after hpast row' hrow' => ?_⟩
  · rcases permitted_iff.mp hpermitted with hadmin | howner | hgranted
    · cases hadmin
    · exact .inl howner
    · rw [hguid] at hgranted
      exact .inr (granted_traced D h₀ hgranted)
  · subst hpast
    obtain ⟨hmem', hguid'⟩ := findBucketByGuid_mem hrow'
    rw [runAll_append] at hmem
    obtain ⟨row'', hrow'', hguid'', howner''⟩ :=
      runAll_owners D (runAll_tables D h₀.tables before) after row' hmem'
    have hkeys := runAll_tables D (runAll_tables D h₀.tables before) after
    rw [← howner'', List.inj_on_of_nodup_map hkeys.guid hrow'' hmem
      (hguid''.trans (hguid'.trans hguid.symm))]

/-! ## The buckets a user sees -/

/-- A user opens the bucket of a name exactly if it is there and he has the permission. -/
theorem getForUser_ok_iff (hw : BucketKeys w) {name : Text} {userGuid : UserGuid} {role : UserRole}
    {permission : BucketPermission} {item : BucketsTypes.BucketItem} :
    getForUser name userGuid role permission w = .ok item w ↔
      ∃ row, findBucket name w.db = some row ∧ item = toItem row ∧
        Permitted row userGuid role permission w.db := by
  have hspec := getForUser_permitted hw.guid name userGuid role permission
  cases hrun : getForUser name userGuid role permission w with
  | ok bucket w' =>
    obtain ⟨rfl, row, hrow, rfl, hpermitted⟩ := wp_of_ok hrun hspec
    constructor
    · intro h
      cases h
      exact ⟨row, hrow, rfl, hpermitted⟩
    · rintro ⟨row', hrow', rfl, -⟩
      rw [hrow] at hrow'
      rw [Option.some.inj hrow']
  | error e w' =>
    obtain ⟨rfl, hcases⟩ := wp_of_error hrun hspec
    refine iff_of_false (fun h => by cases h) ?_
    rintro ⟨row', hrow', -, hpermitted⟩
    rcases hcases with ⟨-, hnone⟩ | ⟨row, hrow, hnot, -⟩
    · rw [hrow'] at hnone
      cases hnone
    · rw [hrow'] at hrow
      obtain rfl := Option.some.inj hrow
      exact hnot hpermitted

/-- What a list of buckets has to show a user. -/
structure Opens (userGuid : UserGuid) (role : UserRole) (w : World) (items : List BucketsTypes.BucketItem) :
    Prop where
  names_nodup : (items.map (·.name)).Nodup
  mem_iff : ∀ item, item ∈ items ↔
    ∃ permission, getForUser item.name userGuid role permission w = .ok item w

theorem listForUser_opens (hw : BucketKeys w) (userGuid : UserGuid) (role : UserRole) :
    ∃ items, listForUser userGuid role w = .ok items w ∧ Opens userGuid role w items := by
  have hspec := listForUser_spec hw userGuid role
  cases hrun : listForUser userGuid role w with
  | error e w' => exact (wp_of_error hrun hspec).elim
  | ok items w' =>
    obtain ⟨rfl, rows, rfl, hrows, hmem⟩ := wp_of_ok hrun hspec
    refine ⟨_, rfl, ?_, fun item => ?_⟩
    · rw [List.map_map]
      exact (hrows.map (fun row : BucketRow => row.name)).nodup hw.name
    · rw [List.mem_map]
      constructor
      · rintro ⟨row, hrow, rfl⟩
        obtain ⟨hlive, permission, hpermitted⟩ := (hmem row).mp hrow
        exact ⟨permission, (getForUser_ok_iff hw).mpr
          ⟨row, findBucket_of_live hw hlive, rfl, hpermitted⟩⟩
      · rintro ⟨permission, hopened⟩
        obtain ⟨row, hrow, hitem, hpermitted⟩ := (getForUser_ok_iff hw).mp hopened
        obtain ⟨hrowMem, -, hlive⟩ := findBucket_eq_some hrow
        refine ⟨row, (hmem row).mpr ⟨List.mem_filter.mpr ⟨hrowMem, ?_⟩, permission, hpermitted⟩, hitem.symm⟩
        rw [hlive]
        rfl

/-- **The lists of buckets show what can be opened.**  After any run of requests, the management API
lists for a user exactly the buckets he can open with some permission, each once; and the S3
endpoint lists for an access key exactly those its user could open if he were no admin. -/
theorem list_opens (h₀ : Pristine w₀) (past : List Request) :
    (∀ user : Identity, ∃ items,
      BucketsController.list user (runAll (Request.program D) past w₀) =
        .ok items (runAll (Request.program D) past w₀) ∧
      Opens user.guid user.role (runAll (Request.program D) past w₀) items) ∧
    ∀ identity : S3Types.RequestIdentity, identity.anonymous = false → ∃ items,
      S3ServiceController.listBuckets identity (runAll (Request.program D) past w₀) =
        .ok items (runAll (Request.program D) past w₀) ∧
      Opens identity.userGuid .user (runAll (Request.program D) past w₀) items := by
  have hw := (runAll_tables D h₀.tables past).toBucketKeys
  refine ⟨fun user => listForUser_opens hw user.guid user.role, fun identity hsigned => ?_⟩
  obtain ⟨items, hrun, hopens⟩ := listForUser_opens hw identity.userGuid .user
  refine ⟨items, ?_, hopens⟩
  rw [S3ServiceController.listBuckets, require, if_pos hsigned]
  exact hrun

end Runs

/-! ## A diary that is shared -/

/-- Three users, and no bucket yet. -/
def threeUsers : World where
  db := { users := [⟨"user-1".toList, [], [], .user, .active, none, none, none⟩,
    ⟨"user-2".toList, [], [], .user, .active, none, none, none⟩,
    ⟨"user-3".toList, [], [], .user, .active, none, none, none⟩] }
  encryption := ⟨false, []⟩

/-- The owner lets another user manage the diary, who lets a third one read it. -/
def passedOn : List Request :=
  [.api (.createBucket Retention.diary.name Retention.writer),
    .setGrant Retention.diary.name "user-2".toList [.manage] Retention.writer,
    .setGrant Retention.diary.name "user-3".toList [.read] someone]

theorem threeUsers_pristine : Pristine threeUsers := ⟨⟨rfl, rfl, rfl, rfl⟩, rfl, rfl⟩

/-- The third user's right to read goes back to the owner. -/
theorem permission_traced_passedOn :
    Traced (Request.program Retention.smallDeployment) (rightsOn 0) threeUsers passedOn
      "user-3".toList .read := by
  have hrow : findBucketByGuid 0
      (runAll (Request.program Retention.smallDeployment) passedOn threeUsers).db =
        some Retention.diary := by decide +kernel
  have htraced := (permission_traced Retention.smallDeployment threeUsers_pristine passedOn hrow).1
    "user-3".toList .read
  refine (htraced (.inr (.inr ⟨⟨0, "user-3".toList, [.read]⟩, ?_, ?_⟩))).resolve_left ?_
  · decide +kernel
  · decide +kernel
  · decide +kernel

/-- Each of them is shown the diary, and could open it. -/
theorem list_opens_passedOn :
    ∃ items, BucketsController.list someone
        (runAll (Request.program Retention.smallDeployment) passedOn threeUsers) =
      .ok items (runAll (Request.program Retention.smallDeployment) passedOn threeUsers) ∧
      Opens someone.guid someone.role
        (runAll (Request.program Retention.smallDeployment) passedOn threeUsers) items :=
  (list_opens Retention.smallDeployment threeUsers_pristine passedOn).1 someone

end Access
end SimpleStorage
