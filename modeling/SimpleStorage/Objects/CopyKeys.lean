import SimpleStorage.Library.Relay
import SimpleStorage.Objects.UploadOperations

/-!
# Copying keys

`copyKeys` lists the keys under a folder once and copies them one after the other, reading each when
its turn comes.  Where source and target overlap, a destination can be a source whose turn is still to
come, and what is copied from there is not what was there when the call was made.

* `served`: what an unqualified read of a key returns.
* `copyEach_spec`: the loop relays what is served.
* `copiesExactly_iff`: when a copy is that of the live source keys as they were, and reports how many
  they are.
-/

namespace SimpleStorage
namespace ObjectsService

open ObjectsTypes Program Statements StorageService Relay

variable (N : Node)

/-! ## What is served -/

/-- **What an unqualified read returns**, if there is a version and it is no delete marker. -/
def served (w : World) (k : BucketKey) : Option Bytes :=
  match readObject N k.1 k.2 none w with
  | .ok result _ => result.2
  | .error _ _ => none

variable {N}

/-- It is the payload of the newest version. -/
theorem served_eq {w : World} (hw : Inv N w) (k : BucketKey) :
    served N w k = (versions N w k).head?.bind (·.payload) := by
  have hread := readObject_spec hw k.1 k.2 none
  rw [show Query.present (none : Option Text) = none from rfl, VersionedMap.lookup] at hread
  rw [served]
  cases hs : (versions N w k).head? with
  | none =>
    rw [hs] at hread
    rw [hread]
    rfl
  | some s =>
    rw [hs] at hread
    obtain ⟨detail, hrun, -⟩ := hread
    rw [hrun]
    rfl

theorem served_congr {w w' : World} (hw : Inv N w) (hw' : Inv N w') {k : BucketKey}
    (h : versions N w' k = versions N w k) : served N w' k = served N w k := by
  rw [served_eq hw, served_eq hw', h]

/-! ## The keys of a call -/

/-- A source key that ends in `/` stands for a folder. -/
def isFolder (sourceKey : Text) : Bool := folderSuffix.isSuffixOf sourceKey

/-- The keys a call copies. -/
def sourceKeys (bucketGuid : Guid) (sourceKey : Text) (db : Database) : List Text :=
  if isFolder sourceKey then keysUnder bucketGuid sourceKey db else [sourceKey]

/-- Where a key goes. -/
def destination (sourceKey targetKey : Text) : Text → Text :=
  destinationOf (isFolder sourceKey) sourceKey
    (if isFolder sourceKey ∧ ¬ folderSuffix <:+ targetKey then targetKey ++ folderSuffix else targetKey)

theorem mem_keysUnder {bucketGuid : Guid} {pre key : Text} {db : Database} :
    key ∈ keysUnder bucketGuid pre db ↔
      pre <+: key ∧ ∃ o ∈ db.objects, o.bucketGuid = bucketGuid ∧ o.key = key := by
  rw [keysUnder, List.mem_insertionSort, List.mem_map]
  constructor
  · rintro ⟨o, ho, rfl⟩
    obtain ⟨ho, hscope⟩ := List.mem_filter.mp ho
    rw [Bool.and_eq_true, decide_eq_true_iff, Query.likePrefix_iff] at hscope
    exact ⟨hscope.2, o, ho, hscope.1, rfl⟩
  · rintro ⟨hpre, o, ho, hbucket, rfl⟩
    refine ⟨o, List.mem_filter.mpr ⟨ho, ?_⟩, rfl⟩
    rw [Bool.and_eq_true, decide_eq_true_iff, Query.likePrefix_iff]
    exact ⟨hbucket, hpre⟩

theorem nodup_keysUnder {db : Database} (hdb : db.Constraints) (bucketGuid : Guid) (pre : Text) :
    (keysUnder bucketGuid pre db).Nodup := by
  rw [keysUnder, (List.perm_insertionSort _ _).nodup_iff]
  refine List.Nodup.map_on ?_ ((List.Nodup.of_map _ hdb.object_guid).filter _)
  intro o ho p hp hkey
  obtain ⟨ho, hbucket⟩ := List.mem_filter.mp ho
  obtain ⟨hp, hbucket'⟩ := List.mem_filter.mp hp
  rw [Bool.and_eq_true, decide_eq_true_iff] at hbucket hbucket'
  exact List.inj_on_of_nodup_map hdb.object_key ho hp
    (Prod.ext (hbucket.1.trans hbucket'.1.symm) hkey)

/-- Different keys have different destinations. -/
theorem nodup_destinations {db : Database} (hdb : db.Constraints) (source target : Guid)
    (sourceKey targetKey : Text) :
    ((sourceKeys source sourceKey db).map fun key => (target, destination sourceKey targetKey key)).Nodup := by
  rw [sourceKeys]
  split_ifs with hfolder
  · refine (nodup_keysUnder hdb source sourceKey).map_on fun key hkey key' hkey' h => ?_
    obtain ⟨⟨rest, rfl⟩, -⟩ := mem_keysUnder.mp hkey
    obtain ⟨⟨rest', rfl⟩, -⟩ := mem_keysUnder.mp hkey'
    have hrest := (Prod.mk.inj h).2
    rw [destination, destinationOf, destinationOf, if_pos hfolder, if_pos hfolder,
      List.drop_left, List.drop_left] at hrest
    rw [List.append_cancel_left hrest]
  · exact List.nodup_singleton _

/-! ## The loop -/

section Loop

variable (N) (source target : Guid) (f : Text → Text)

/-- What is served once some keys were copied. -/
def relayed (keys : List Text) : (BucketKey → Option Bytes) → BucketKey → Option Bytes :=
  relay (fun key => (source, key)) (fun key => (target, f key)) keys

/-- **What copying some keys did.** -/
structure CopiesKeys (keys : List Text) (w w' : World) : Prop where
  inv : Inv N w'
  served : served N w' = relayed source target f keys (served N w)
  versions : ∀ k, (∀ key ∈ keys, (target, f key) ≠ k) → versions N w' k = versions N w k
  pending : pending N w' = pending N w
  buckets : w'.db.buckets = w.db.buckets
  encryption : w'.encryption = w.encryption
  calls_ge : w.calls ≤ w'.calls
  calls_le : w'.calls ≤ w.calls + callsPerRequest * keys.length

end Loop

section Steps

variable {source target : BucketContext} {f : Text → Text} {keys : List Text} {w w₁ w' : World}

theorem copiesKeys_nil (hw : Inv N w) : CopiesKeys N source.guid target.guid f [] w w where
  inv := hw
  served := rfl
  versions := fun _ _ => rfl
  pending := rfl
  buckets := rfl
  encryption := rfl
  calls_ge := le_rfl
  calls_le := le_rfl

variable (h : CopiesKeys N source.guid target.guid f keys w w₁)
include h

/-- A key that serves nothing is passed over. -/
theorem CopiesKeys.skip {key : Text} (hnone : ObjectsService.served N w₁ (source.guid, key) = none) :
    CopiesKeys N source.guid target.guid f (keys ++ [key]) w w₁ where
  inv := h.inv
  served := by
    rw [relayed, relay_concat, relayOne_of_none]
    · exact h.served
    · rw [h.served] at hnone
      exact hnone
  versions := fun k hk => h.versions k fun l hl => hk l (List.mem_append_left _ hl)
  pending := h.pending
  buckets := h.buckets
  encryption := h.encryption
  calls_ge := h.calls_ge
  calls_le := by
    have hcalls := h.calls_le
    rw [List.length_append, List.length_singleton, Nat.mul_add]
    omega

/-- A key that serves something is copied. -/
theorem CopiesKeys.write {key : Text} {v : StoredVersion} {replace : Bool} {content : Bytes}
    (hcontent : ObjectsService.served N w₁ (source.guid, key) = some content) (hv : v.payload = some content)
    (heffect : Effect N w₁ w' (VersionedMap.write (·.versionId) replace (target.guid, f key) v
      (ObjectsService.versions N w₁)) (ObjectsService.pending N w₁)) :
    CopiesKeys N source.guid target.guid f (keys ++ [key]) w w' where
  inv := heffect.inv
  served := by
    rw [relayed, relay_concat, relayOne_of_some (b := content) (by rw [h.served] at hcontent; exact hcontent)]
    funext k
    by_cases hk : k = (target.guid, f key)
    · rw [hk, Function.update_self, served_eq heffect.inv, heffect.versions, VersionedMap.write,
        Function.update_self, List.head?_cons, Option.bind_some, hv]
    · rw [Function.update_of_ne hk]
      refine (served_congr h.inv heffect.inv ?_).trans (congrFun h.served k)
      rw [heffect.versions, VersionedMap.write_of_ne hk]
  versions := fun k hk => by
    have hne : k ≠ (target.guid, f key) := (hk key (List.mem_append_right _ (List.mem_singleton_self key))).symm
    rw [heffect.versions, VersionedMap.write_of_ne hne]
    exact h.versions k fun l hl => hk l (List.mem_append_left _ hl)
  pending := heffect.pending.trans h.pending
  buckets := heffect.buckets.trans h.buckets
  encryption := heffect.encryption.trans h.encryption
  calls_ge := h.calls_ge.trans heffect.calls_ge
  calls_le := by
    have hcalls := h.calls_le
    have hcalls' := heffect.calls_le
    rw [List.length_append, List.length_singleton, Nat.mul_add]
    omega

end Steps

/-- **The loop relays what is served**, if it comes to an end. -/
theorem copyEach_spec {w : World} (hw : Inv N w) (source target : BucketContext)
    (accessKeyId : Option Text) (f : Text → Text) (keys : List Text)
    (hdistinct : N.Distinct (w.calls + callsPerRequest * keys.length)) :
    wp (copyEach N source target accessKeyId f keys)
      (fun _ w' => CopiesKeys N source.guid target.guid f keys w w') (fun _ _ => True) w := by
  refine wp_mono (wp_forM (fun rest w₁ => ∃ past, past ++ rest = keys ∧
      CopiesKeys N source.guid target.guid f past w w₁) ?_ ⟨[], rfl, copiesKeys_nil hw⟩) ?_ fun _ _ h => h
  swap
  · rintro _ w' ⟨past, hpast, hcopied⟩
    rw [← hpast, List.append_nil]
    exact hcopied
  rintro key rest w₁ ⟨past, rfl, hcopied⟩
  have hdistinct₁ : N.Distinct (w₁.calls + 7) := by
    have hcalls := hcopied.calls_le
    refine hdistinct.mono ?_
    rw [List.length_append, List.length_cons, Nat.mul_add, Nat.mul_succ]
    simp only [callsPerRequest] at hcalls ⊢
    omega
  have hnext : past ++ [key] ++ rest = past ++ key :: rest := by
    rw [List.append_assoc, List.singleton_append]
  have hget := getVersion_spec hcopied.inv source.guid key none
  rw [show Query.present (none : Option Text) = none from rfl, VersionedMap.lookup] at hget
  have hserved := served_eq hcopied.inv (source.guid, key)
  rw [wp_bind]
  cases hs : (versions N w₁ (source.guid, key)).head? with
  | none =>
    rw [hs] at hget
    rw [wp, hget]
    trivial
  | some s =>
    rw [hs] at hget hserved
    obtain ⟨detail, hrun, hshows⟩ := hget
    rw [wp, hrun]
    dsimp only
    rw [wp_ite, hshows.isDeleteMarker]
    split_ifs with hmarker
    · refine ⟨past ++ [key], hnext, hcopied.skip ?_⟩
      rw [hserved]
      exact Option.isNone_iff_eq_none.mp hmarker
    · rw [wp_bind]
      refine wp_mono (copy_spec hcopied.inv hdistinct₁ hshows target (f key) .copy accessKeyId {}) ?_
        fun _ _ _ => trivial
      rintro r w' ⟨content, hcontent, heffect, -⟩
      exact ⟨past ++ [key], hnext, hcopied.write (hserved.trans hcontent) rfl heffect⟩

/-! ## The call -/

/-- The keys of a call that passes its checks are copied, and deleted if they are moved. -/
theorem wp_copyKeys {w : World} {source target : BucketContext} {sourceKey targetKey : Text} {move : Bool}
    {accessKeyId : Option Text} {post : ℕ → World → Prop} {fail : Fault → World → Prop}
    (hfail : ∀ e, fail e w)
    (h : sourceKeys source.guid sourceKey w.db ≠ [] →
      ¬ (source.guid = target.guid ∧ sourceKey = targetKey) → wp (do
        copyEach N source target accessKeyId (destination sourceKey targetKey)
          (sourceKeys source.guid sourceKey w.db)
        if move then
          let _ ← deleteMany N source accessKeyId ((sourceKeys source.guid sourceKey w.db).map fun key => { key })
        return (sourceKeys source.guid sourceKey w.db).length) post fail w) :
    wp (copyKeys N source target sourceKey targetKey move accessKeyId) post fail w := by
  rw [copyKeys, wp_bind, wp_require]
  refine ⟨fun _ => ?_, fun _ => hfail _⟩
  rw [wp_bind, wp_require]
  refine ⟨fun hdifferent => ?_, fun _ => hfail _⟩
  dsimp only
  rw [wp_bind, wp_require]
  refine ⟨fun _ => ?_, fun _ => hfail _⟩
  rw [wp_ite]
  by_cases hfolder : folderSuffix.isSuffixOf sourceKey = true
  · have hkeys : sourceKeys source.guid sourceKey w.db = keysUnder source.guid sourceKey w.db := if_pos hfolder
    rw [hkeys] at h
    rw [if_pos hfolder, wp_bind, World.select, wp_query, wp_bind, wp_require]
    exact ⟨fun hne => h hne hdifferent, fun _ => hfail _⟩
  · have hkeys : sourceKeys source.guid sourceKey w.db = [sourceKey] := if_neg hfolder
    rw [hkeys] at h
    rw [if_neg hfolder, wp_bind, wp_pure, wp_bind, wp_require]
    exact ⟨fun hne => h hne hdifferent, fun _ => hfail _⟩

/-- **A call that returns has copied its keys**, and counts them all. -/
theorem copyKeys_spec {w : World} (hw : Inv N w) (source target : BucketContext) (sourceKey targetKey : Text)
    (accessKeyId : Option Text)
    (hdistinct : N.Distinct (w.calls + callsPerRequest * (sourceKeys source.guid sourceKey w.db).length)) :
    wp (copyKeys N source target sourceKey targetKey false accessKeyId)
      (fun count w' => count = (sourceKeys source.guid sourceKey w.db).length ∧
        CopiesKeys N source.guid target.guid (destination sourceKey targetKey)
          (sourceKeys source.guid sourceKey w.db) w w') (fun _ _ => True) w := by
  refine wp_copyKeys (fun _ => trivial) fun _ _ => ?_
  rw [wp_bind]
  refine wp_mono (copyEach_spec hw source target accessKeyId (destination sourceKey targetKey) _ hdistinct) ?_
    fun _ _ h => h
  exact fun _ w' hcopied => ⟨rfl, hcopied⟩

/-! ## Exact copies -/

variable (N) in
/-- **A copy of the live source keys as they were**, and of nothing else. -/
structure CopiesExactly (source target : Guid) (sourceKey targetKey : Text) (w w' : World) (count : ℕ) :
    Prop where
  copied : ∀ key ∈ sourceKeys source sourceKey w.db, ∀ content, served N w (source, key) = some content →
    served N w' (target, destination sourceKey targetKey key) = some content
  unchanged : ∀ k, (∀ key ∈ sourceKeys source sourceKey w.db, (served N w (source, key)).isSome →
    (target, destination sourceKey targetKey key) ≠ k) → versions N w' k = versions N w k
  pending : pending N w' = pending N w
  buckets : w'.db.buckets = w.db.buckets
  count : count = ((sourceKeys source sourceKey w.db).filter fun key => (served N w (source, key)).isSome).length

/-- **When copying keys copies exactly the live ones**: if all of them are live, and none is copied to
a later one with other contents. -/
theorem copiesExactly_iff {w w' : World} (hw : Inv N w) {source target : BucketContext}
    {sourceKey targetKey : Text} {accessKeyId : Option Text} {count : ℕ}
    (hdistinct : N.Distinct (w.calls + callsPerRequest * (sourceKeys source.guid sourceKey w.db).length))
    (hcall : copyKeys N source target sourceKey targetKey false accessKeyId w = .ok count w') :
    CopiesExactly N source.guid target.guid sourceKey targetKey w w' count ↔
      (∀ key ∈ sourceKeys source.guid sourceKey w.db, (served N w (source.guid, key)).isSome = true) ∧
      (sourceKeys source.guid sourceKey w.db).Pairwise fun key later =>
        (target.guid, destination sourceKey targetKey key) = (source.guid, later) →
          served N w (source.guid, key) = served N w (source.guid, later) := by
  obtain ⟨hcount, hcopied⟩ := wp_of_ok hcall (copyKeys_spec hw source target sourceKey targetKey accessKeyId hdistinct)
  have hnodup := nodup_destinations hw.tables.toConstraints source.guid target.guid sourceKey targetKey
  have hserved : ∀ k, served N w' k = relay (fun key => (source.guid, key))
      (fun key => (target.guid, destination sourceKey targetKey key))
      (sourceKeys source.guid sourceKey w.db) (served N w) k := congrFun hcopied.served
  constructor
  · intro h
    have hlive : ∀ key ∈ sourceKeys source.guid sourceKey w.db, (served N w (source.guid, key)).isSome = true :=
      List.length_filter_eq_length_iff.mp (h.count.symm.trans hcount)
    refine ⟨hlive, (relay_exact_iff hnodup hlive).mp fun key hkey => ?_⟩
    obtain ⟨content, hcontent⟩ := Option.isSome_iff_exists.mp (hlive key hkey)
    rw [← hserved, h.copied key hkey content hcontent, hcontent]
  · rintro ⟨hlive, hpairs⟩
    refine ⟨fun key hkey content hcontent => ?_, fun k hk => ?_, hcopied.pending, hcopied.buckets, ?_⟩
    · rw [hserved, (relay_exact_iff hnodup hlive).mpr hpairs key hkey, hcontent]
    · exact hcopied.versions k fun key hkey => hk key hkey (hlive key hkey)
    · exact hcount.trans (List.length_filter_eq_length_iff.mpr hlive).symm

/-! ## A folder in a folder of the same name -/

def travels : BucketContext := { guid := 0, ownerUserGuid := [], quotaBytes := none, versioning := .disabled }

def innerFile : PutObjectParams :=
  { bucket := travels, key := "a/b/b/x".toList, stream := ⟨[[1]], false⟩ }

/-- This is where the inner file goes. -/
def outerFile : PutObjectParams :=
  { bucket := travels, key := "a/b/x".toList, stream := ⟨[[2]], false⟩ }

def bareStore : World := { db := {}, encryption := ⟨false, []⟩ }

def nestedStore : World := runAll (put Node.counting) [innerFile, outerFile] bareStore

/-- How a run ends that returns. -/
theorem run_of_outcome {α : Type} {x : Service α} {a : α} {w : World} (h : outcome x w = .ok a) :
    x w = .ok a (stateAfter x w) := by
  rw [outcome] at h
  rw [stateAfter]
  cases hx : x w with
  | ok b w' =>
    rw [hx] at h
    obtain rfl := Except.ok.inj h
    rfl
  | error e w' =>
    rw [hx] at h
    cases h

/-- **Copying `a/b/` to `a/`** gives `a/x` the contents of `a/b/b/x`, which were copied to `a/b/x` first. -/
theorem copied_twice : ¬ ∀ (requests : List PutObjectParams) (sourceKey targetKey : Text) (count : ℕ) (w' : World),
    copyKeys Node.counting travels travels sourceKey targetKey false none
      (runAll (put Node.counting) requests bareStore) = .ok count w' →
    CopiesExactly Node.counting 0 0 sourceKey targetKey (runAll (put Node.counting) requests bareStore) w'
      count := by
  intro h
  have hexact := h [innerFile, outerFile] "a/b/".toList "a/".toList 2 _ (run_of_outcome (by decide +kernel))
  have hserved := hexact.copied "a/b/x".toList (by decide +kernel) [2] (by decide +kernel)
  exact absurd hserved (by decide +kernel)

theorem inv_nestedStore : Inv Node.counting nestedStore := by
  have hput : ∀ params w, Inv Node.counting w → w.calls + 7 ≤ 256 →
      Inv Node.counting (stateAfter (put Node.counting params) w) := fun params w hw hcalls =>
    stateAfter_of_wp (wp_mono (put_spec params hw (Node.distinct_counting.mono hcalls))
      (fun _ _ h => h.1.inv) fun _ _ h => h.1.inv)
  have hinner := hput innerFile bareStore (Inv.of_empty ⟨rfl, rfl, rfl, rfl⟩) (by decide)
  exact hput outerFile _ hinner (by decide +kernel)

/-- Copied to another folder, each arrives. -/
theorem copiesExactly_apart : ∃ w', copyKeys Node.counting travels travels "a/b/".toList "c".toList false none
      nestedStore = .ok 2 w' ∧
    CopiesExactly Node.counting 0 0 "a/b/".toList "c".toList nestedStore w' 2 := by
  have hrun := run_of_outcome (x := copyKeys Node.counting travels travels "a/b/".toList "c".toList false none)
    (w := nestedStore) (a := 2) (by decide +kernel)
  exact ⟨_, hrun, (copiesExactly_iff inv_nestedStore (Node.distinct_counting.mono (by decide +kernel)) hrun).mpr
    ⟨by decide +kernel, by decide +kernel⟩⟩

end ObjectsService
end SimpleStorage
