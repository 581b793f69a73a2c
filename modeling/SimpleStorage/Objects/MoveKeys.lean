import SimpleStorage.Objects.CopyKeys

/-!
# Moving keys

A move copies the listed keys and then deletes every one of them.  Its guard compares the target key
with the source key, the loop writes under the target with a `/` behind it; so a folder can be moved
onto or into itself, and then what was copied is deleted with the rest.

* `deleteMany_spec`: keys deleted serve nothing, and others what they did.
* `movesAll_iff`: a move loses nothing if and only if it copies no live key to a key it deletes.
-/

namespace SimpleStorage
namespace ObjectsService

open ObjectsTypes Program Statements StorageService Relay

variable {N : Node}

/-! ## Deleting keys -/

variable (N) in
/-- **What deleting some keys did.** -/
structure DeletesKeys (bucketGuid : Guid) (keys : List Text) (w w' : World) : Prop where
  inv : Inv N w'
  gone : ∀ key ∈ keys, served N w' (bucketGuid, key) = none
  kept : ∀ k, (∀ key ∈ keys, (bucketGuid, key) ≠ k) → versions N w' k = versions N w k
  calls_le : w'.calls ≤ w.calls + callsPerRequest * keys.length

theorem delete_key {w : World} (hw : Inv N w) (hdistinct : N.Distinct (w.calls + 2)) (bucket : BucketContext)
    (key : Text) (accessKeyId : Option Text) :
    DeletesKeys N bucket.guid [key] w (stateAfter (delete N bucket key none accessKeyId) w) := by
  have hothers : ∀ {w' : World} {vs : VersionedMap BucketKey StoredVersion},
      Effect N w w' vs (pending N w) → ((vs (bucket.guid, key)).head?.bind (·.payload)) = none →
      (∀ k, (bucket.guid, key) ≠ k → vs k = versions N w k) → DeletesKeys N bucket.guid [key] w w' := by
    intro w' vs heffect hnone hkept
    refine ⟨heffect.inv, fun l hl => ?_, fun k hk => ?_, by simpa using heffect.calls_le⟩
    · rw [List.mem_singleton.mp hl, served_eq heffect.inv, heffect.versions, hnone]
    · rw [heffect.versions, hkept k (hk key (List.mem_singleton_self key))]
  refine stateAfter_of_wp (wp_mono (delete_spec hw hdistinct bucket key none accessKeyId) ?_ ?_)
  · intro r w' hdeleted
    cases hdeleted with
    | absent hk h =>
      refine hothers h ?_ fun _ _ => rfl
      rw [hk]
      rfl
    | version hid => cases hid
    | purged _ _ _ h =>
      refine hothers h ?_ fun k hk => VersionedMap.purge_of_ne hk.symm
      rw [VersionedMap.purge_self]
      rfl
    | marked _ _ _ _ h =>
      refine hothers h ?_ fun k hk => VersionedMap.write_of_ne hk.symm
      rw [VersionedMap.write, Function.update_self]
      rfl
  · rintro e w' ⟨-, -, -, i, hid, -⟩
    cases hid

theorem DeletesKeys.cons {bucketGuid : Guid} {key : Text} {keys : List Text} {w w₁ w' : World}
    (h : DeletesKeys N bucketGuid [key] w w₁) (h' : DeletesKeys N bucketGuid keys w₁ w') :
    DeletesKeys N bucketGuid (key :: keys) w w' where
  inv := h'.inv
  gone := fun l hl => by
    by_cases hkeys : l ∈ keys
    · exact h'.gone l hkeys
    · rw [served_congr h.inv h'.inv (h'.kept _ fun key' hkey' heq => hkeys ?_)]
      · exact h.gone l (by simpa [hkeys] using hl)
      · rwa [← (Prod.mk.inj heq).2]
  kept := fun k hk => (h'.kept k fun l hl => hk l (List.mem_cons_of_mem key hl)).trans
    (h.kept k fun l hl => hk l (List.mem_singleton.mp hl ▸ List.mem_cons_self))
  calls_le := by
    have hcalls := h.calls_le
    have hcalls' := h'.calls_le
    rw [List.length_singleton] at hcalls
    rw [List.length_cons, Nat.mul_succ]
    omega

/-- **Keys deleted serve nothing, and others what they did.** -/
theorem deleteMany_spec {w : World} (hw : Inv N w) (bucket : BucketContext) (accessKeyId : Option Text)
    (keys : List Text) (hdistinct : N.Distinct (w.calls + callsPerRequest * keys.length)) :
    wp (deleteMany N bucket accessKeyId (keys.map fun key => { key }))
      (fun _ w' => DeletesKeys N bucket.guid keys w w') (fun _ _ => False) w := by
  refine wp_mono (deleteMany_state bucket accessKeyId _ w) ?_ fun _ _ h => h
  rintro _ _ rfl
  rw [List.foldl_map]
  induction keys generalizing w with
  | nil => exact ⟨hw, nofun, fun _ _ => rfl, Nat.le_add_right _ _⟩
  | cons key keys ih =>
    rw [List.length_cons, Nat.mul_succ] at hdistinct
    have hkey := delete_key hw (hdistinct.mono (by simp only [callsPerRequest]; omega)) bucket key accessKeyId
    have hcalls := hkey.calls_le
    rw [List.length_singleton] at hcalls
    exact hkey.cons (ih hkey.inv (hdistinct.mono (by omega)))

/-! ## Moving -/

/-- A move that returns has copied its keys and deleted them. -/
theorem moveKeys_spec {w : World} (hw : Inv N w) (source target : BucketContext) (sourceKey targetKey : Text)
    (accessKeyId : Option Text)
    (hdistinct : N.Distinct (w.calls + 2 * (callsPerRequest * (sourceKeys source.guid sourceKey w.db).length))) :
    wp (copyKeys N source target sourceKey targetKey true accessKeyId)
      (fun _ w' => ∃ w₁, CopiesKeys N source.guid target.guid (destination sourceKey targetKey)
          (sourceKeys source.guid sourceKey w.db) w w₁ ∧
        DeletesKeys N source.guid (sourceKeys source.guid sourceKey w.db) w₁ w') (fun _ _ => True) w := by
  refine wp_copyKeys (fun _ => trivial) fun _ _ => ?_
  rw [wp_bind]
  refine wp_mono (copyEach_spec hw source target accessKeyId (destination sourceKey targetKey) _
    (hdistinct.mono (by omega))) ?_ fun _ _ h => h
  intro _ w₁ hcopied
  have hcalls := hcopied.calls_le
  rw [wp_ite, if_pos rfl, wp_bind]
  refine wp_mono (deleteMany_spec hcopied.inv source accessKeyId _ (hdistinct.mono (by omega))) ?_
    fun _ _ h => h.elim
  exact fun _ w' hdeleted => ⟨w₁, hcopied, hdeleted⟩

variable (N) in
/-- **Nothing is lost.** -/
structure MovesAll (source target : Guid) (sourceKey targetKey : Text) (w w' : World) : Prop where
  /-- What a source key served is served by its destination. -/
  moved : ∀ key ∈ sourceKeys source sourceKey w.db, ∀ content, served N w (source, key) = some content →
    served N w' (target, destination sourceKey targetKey key) = some content
  /-- What another key served it still serves, unless a source key goes there. -/
  kept : ∀ k content, (∀ key ∈ sourceKeys source sourceKey w.db, (source, key) ≠ k) →
    (∀ key ∈ sourceKeys source sourceKey w.db, (served N w (source, key)).isSome →
      (target, destination sourceKey targetKey key) ≠ k) →
    served N w k = some content → served N w' k = some content

/-- **When a move loses nothing**: if no live source key goes to a source key. -/
theorem movesAll_iff {w w' : World} (hw : Inv N w) {source target : BucketContext}
    {sourceKey targetKey : Text} {accessKeyId : Option Text} {count : ℕ}
    (hdistinct : N.Distinct (w.calls + 2 * (callsPerRequest * (sourceKeys source.guid sourceKey w.db).length)))
    (hcall : copyKeys N source target sourceKey targetKey true accessKeyId w = .ok count w') :
    MovesAll N source.guid target.guid sourceKey targetKey w w' ↔
      ∀ key ∈ sourceKeys source.guid sourceKey w.db, (served N w (source.guid, key)).isSome →
        ∀ other ∈ sourceKeys source.guid sourceKey w.db,
          (target.guid, destination sourceKey targetKey key) ≠ (source.guid, other) := by
  obtain ⟨w₁, hcopied, hdeleted⟩ := wp_of_ok hcall
    (moveKeys_spec hw source target sourceKey targetKey accessKeyId hdistinct)
  have hnodup := nodup_destinations hw.tables.toConstraints source.guid target.guid sourceKey targetKey
  have hserved : ∀ k, served N w₁ k = relay (fun key => (source.guid, key))
      (fun key => (target.guid, destination sourceKey targetKey key))
      (sourceKeys source.guid sourceKey w.db) (served N w) k := congrFun hcopied.served
  constructor
  · intro h key hkey hlive other hother heq
    obtain ⟨content, hcontent⟩ := Option.isSome_iff_exists.mp hlive
    have hmoved := h.moved key hkey content hcontent
    rw [heq, hdeleted.gone other hother] at hmoved
    cases hmoved
  · intro hapart
    have hkept : ∀ k, (∀ key ∈ sourceKeys source.guid sourceKey w.db, (source.guid, key) ≠ k) →
        served N w' k = served N w₁ k := fun k hk =>
      served_congr hcopied.inv hdeleted.inv (hdeleted.kept k hk)
    refine ⟨fun key hkey content hcontent => ?_, fun k content hsource hdest hcontent => ?_⟩
    · have hlive : (served N w (source.guid, key)).isSome := by rw [hcontent]; rfl
      rw [hkept _ fun other hother => (hapart key hkey hlive other hother).symm, hserved]
      exact (relay_dest_of_apart hapart hnodup hkey hlive).trans hcontent
    · rw [hkept k hsource, hserved]
      exact (relay_of_apart hapart hdest).trans hcontent

/-! ## A folder onto itself -/

def letter : PutObjectParams :=
  { bucket := travels, key := "docs/letter".toList, stream := ⟨[[1]], false⟩ }

/-- **Moving `docs/` to `docs`** copies every file onto itself and then deletes it. -/
theorem moved_onto_itself : ¬ ∀ (requests : List PutObjectParams) (sourceKey targetKey : Text) (count : ℕ)
    (w' : World), copyKeys Node.counting travels travels sourceKey targetKey true none
      (runAll (put Node.counting) requests bareStore) = .ok count w' →
    MovesAll Node.counting 0 0 sourceKey targetKey (runAll (put Node.counting) requests bareStore) w' := by
  intro h
  have hall := h [letter] "docs/".toList "docs".toList 1 _ (run_of_outcome (by decide +kernel))
  have hserved := hall.moved "docs/letter".toList (by decide +kernel) [1] (by decide +kernel)
  exact absurd hserved (by decide +kernel)

/-- Moved to another folder, it arrives. -/
theorem movesAll_apart : ∃ w', copyKeys Node.counting travels travels "a/b/".toList "c".toList true none
      nestedStore = .ok 2 w' ∧ MovesAll Node.counting 0 0 "a/b/".toList "c".toList nestedStore w' := by
  have hrun := run_of_outcome (x := copyKeys Node.counting travels travels "a/b/".toList "c".toList true none)
    (w := nestedStore) (a := 2) (by decide +kernel)
  exact ⟨_, hrun, (movesAll_iff inv_nestedStore (Node.distinct_counting.mono (by decide +kernel)) hrun).mpr
    (by decide +kernel)⟩

end ObjectsService
end SimpleStorage
