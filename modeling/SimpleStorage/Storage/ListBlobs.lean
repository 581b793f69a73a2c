import SimpleStorage.Storage.StorageService

/-!
# The walk over the data root

Blobs are listed directory by directory, and what is done with each is done before the next
is looked at, so the files may change under the walk.

* `visits`: on its own, the walk gets to every file that is there to the end.
-/

namespace SimpleStorage

namespace StorageTypes

structure BlobEntry where
  storagePath : Text
  modifiedAt : Timestamp
  size : ℕ
  deriving DecidableEq, Repr

end StorageTypes

namespace StorageService

open StorageTypes Program

/-- The names in a directory of the data root: what comes next on the paths of the files below it. -/
def dirNames (directory : List Text) (disk : FileTable Text Blob) : List Text :=
  (disk.bindings.filterMap fun file =>
    let path := Text.split '/' file.1
    if directory <+: path then path[directory.length]? else none).dedup

def readDirNames (directory : List Text) : Service (List Text) := query fun w => dirNames directory w.disk

/-- What is done with a file, if it is still there. -/
def visitBlob {γ : Type} (f : γ → BlobEntry → Service γ) (acc : γ) (storagePath : Text) : Service γ := do
  let stat ← query (·.disk.get storagePath)
  match stat with
  | some blob => f acc { storagePath, modifiedAt := blob.modifiedAt, size := blob.content.length }
  | none => return acc

/-- The files of a directory. -/
def visitDirectory {γ : Type} (f : γ → BlobEntry → Service γ) (directory : List Text) (acc : γ) :
    Service γ := do
  let names ← readDirNames directory
  names.foldlM (fun acc name => visitBlob f acc (Text.join '/' (directory ++ [name]))) acc

/-- **Every blob on disk**, in two levels of directories. -/
def listBlobs {γ : Type} (f : γ → BlobEntry → Service γ) (acc : γ) : Service γ := do
  let firsts ← readDirNames []
  firsts.foldlM (fun acc first => do
    let seconds ← readDirNames [first]
    seconds.foldlM (fun acc second => visitDirectory f [first, second] acc) acc) acc

/-! ## What the walk gets to -/

/-- The path of a file in the second level of directories. -/
def WellPlaced (storagePath : Text) : Prop := (Text.split '/' storagePath).length = 3

theorem WellPlaced.ne_nil {storagePath : Text} (h : WellPlaced storagePath) : storagePath ≠ [] := by
  rintro rfl
  cases h

/-- Generated paths are well placed, as identifiers have no `/`. -/
theorem wellPlaced_storagePathOf {guid : Text} (h : '/' ∉ guid) : WellPlaced (storagePathOf guid) := by
  have hfirst : '/' ∉ guid.take 2 := fun hmem => h (List.mem_of_mem_take hmem)
  have hsecond : '/' ∉ (guid.drop 2).take 2 := fun hmem => h (List.mem_of_mem_drop (List.mem_of_mem_take hmem))
  have hparts : Text.split '/' (storagePathOf guid) = [guid.take 2, (guid.drop 2).take 2, guid] := by
    refine List.splitOn_intercalate '/' (fun l hl => ?_) nofun
    simp only [List.mem_cons, List.not_mem_nil, or_false] at hl
    rcases hl with rfl | rfl | rfl
    · exact hfirst
    · exact hsecond
    · exact h
  rw [WellPlaced, hparts]
  rfl

theorem mem_dirNames (directory : List Text) {disk : FileTable Text Blob} {storagePath : Text} {blob : Blob}
    (hget : disk.get storagePath = some blob) {name : Text} {rest : List Text}
    (hsplit : Text.split '/' storagePath = directory ++ name :: rest) : name ∈ dirNames directory disk := by
  rw [dirNames, List.mem_dedup, List.mem_filterMap]
  refine ⟨(storagePath, blob), FileTable.mem_of_get hget, ?_⟩
  dsimp only
  rw [hsplit, if_pos (List.prefix_append _ _), List.getElem?_append_right le_rfl, Nat.sub_self]
  rfl

section Walk

variable {γ : Type} {f : γ → BlobEntry → Service γ} {inv goal : World → Prop}
  {fail : Fault → World → Prop} {storagePath : Text}

/-- What is done with a file that is there. -/
def Handles (f : γ → BlobEntry → Service γ) (fail : Fault → World → Prop) (storagePath : Text)
    (pre post : World → Prop) : Prop :=
  ∀ acc w blob, w.disk.get storagePath = some blob → pre w →
    wp (f acc ⟨storagePath, blob.modifiedAt, blob.content.length⟩) (fun _ => post) fail w

theorem visitBlob_wp {pre post : World → Prop} (hf : Handles f fail storagePath pre post)
    (hgone : ∀ w, w.disk.get storagePath = none → pre w → post w) {acc : γ} {w : World} (hw : pre w) :
    wp (visitBlob f acc storagePath) (fun _ => post) fail w := by
  rw [visitBlob, wp_bind, wp_query]
  cases hget : w.disk.get storagePath with
  | none => exact hgone w hget hw
  | some blob => exact hf acc w blob hget hw

theorem visitDirectory_wp (hf : ∀ path, Handles f fail path inv inv) (directory : List Text) {acc : γ}
    {w : World} (hw : inv w) : wp (visitDirectory f directory acc) (fun _ => inv) fail w := by
  rw [visitDirectory, wp_bind, readDirNames, wp_query]
  exact wp_foldlM inv (fun _ _ _ _ hs => visitBlob_wp (hf _) (fun _ _ h => h) hs) hw

/-- **What is kept with every file is kept by the walk.** -/
theorem listBlobs_wp (hf : ∀ path, Handles f fail path inv inv) {acc : γ} {w : World} (hw : inv w) :
    wp (listBlobs f acc) (fun _ => inv) fail w := by
  rw [listBlobs, wp_bind, readDirNames, wp_query]
  refine wp_foldlM inv (fun _ _ _ _ hs => ?_) hw
  rw [wp_bind, readDirNames, wp_query]
  exact wp_foldlM inv (fun _ _ _ _ hs => visitDirectory_wp hf _ hs) hs

variable (hinv : ∀ path, Handles f fail path inv inv)
  (hkeep : ∀ path, Handles f fail path (fun w => inv w ∧ goal w) goal)
include hinv hkeep

theorem handles_both (path : Text) :
    Handles f fail path (fun w => inv w ∧ goal w) (fun w => inv w ∧ goal w) :=
  fun acc w blob hget hw => wp_mono (wp_and (hinv path acc w blob hget hw.1) (hkeep path acc w blob hget hw))
    (fun _ _ h => h) fun _ _ h => h.1

variable (hgoal : Handles f fail storagePath inv goal)
  (hgone : ∀ w, w.disk.get storagePath = none → inv w → goal w)
include hgoal hgone

/-- A directory with the file in it. -/
theorem visitDirectory_visits {directory : List Text} {name : Text}
    (hsplit : Text.split '/' storagePath = directory ++ [name]) {acc : γ} {w : World} (hw : inv w) :
    wp (visitDirectory f directory acc) (fun _ => goal) fail w := by
  cases hget : w.disk.get storagePath with
  | none =>
    exact wp_mono (visitDirectory_wp (handles_both hinv hkeep) directory
      ⟨hw, hgone w hget hw⟩) (fun _ _ h => h.2) fun _ _ h => h
  | some blob =>
    rw [visitDirectory, wp_bind, readDirNames, wp_query]
    refine wp_foldlM_mem inv goal (fun _ _ _ _ hs => visitBlob_wp (hinv _) (fun _ _ h => h) hs)
      (fun _ _ _ _ hs hg => visitBlob_wp (hkeep _) (fun _ _ h => h.2) ⟨hs, hg⟩)
      (mem_dirNames directory hget hsplit) (fun _ _ hs => ?_) hw
    rw [← hsplit, Text.join_split]
    exact visitBlob_wp hgoal hgone hs

/-- **The walk gets to every file** that is not gone by then. -/
theorem listBlobs_visits (hplaced : WellPlaced storagePath) {acc : γ} {w : World} (hw : inv w) :
    wp (listBlobs f acc) (fun _ => goal) fail w := by
  have hboth := handles_both hinv hkeep
  obtain ⟨first, second, name, hsplit⟩ := List.length_eq_three.mp hplaced
  cases hget : w.disk.get storagePath with
  | none => exact wp_mono (listBlobs_wp hboth ⟨hw, hgone w hget hw⟩) (fun _ _ h => h.2) fun _ _ h => h
  | some blob =>
    have hseconds : ∀ acc first' w, inv w ∧ goal w → wp (do
        let seconds ← readDirNames [first']
        seconds.foldlM (fun acc second => visitDirectory f [first', second] acc) acc)
        (fun _ w => inv w ∧ goal w) fail w := by
      intro acc first' w hw
      rw [wp_bind, readDirNames, wp_query]
      exact wp_foldlM _ (fun _ _ _ _ hs => visitDirectory_wp hboth _ hs) hw
    rw [listBlobs, wp_bind, readDirNames, wp_query]
    refine wp_foldlM_mem inv goal (fun acc first' _ w hw => ?_) (fun acc first' _ w hw hg => ?_)
      (mem_dirNames [] hget hsplit) (fun acc w hw => ?_) hw
    · rw [wp_bind, readDirNames, wp_query]
      exact wp_foldlM inv (fun _ _ _ _ hs => visitDirectory_wp hinv _ hs) hw
    · exact wp_mono (hseconds acc first' w ⟨hw, hg⟩) (fun _ _ h => h.2) fun _ _ h => h
    · cases hget : w.disk.get storagePath with
      | none =>
        exact wp_mono (hseconds acc first w ⟨hw, hgone w hget hw⟩) (fun _ _ h => h.2) fun _ _ h => h
      | some blob =>
        rw [wp_bind, readDirNames, wp_query]
        refine wp_foldlM_mem inv goal (fun _ _ _ _ hs => visitDirectory_wp hinv _ hs)
          (fun _ _ _ _ hs hg => wp_mono (visitDirectory_wp hboth _ ⟨hs, hg⟩) (fun _ _ h => h.2)
            fun _ _ h => h)
          (mem_dirNames [first] hget hsplit) (fun _ _ hs => ?_) hw
        exact visitDirectory_visits hinv hkeep hgoal hgone hsplit hs

end Walk

end StorageService
end SimpleStorage
