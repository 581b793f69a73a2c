import SimpleStorage.Library.Collapse
import Mathlib.Data.List.Sort

/-!
# A cursor over sorted rows

A query that resumes at a key asks for the rows past a cursor and, behind a folder, for
the rows outside it.  `Stands` says that such a query gives exactly the rows still to be
shown, and the three moves of a listing keep it:

* `Stands.item`: behind a row, the cursor is the key of that row;
* `Stands.item_forget`: there, what was excluded before need not be excluded any more;
* `Stands.folder`: behind a folder, cursor and exclusion are the folder.  The cursor may
  move *back* here, since the folder comes before each of its rows; the exclusion is what
  makes up for it.
-/

namespace SimpleStorage
namespace Collapse

/-! ## Sorting what a condition selects -/

/-- Selecting before sorting is selecting after it, as long as no two rows tie. -/
theorem insertionSort_filter {ρ : Type*} {le : ρ → ρ → Prop} [DecidableRel le] [Std.Total le]
    [IsTrans ρ le] {rs : List ρ} (hanti : ∀ a ∈ rs, ∀ b ∈ rs, le a b → le b a → a = b)
    (p : ρ → Bool) : (rs.filter p).insertionSort le = (rs.insertionSort le).filter p := by
  refine List.Perm.eq_of_pairwise ?_ (List.pairwise_insertionSort le _)
    ((List.pairwise_insertionSort le rs).filter p) ?_
  · intro a b ha hb
    have ha' := (List.mem_filter.mp ((List.mem_insertionSort le).mp ha)).1
    have hb' := (List.mem_insertionSort le).mp (List.mem_filter.mp hb).1
    exact hanti a ha' b hb'
  · exact (List.perm_insertionSort le _).trans ((List.perm_insertionSort le rs).filter p).symm

/-- The sort is stable: what comes out first did not come in behind a row it ties with. -/
theorem not_le_of_head?_insertionSort {ρ : Type*} {le : ρ → ρ → Prop} [DecidableRel le]
    {A B : List ρ} {x : ρ} (hx : x ∉ A) (h : ((A ++ x :: B).insertionSort le).head? = some x) :
    ∀ a ∈ A, ¬ le a x := by
  induction A with
  | nil => exact fun a ha => nomatch ha
  | cons a A ih =>
    rw [List.mem_cons, not_or] at hx
    rw [List.cons_append, List.insertionSort_cons] at h
    cases hsort : (A ++ x :: B).insertionSort le with
    | nil =>
      have hmem : x ∈ (A ++ x :: B).insertionSort le :=
        (List.mem_insertionSort le).mpr (List.mem_append_right A List.mem_cons_self)
      rw [hsort] at hmem
      cases hmem
    | cons b rest =>
      rw [hsort, List.orderedInsert_cons] at h
      split_ifs at h with hle
      · exact absurd (Option.some.inj h).symm hx.1
      · obtain rfl : b = x := Option.some.inj h
        intro c hc
        rcases List.mem_cons.mp hc with rfl | hc
        · exact hle
        · exact ih hx.2 (by rw [hsort]; rfl) c hc

/-! ## Cursors -/

variable {α : Type*} [LinearOrder α] {ρ : Type*} (key : ρ → List α)

/-- Past the cursor and outside the excluded folder. -/
def Past (cursor excluded : Option (List α)) (r : ρ) : Prop :=
  (∀ v, cursor = some v → v < key r) ∧ ∀ f, excluded = some f → ¬ f <+: key r

instance (cursor excluded : Option (List α)) : DecidablePred (Past key cursor excluded) := fun r =>
  match cursor, excluded with
  | none, none => isTrue (by simp [Past])
  | some v, none => decidable_of_iff (v < key r) (by simp [Past])
  | none, some f => decidable_of_iff (¬ f <+: key r) (by simp [Past])
  | some v, some f => decidable_of_iff (v < key r ∧ ¬ f <+: key r) (by simp [Past])

/-- The rows a query gives at a cursor are the rows `S`, and a folder is only excluded
once the cursor has come to it. -/
structure Stands (R : List ρ) (cursor excluded : Option (List α)) (S : List ρ) : Prop where
  rows : R.filter (fun r => Past key cursor excluded r) = S
  excluded_le : ∀ f, excluded = some f → ∃ v, cursor = some v ∧ f ≤ v

variable {key} {F : Folding α} {R S : List ρ} {cursor excluded : Option (List α)} {r : ρ}

theorem Stands.mem (h : Stands key R cursor excluded (r :: S)) :
    r ∈ R ∧ Past key cursor excluded r := by
  have hr : r ∈ R.filter (fun r => Past key cursor excluded r) := h.rows ▸ List.mem_cons_self
  obtain ⟨hrR, hpast⟩ := List.mem_filter.mp hr
  exact ⟨hrR, of_decide_eq_true hpast⟩

theorem Stands.pairwise (hR : R.Pairwise fun a b => key a < key b)
    (h : Stands key R cursor excluded S) : S.Pairwise fun a b => key a < key b :=
  h.rows ▸ hR.filter _

/-- A row past a row that is past the cursor and outside the folder is so itself. -/
theorem Stands.past_of_lt (h : Stands key R cursor excluded (r :: S)) {s : ρ} (hs : key r < key s) :
    Past key cursor excluded s := by
  obtain ⟨-, hcursor, hexcluded⟩ := h.mem
  refine ⟨fun v hv => (hcursor v hv).trans hs, fun f hf hfs => ?_⟩
  obtain ⟨v, hv, hfv⟩ := h.excluded_le f hf
  exact hexcluded f hf (PrefixOrder.isPrefix_of_le_of_le (hfv.trans (hcursor v hv).le) hs.le hfs)

/-- The rows past the first one left, under a further condition. -/
theorem Stands.filter_lt (hR : R.Pairwise fun a b => key a < key b)
    (h : Stands key R cursor excluded (r :: S)) {p : ρ → Bool} {q : ρ → Bool}
    (hp : ∀ s, p s = true ↔ key r < key s ∧ q s = true) : R.filter p = S.filter q := by
  have hsorted := List.pairwise_cons.mp (h.pairwise hR)
  have hsplit : R.filter p = (r :: S).filter p := by
    rw [← h.rows, List.filter_filter]
    refine List.filter_congr fun s _ => ?_
    rw [Bool.eq_iff_iff, Bool.and_eq_true, decide_eq_true_iff]
    exact ⟨fun hs => ⟨hs, h.past_of_lt ((hp s).mp hs).1⟩, fun hs => hs.1⟩
  rw [hsplit, List.filter_cons_of_neg fun hr => lt_irrefl _ ((hp r).mp hr).1]
  refine List.filter_congr fun s hs => ?_
  rw [Bool.eq_iff_iff, hp]
  exact ⟨fun h' => h'.2, fun h' => ⟨hsorted.1 s hs, h'⟩⟩

/-- **Behind a row, the cursor is its key.** -/
theorem Stands.item (hR : R.Pairwise fun a b => key a < key b)
    (h : Stands key R cursor excluded (r :: S)) : Stands key R (some (key r)) excluded S where
  rows := by
    rw [h.filter_lt hR (q := fun _ => true), List.filter_true]
    intro s
    rw [decide_eq_true_iff, and_iff_left rfl]
    exact ⟨fun hs => hs.1 _ rfl, fun hs => ⟨fun v hv => Option.some.inj hv ▸ hs,
      (h.past_of_lt hs).2⟩⟩
  excluded_le := fun f hf => by
    obtain ⟨v, hv, hfv⟩ := h.excluded_le f hf
    exact ⟨key r, rfl, hfv.trans (h.mem.2.1 v hv).le⟩

/-- Behind a row, nothing needs to be excluded. -/
theorem Stands.item_forget (hR : R.Pairwise fun a b => key a < key b)
    (h : Stands key R cursor excluded (r :: S)) : Stands key R (some (key r)) none S where
  rows := by
    rw [h.filter_lt hR (q := fun _ => true), List.filter_true]
    intro s
    rw [decide_eq_true_iff, and_iff_left rfl]
    exact ⟨fun hs => hs.1 _ rfl, fun hs => ⟨fun v hv => Option.some.inj hv ▸ hs,
      fun _ hf => nomatch hf⟩⟩
  excluded_le := fun _ hf => nomatch hf

/-- **Behind a folder, the cursor is the folder and its rows are excluded.** -/
theorem Stands.folder (hR : R.Pairwise fun a b => key a < key b)
    (h : Stands key R cursor excluded (r :: S)) {f : List α} (hf : F.folder (key r) = some f) :
    Stands key R (some f) (some f) (S.dropWhile fun s => f <+: key s) where
  rows := by
    have hpre := F.folder_isPrefix hf
    have hsorted := List.pairwise_cons.mp (h.pairwise hR)
    rw [dropWhile_eq_filter hpre (hsorted.2.imp le_of_lt) fun s hs => (hsorted.1 s hs).le]
    refine h.filter_lt hR fun s => ?_
    rw [decide_eq_true_iff, decide_eq_true_iff]
    constructor
    · rintro ⟨hfs, hnot⟩
      exact ⟨PrefixOrder.lt_of_not_isPrefix (hfs f rfl).le (hnot f rfl) hpre, hnot f rfl⟩
    · rintro ⟨hrs, hnot⟩
      exact ⟨fun v hv => Option.some.inj hv ▸ (PrefixOrder.le_of_isPrefix hpre).trans_lt hrs,
        fun g hg => Option.some.inj hg ▸ hnot⟩
  excluded_le := fun g hg => ⟨g, hg, le_rfl⟩

/-! ## Going back to a folder's name

A cursor at the name of a folder without the exclusion is not behind the folder. -/

/-- The cursor at a folder's name, from any earlier cursor. -/
theorem Stands.before_folder (h : Stands key R cursor excluded (r :: S)) {f : List α}
    (hf : F.folder (key r) = some f) (hcursor : ∀ v, cursor = some v → v < f) :
    Stands key R (some f) none ((r :: S).filter fun s => f < key s) where
  rows := by
    rw [← h.rows, List.filter_filter]
    refine List.filter_congr fun s _ => ?_
    rw [Bool.eq_iff_iff, Bool.and_eq_true, decide_eq_true_iff, decide_eq_true_iff,
      decide_eq_true_iff]
    constructor
    · rintro ⟨hfs, -⟩
      have hlt := hfs f rfl
      refine ⟨hlt, fun v hv => (hcursor v hv).trans hlt, fun g hg hgs => ?_⟩
      obtain ⟨v, hv, hgv⟩ := h.excluded_le g hg
      have hgf := PrefixOrder.isPrefix_of_le_of_le (hgv.trans (hcursor v hv).le) hlt.le hgs
      exact h.mem.2.2 g hg (hgf.trans (F.folder_isPrefix hf))
    · rintro ⟨hlt, -⟩
      exact ⟨fun v hv => Option.some.inj hv ▸ hlt, fun _ hg => nomatch hg⟩
  excluded_le := fun _ hg => nomatch hg

/-- **From a folder's name, the folder is shown again** if and only if it has a row of another
name. -/
theorem collapse_filter_lt {f : List α} (hf : F.folder (key r) = some f)
    (hsorted : (r :: S).Pairwise fun a b => key a < key b) :
    collapse F key ((r :: S).filter fun s => f < key s) =
      if ∃ s ∈ r :: S, f <+: key s ∧ f ≠ key s then collapse F key (r :: S)
      else collapse F key (S.dropWhile fun s => f <+: key s) := by
  have hpre := F.folder_isPrefix hf
  obtain ⟨hr, hS⟩ := List.pairwise_cons.mp hsorted
  have hfS : ∀ s ∈ S, f < key s := fun s hs => (PrefixOrder.le_of_isPrefix hpre).trans_lt (hr s hs)
  have hkeep : (S.filter fun s => f < key s) = S :=
    List.filter_eq_self.mpr fun s hs => decide_eq_true (hfS s hs)
  by_cases hfr : f = key r
  · rw [List.filter_cons_of_neg (by simp [← hfr]), hkeep]
    cases S with
    | nil =>
      rw [if_neg]
      · rfl
      · rintro ⟨s, hs, -, hne⟩
        obtain rfl := List.mem_singleton.mp hs
        exact hne hfr
    | cons t S =>
      by_cases ht : f <+: key t
      · have htf := F.folder_of_isPrefix hf ht
        rw [if_pos ⟨t, by simp, ht, (hfS t List.mem_cons_self).ne⟩, collapse_cons_folder htf,
          collapse_cons_folder hf, collapseFrom_folder_same htf]
      · rw [if_neg, List.dropWhile_cons_of_neg (by simpa using ht)]
        rintro ⟨s, hs, hfs, hne⟩
        rcases List.mem_cons.mp hs with rfl | hs
        · exact hne hfr
        · have hts : key t ≤ key s := by
            rcases List.mem_cons.mp hs with rfl | hs
            · exact le_rfl
            · exact ((List.pairwise_cons.mp hS).1 s hs).le
          exact ht (PrefixOrder.isPrefix_of_le_of_le (hfS t List.mem_cons_self).le hts hfs)
  · have hlt : f < key r := PrefixOrder.lt_of_isPrefix_of_ne hpre hfr
    rw [List.filter_cons_of_pos (by simpa using hlt), hkeep,
      if_pos ⟨r, List.mem_cons_self, hpre, hfr⟩]

end Collapse
end SimpleStorage
