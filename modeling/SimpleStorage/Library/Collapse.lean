import SimpleStorage.Library.PrefixOrder
import Mathlib.Data.List.Pairwise

/-!
# Collapsing sorted rows into folders

A listing shows rows in the order of their keys and shows every row whose key lies in
a *folder* only by that folder, once.  What a folder is stays abstract: a `Folding`
says which key lies in which folder, and asks for two things.  The folder of a key is
a prefix of it, and whatever extends the folder of a key lies in that folder too.

Since the extensions of a word form an interval, the rows of a folder are neighbours.
That is why one pass that remembers a single folder, the current one, is enough.

* `name_pairwise_collapse`: the names shown are strictly increasing.  In particular
  nothing is shown twice.
* `item_mem_collapse`, `folder_mem_collapse`: exactly the rows outside every folder are
  shown as themselves, exactly the folders of the others as folders.
* `collapseFrom_some`: what is left to show after a folder is what a listing of the
  later rows outside that folder shows.
* `split_at_item`, `collapseFrom_isPrefix`: a listing goes on behind a row as it would start
  there, and a listing of fewer rows is the first part of the listing.
* `collapseSeen_eq`: a pass that remembers all its folders shows the same.
* `fill_sorted`: a page filled row by row shows the first entries, and knows of more exactly
  if there are more.
-/

namespace SimpleStorage
namespace Collapse

variable {α : Type*}

/-- Which key lies in which folder. -/
structure Folding (α : Type*) where
  folder : List α → Option (List α)
  folder_isPrefix : ∀ {w f}, folder w = some f → f <+: w
  folder_of_isPrefix : ∀ {w f v}, folder w = some f → f <+: v → folder v = some f

/-- What a listing shows: a row, or a folder in place of the rows in it. -/
inductive Entry (ρ α : Type*) where
  | item : ρ → Entry ρ α
  | folder : List α → Entry ρ α
  deriving DecidableEq

variable {ρ : Type*} (F : Folding α) (key : ρ → List α)

/-- The name an entry is shown under. -/
def Entry.name : Entry ρ α → List α
  | .item r => key r
  | .folder f => f

@[simp] theorem Entry.name_item (r : ρ) : (Entry.item r : Entry ρ α).name key = key r := rfl

@[simp] theorem Entry.name_folder (f : List α) : (Entry.folder f : Entry ρ α).name key = f := rfl

/-- The rows among some entries. -/
def items : List (Entry ρ α) → List ρ
  | [] => []
  | .item r :: es => r :: items es
  | .folder _ :: es => items es

/-- The folders among some entries. -/
def folders : List (Entry ρ α) → List (List α)
  | [] => []
  | .item _ :: es => folders es
  | .folder f :: es => f :: folders es

@[simp] theorem items_append (es fs : List (Entry ρ α)) : items (es ++ fs) = items es ++ items fs := by
  induction es with
  | nil => rfl
  | cons e es ih => cases e <;> simp only [List.cons_append, items, ih]

@[simp] theorem folders_append (es fs : List (Entry ρ α)) :
    folders (es ++ fs) = folders es ++ folders fs := by
  induction es with
  | nil => rfl
  | cons e es ih => cases e <;> simp only [List.cons_append, folders, ih]

theorem mem_items {es : List (Entry ρ α)} {r : ρ} : r ∈ items es ↔ Entry.item r ∈ es := by
  induction es with
  | nil => simp [items]
  | cons e es ih => cases e <;> simp [items, ih]

theorem mem_folders {es : List (Entry ρ α)} {f : List α} :
    f ∈ folders es ↔ Entry.folder f ∈ es := by
  induction es with
  | nil => simp [folders]
  | cons e es ih => cases e <;> simp [folders, ih]

theorem length_items_add_length_folders (es : List (Entry ρ α)) :
    (items es).length + (folders es).length = es.length := by
  induction es with
  | nil => rfl
  | cons e es ih => cases e <;> simp only [items, folders, List.length_cons] <;> omega

/-- Entries are distinct when the rows and the folders among them are. -/
theorem nodup_iff_items_folders {es : List (Entry ρ α)} :
    es.Nodup ↔ (items es).Nodup ∧ (folders es).Nodup := by
  induction es with
  | nil => simp [items, folders]
  | cons e es ih =>
    cases e with
    | item r => rw [List.nodup_cons, items, folders, List.nodup_cons, ← mem_items, ih, and_assoc]
    | folder f =>
      rw [List.nodup_cons, items, folders, List.nodup_cons, ← mem_folders, ih]
      tauto

/-- The names of the rows and those of the folders are the names of the entries. -/
theorem names_perm (es : List (Entry ρ α)) :
    ((items es).map key ++ folders es).Perm (es.map (Entry.name key)) := by
  induction es with
  | nil => exact List.Perm.nil
  | cons e es ih =>
    cases e with
    | item r => exact ih.cons _
    | folder f => exact List.perm_middle.trans (ih.cons f)

/-! ## The pass -/

variable [LinearOrder α]

/-- One pass over the rows, inside the folder `current` or inside none. -/
def collapseFrom : Option (List α) → List ρ → List (Entry ρ α)
  | _, [] => []
  | current, r :: rs =>
      match F.folder (key r) with
      | none => .item r :: collapseFrom none rs
      | some f => if current = some f then collapseFrom current rs
          else .folder f :: collapseFrom (some f) rs

/-- What a listing of the rows shows. -/
def collapse (rs : List ρ) : List (Entry ρ α) := collapseFrom F key none rs

variable {F key}

@[simp] theorem collapseFrom_nil (current : Option (List α)) :
    collapseFrom F key current ([] : List ρ) = [] := rfl

theorem collapseFrom_item {r : ρ} (h : F.folder (key r) = none) (current : Option (List α))
    (rs : List ρ) :
    collapseFrom F key current (r :: rs) = .item r :: collapse F key rs := by
  simp only [collapseFrom, h, collapse]

theorem collapseFrom_folder_same {r : ρ} {f : List α} (h : F.folder (key r) = some f)
    (rs : List ρ) :
    collapseFrom F key (some f) (r :: rs) = collapseFrom F key (some f) rs := by
  simp only [collapseFrom, h, if_true]

theorem collapseFrom_folder_new {r : ρ} {f : List α} (h : F.folder (key r) = some f)
    {current : Option (List α)} (hc : current ≠ some f) (rs : List ρ) :
    collapseFrom F key current (r :: rs) = .folder f :: collapseFrom F key (some f) rs := by
  simp only [collapseFrom, h, if_neg hc]

@[simp] theorem collapse_nil : collapse F key ([] : List ρ) = [] := rfl

theorem collapse_cons_item {r : ρ} (h : F.folder (key r) = none) (rs : List ρ) :
    collapse F key (r :: rs) = .item r :: collapse F key rs := collapseFrom_item h none rs

theorem collapse_cons_folder {r : ρ} {f : List α} (h : F.folder (key r) = some f) (rs : List ρ) :
    collapse F key (r :: rs) = .folder f :: collapseFrom F key (some f) rs :=
  collapseFrom_folder_new h (by simp) rs

/-- **After a folder, its rows are passed over.**  Inside a folder the pass goes on
with the first row that does not extend it, as if it had started there. -/
theorem collapseFrom_some {w f : List α} (hf : F.folder w = some f) (rs : List ρ) :
    collapseFrom F key (some f) rs = collapse F key (rs.dropWhile fun r => f <+: key r) := by
  induction rs with
  | nil => rfl
  | cons r rs ih =>
    by_cases h : f <+: key r
    · rw [collapseFrom_folder_same (F.folder_of_isPrefix hf h), ih,
        List.dropWhile_cons_of_pos (by simpa using h)]
    · rw [List.dropWhile_cons_of_neg (by simpa using h)]
      cases hr : F.folder (key r) with
      | none => rw [collapseFrom_item hr, collapse_cons_item hr]
      | some g =>
        have hne : (some f : Option (List α)) ≠ some g := by
          rintro ⟨⟩
          exact h (F.folder_isPrefix hr)
        rw [collapseFrom_folder_new hr hne, collapse_cons_folder hr]

/-- Rows in front of the first row of their folder change nothing. -/
theorem collapse_append_of_folder {f : List α} {K rs : List ρ} {r : ρ}
    (hK : ∀ s ∈ K, F.folder (key s) = some f) (hr : F.folder (key r) = some f) :
    collapse F key (K ++ r :: rs) = collapse F key (r :: rs) := by
  have hinside : collapseFrom F key (some f) (K ++ r :: rs) = collapseFrom F key (some f) rs := by
    induction K with
    | nil => exact collapseFrom_folder_same hr rs
    | cons s K ih =>
      obtain ⟨hs, hK⟩ := List.forall_mem_cons.mp hK
      rw [List.cons_append, collapseFrom_folder_same hs, ih hK]
  cases K with
  | nil => rfl
  | cons s K =>
    obtain ⟨hs, -⟩ := List.forall_mem_cons.mp hK
    rw [List.cons_append, collapseFrom_folder_same hs] at hinside
    rw [List.cons_append, collapse_cons_folder hs, hinside, collapse_cons_folder hr]

/-! ## What is shown -/

theorem item_mem_collapseFrom {current : Option (List α)} {rs : List ρ} {r : ρ} :
    Entry.item r ∈ collapseFrom F key current rs ↔ r ∈ rs ∧ F.folder (key r) = none := by
  induction rs generalizing current with
  | nil => simp
  | cons s rs ih =>
    cases hs : F.folder (key s) with
    | none =>
      rw [collapseFrom_item hs, List.mem_cons, collapse, ih, List.mem_cons, Entry.item.injEq]
      constructor
      · rintro (rfl | ⟨hr, hnone⟩)
        · exact ⟨Or.inl rfl, hs⟩
        · exact ⟨Or.inr hr, hnone⟩
      · rintro ⟨rfl | hr, hnone⟩
        · exact Or.inl rfl
        · exact Or.inr ⟨hr, hnone⟩
    | some f =>
      have htail : Entry.item r ∈ collapseFrom F key current (s :: rs) ↔
          Entry.item r ∈ collapseFrom F key (some f) rs := by
        by_cases hc : current = some f
        · rw [hc, collapseFrom_folder_same hs]
        · rw [collapseFrom_folder_new hs hc, List.mem_cons]
          simp
      rw [htail, ih, List.mem_cons]
      constructor
      · rintro ⟨hr, hnone⟩
        exact ⟨Or.inr hr, hnone⟩
      · rintro ⟨rfl | hr, hnone⟩
        · rw [hs] at hnone
          cases hnone
        · exact ⟨hr, hnone⟩

/-- **The rows outside every folder are shown.** -/
theorem item_mem_collapse {rs : List ρ} {r : ρ} :
    Entry.item r ∈ collapse F key rs ↔ r ∈ rs ∧ F.folder (key r) = none :=
  item_mem_collapseFrom

theorem folder_mem_collapseFrom {current : Option (List α)} {rs : List ρ} {f : List α} :
    (Entry.folder f ∈ collapseFrom F key current rs ∨ current = some f) ↔
      ((∃ r ∈ rs, F.folder (key r) = some f) ∨ current = some f) := by
  induction rs generalizing current with
  | nil => simp
  | cons s rs ih =>
    cases hs : F.folder (key s) with
    | none =>
      have hrest := @ih none
      simp only [reduceCtorEq, or_false] at hrest
      rw [collapseFrom_item hs, List.mem_cons, collapse, hrest]
      simp [hs]
    | some g =>
      have hrest := @ih (some g)
      have hhead : (∃ r ∈ s :: rs, F.folder (key r) = some f) ↔
          some g = some f ∨ ∃ r ∈ rs, F.folder (key r) = some f := by
        simp only [List.mem_cons, exists_eq_or_imp, hs]
      by_cases hc : current = some g
      · rw [hc, collapseFrom_folder_same hs, hrest, hhead, or_comm (a := some g = some f), or_assoc,
          or_self]
      · have hg : Entry.folder f = (Entry.folder g : Entry ρ α) ↔ some g = some f := by
          rw [Entry.folder.injEq, Option.some.injEq, eq_comm]
        rw [collapseFrom_folder_new hs hc, List.mem_cons, hg, or_comm (a := some g = some f), hrest,
          hhead, or_comm (a := some g = some f)]

/-- **The folders of the other rows are shown.** -/
theorem folder_mem_collapse {rs : List ρ} {f : List α} :
    Entry.folder f ∈ collapse F key rs ↔ ∃ r ∈ rs, F.folder (key r) = some f := by
  have h := @folder_mem_collapseFrom _ _ F key _ none rs f
  simpa [collapse] using h

theorem folder_mem_folders {rs : List ρ} {f : List α} :
    f ∈ folders (collapse F key rs) ↔ ∃ r ∈ rs, F.folder (key r) = some f := by
  rw [mem_folders, folder_mem_collapse]

theorem items_collapseFrom (current : Option (List α)) (rs : List ρ) :
    items (collapseFrom F key current rs) = rs.filter fun r => (F.folder (key r)).isNone := by
  induction rs generalizing current with
  | nil => rfl
  | cons s rs ih =>
    cases hs : F.folder (key s) with
    | none =>
      rw [collapseFrom_item hs, items, collapse, ih, List.filter_cons_of_pos (by simp [hs])]
    | some f =>
      rw [List.filter_cons_of_neg (by simp [hs])]
      by_cases hc : current = some f
      · rw [hc, collapseFrom_folder_same hs, ih]
      · rw [collapseFrom_folder_new hs hc, items, ih]

/-- The rows shown, in the order of the rows. -/
theorem items_collapse (rs : List ρ) :
    items (collapse F key rs) = rs.filter fun r => (F.folder (key r)).isNone :=
  items_collapseFrom none rs

/-! ## In which order -/

/-- An entry of a later row comes after a row outside every folder. -/
theorem lt_name_of_item {r : ρ} (hr : F.folder (key r) = none) {rs : List ρ}
    (hrs : ∀ s ∈ rs, key r < key s) {e : Entry ρ α} (he : e ∈ collapse F key rs) :
    key r < e.name key := by
  cases e with
  | item s => exact hrs s (item_mem_collapse.mp he).1
  | folder f =>
    obtain ⟨s, hs, hsf⟩ := folder_mem_collapse.mp he
    rw [Entry.name_folder]
    by_contra hle
    have hpre := PrefixOrder.isPrefix_of_le_of_le (not_lt.mp hle) (hrs s hs).le
      (F.folder_isPrefix hsf)
    rw [F.folder_of_isPrefix hsf hpre] at hr
    cases hr

/-- An entry of a later row outside the folder of a row comes after that folder. -/
theorem lt_name_of_folder {r : ρ} {f : List α} (hr : F.folder (key r) = some f) {rs : List ρ}
    (hrs : ∀ s ∈ rs, key r ≤ key s ∧ ¬ f <+: key s) {e : Entry ρ α}
    (he : e ∈ collapse F key rs) : f < e.name key := by
  have hle : f ≤ key r := PrefixOrder.le_of_isPrefix (F.folder_isPrefix hr)
  cases e with
  | item s =>
    obtain ⟨hrs', hfs⟩ := hrs s (item_mem_collapse.mp he).1
    refine lt_of_le_of_ne (hle.trans hrs') fun heq => hfs ?_
    rw [Entry.name_item] at heq
    rw [heq]
  | folder g =>
    obtain ⟨s, hs, hsg⟩ := folder_mem_collapse.mp he
    rw [Entry.name_folder]
    by_contra hgf
    -- otherwise the later folder would already be the folder of the row
    have hgr : g <+: key r := PrefixOrder.isPrefix_of_le_of_le ((not_lt.mp hgf).trans hle)
      (hrs s hs).1 (F.folder_isPrefix hsg)
    have hfg : some g = some f := (F.folder_of_isPrefix hsg hgr).symm.trans hr
    cases hfg
    exact (hrs s hs).2 (F.folder_isPrefix hsg)

/-- **The rows of a folder are neighbours.**  Passing over the rows of a folder is leaving
them out. -/
theorem dropWhile_eq_filter {f : List α} {r : ρ} (hr : f <+: key r) {rs : List ρ}
    (hsorted : rs.Pairwise fun a b => key a ≤ key b) (hrs : ∀ s ∈ rs, key r ≤ key s) :
    (rs.dropWhile fun s => f <+: key s) = rs.filter fun s => ¬ f <+: key s := by
  induction rs with
  | nil => rfl
  | cons t rs ih =>
    obtain ⟨ht, hsorted'⟩ := List.pairwise_cons.mp hsorted
    have hrt := hrs t List.mem_cons_self
    by_cases hft : f <+: key t
    · rw [List.dropWhile_cons_of_pos (by simpa using hft),
        List.filter_cons_of_neg (by simpa using hft)]
      exact ih hsorted' fun u hu => hrs u (List.mem_cons_of_mem t hu)
    · rw [List.dropWhile_cons_of_neg (by simpa using hft)]
      refine (List.filter_eq_self.mpr fun s hs => decide_eq_true ?_).symm
      rcases List.mem_cons.mp hs with rfl | hs
      · exact hft
      · intro hfs
        exact hft (PrefixOrder.isPrefix_of_le_of_le
          ((PrefixOrder.le_of_isPrefix hr).trans hrt) (ht s hs) hfs)

/-- **The names shown are strictly increasing.** -/
theorem name_pairwise_collapse {rs : List ρ} (h : rs.Pairwise fun a b => key a < key b) :
    (collapse F key rs).Pairwise fun e e' => e.name key < e'.name key := by
  induction hn : rs.length using Nat.strong_induction_on generalizing rs with
  | _ n ih =>
  cases rs with
  | nil => exact List.Pairwise.nil
  | cons r rs =>
    obtain ⟨hr, hrs⟩ := List.pairwise_cons.mp h
    cases hf : F.folder (key r) with
    | none =>
      rw [collapse_cons_item hf]
      refine List.pairwise_cons.mpr ⟨fun e he => lt_name_of_item hf hr he, ?_⟩
      exact ih rs.length (by simp only [List.length_cons] at hn; omega) hrs rfl
    | some f =>
      rw [collapse_cons_folder hf, collapseFrom_some hf]
      rw [dropWhile_eq_filter (F.folder_isPrefix hf) (hrs.imp le_of_lt) fun s hs => (hr s hs).le]
      have hsub := List.filter_sublist (l := rs) (p := fun s => ¬ f <+: key s)
      refine List.pairwise_cons.mpr ⟨fun e he => ?_, ?_⟩
      · refine lt_name_of_folder hf (fun s hs => ?_) he
        obtain ⟨hs, hfs⟩ := List.mem_filter.mp hs
        exact ⟨(hr s hs).le, of_decide_eq_true hfs⟩
      · have hlen := hsub.length_le
        simp only [List.length_cons] at hn
        exact ih _ (by omega) (hrs.sublist hsub) rfl

/-- The folders shown are strictly increasing, also where rows share a key. -/
theorem folders_pairwise_collapse {rs : List ρ} (h : rs.Pairwise fun a b => key a ≤ key b) :
    (folders (collapse F key rs)).Pairwise fun f g => f < g := by
  induction hn : rs.length using Nat.strong_induction_on generalizing rs with
  | _ n ih =>
  cases rs with
  | nil => exact List.Pairwise.nil
  | cons r rs =>
    obtain ⟨hr, hrs⟩ := List.pairwise_cons.mp h
    rw [List.length_cons] at hn
    cases hf : F.folder (key r) with
    | none =>
      rw [collapse_cons_item hf]
      exact ih rs.length (by omega) hrs rfl
    | some f =>
      have hsub := List.filter_sublist (l := rs) (p := fun s => ¬ f <+: key s)
      have hlen := hsub.length_le
      rw [collapse_cons_folder hf, collapseFrom_some hf, folders,
        dropWhile_eq_filter (F.folder_isPrefix hf) hrs hr]
      refine List.pairwise_cons.mpr ⟨fun g hg => ?_, ih _ (by omega) (hrs.sublist hsub) rfl⟩
      refine lt_name_of_folder (e := .folder g) hf (fun s hs => ?_) (mem_folders.mp hg)
      obtain ⟨hs, hfs⟩ := List.mem_filter.mp hs
      exact ⟨hr s hs, of_decide_eq_true hfs⟩

/-! ## Parts of a listing -/

/-- A listing of fewer rows is the first part of the listing. -/
theorem collapseFrom_isPrefix (current : Option (List α)) {rs ss : List ρ} (h : rs <+: ss) :
    collapseFrom F key current rs <+: collapseFrom F key current ss := by
  obtain ⟨ts, rfl⟩ := h
  induction rs generalizing current with
  | nil => exact List.nil_prefix
  | cons r rs ih =>
    rw [List.cons_append]
    cases hf : F.folder (key r) with
    | none =>
      rw [collapseFrom_item hf, collapseFrom_item hf]
      exact List.cons_prefix_cons.mpr ⟨rfl, ih none⟩
    | some f =>
      by_cases hc : current = some f
      · rw [hc, collapseFrom_folder_same hf, collapseFrom_folder_same hf]
        exact ih (some f)
      · rw [collapseFrom_folder_new hf hc, collapseFrom_folder_new hf hc]
        exact List.cons_prefix_cons.mpr ⟨rfl, ih (some f)⟩

/-- **Behind a row the listing is a listing of the rows behind it.** -/
theorem split_at_item {current : Option (List α)} {rs : List ρ} {A B : List (Entry ρ α)} {r : ρ}
    (h : collapseFrom F key current rs = A ++ .item r :: B) :
    ∃ X Y, rs = X ++ r :: Y ∧ collapse F key Y = B := by
  induction rs generalizing current A with
  | nil => exact absurd (congrArg List.length h) (by simp)
  | cons s rs ih =>
    have hlater : ∀ {c A}, collapseFrom F key c rs = A ++ .item r :: B →
        ∃ X Y, s :: rs = X ++ r :: Y ∧ collapse F key Y = B := fun h => by
      obtain ⟨X, Y, rfl, hY⟩ := ih h
      exact ⟨s :: X, Y, rfl, hY⟩
    cases hf : F.folder (key s) with
    | none =>
      rw [collapseFrom_item hf] at h
      cases A with
      | nil =>
        rw [List.nil_append, List.cons.injEq, Entry.item.injEq] at h
        exact ⟨[], rs, by rw [h.1]; rfl, h.2⟩
      | cons a A =>
        rw [List.cons_append, List.cons.injEq] at h
        exact hlater h.2
    | some f =>
      by_cases hc : current = some f
      · rw [hc, collapseFrom_folder_same hf] at h
        exact hlater h
      · rw [collapseFrom_folder_new hf hc] at h
        cases A with
        | nil => cases h
        | cons a A =>
          rw [List.cons_append, List.cons.injEq] at h
          exact hlater h.2

/-! ## Remembering every folder -/

variable (F key) in
/-- The pass with the folders `seen` remembered, whichever it is in. -/
def collapseSeen : List (List α) → List ρ → List (Entry ρ α)
  | _, [] => []
  | seen, r :: rs =>
      match F.folder (key r) with
      | none => .item r :: collapseSeen seen rs
      | some f => if f ∈ seen then collapseSeen seen rs
          else .folder f :: collapseSeen (seen ++ [f]) rs

/-- **Remembering all folders shows what remembering the current one does**: over sorted rows,
no other one comes up again. -/
theorem collapseSeen_eq {seen : List (List α)} {current : Option (List α)} {rs : List ρ}
    (hsorted : rs.Pairwise fun a b => key a ≤ key b)
    (hcurrent : ∀ f, current = some f → (∃ w, F.folder w = some f) ∧ ∀ r ∈ rs, f ≤ key r)
    (hseen : ∀ r ∈ rs, ∀ f, F.folder (key r) = some f → (f ∈ seen ↔ current = some f)) :
    collapseSeen F key seen rs = collapseFrom F key current rs := by
  induction rs generalizing seen current with
  | nil => rfl
  | cons r rs ih =>
    obtain ⟨hr, hrs⟩ := List.pairwise_cons.mp hsorted
    -- a folder that comes up again reaches over this row
    have hagain : ∀ s ∈ rs, ∀ g, F.folder (key s) = some g → g ∈ seen →
        F.folder (key r) = some g := by
      intro s hs g hg hmem
      have hc := (hseen s (List.mem_cons_of_mem r hs) g hg).mp hmem
      obtain ⟨⟨w, hw⟩, hle⟩ := hcurrent g hc
      exact F.folder_of_isPrefix hw (PrefixOrder.isPrefix_of_le_of_le
        (hle r List.mem_cons_self) (hr s hs) (F.folder_isPrefix hg))
    cases hf : F.folder (key r) with
    | none =>
      rw [collapseFrom_item hf]
      simp only [collapseSeen, hf]
      refine congrArg _ (ih hrs (fun _ h => nomatch h) fun s hs g hg => ?_)
      refine iff_of_false (fun hmem => ?_) (by simp)
      rw [hagain s hs g hg hmem] at hf
      cases hf
    | some f =>
      have hfr := hseen r List.mem_cons_self f hf
      by_cases hc : current = some f
      · rw [hc, collapseFrom_folder_same hf]
        simp only [collapseSeen, hf, if_pos (hfr.mpr hc)]
        refine ih hrs (fun g hg => ?_) fun s hs g hg => ?_
        · obtain ⟨hw, hle⟩ := hcurrent g (hc.trans hg)
          exact ⟨hw, fun s hs => hle s (List.mem_cons_of_mem r hs)⟩
        · rw [hseen s (List.mem_cons_of_mem r hs) g hg, hc]
      · rw [collapseFrom_folder_new hf hc]
        simp only [collapseSeen, hf, if_neg (mt hfr.mp hc)]
        refine congrArg _ (ih hrs (fun g hg => ?_) fun s hs g hg => ?_)
        · cases hg
          exact ⟨⟨key r, hf⟩, fun s hs =>
            (PrefixOrder.le_of_isPrefix (F.folder_isPrefix hf)).trans (hr s hs)⟩
        · rw [List.mem_append, List.mem_singleton, Option.some.injEq, eq_comm (a := f)]
          refine or_iff_right_of_imp fun hmem => ?_
          rw [hagain s hs g hg hmem, Option.some.injEq] at hf
          exact hf

/-! ## Filling a page -/

/-- The entries of a page that begin among those still to show, one of which is the first. -/
theorem append_take_cons {ε : Type*} {es rest : List ε} {e : ε} {limit : ℕ}
    (h : es.length < limit) :
    es ++ (e :: rest).take (limit - es.length) =
      (es ++ [e]) ++ rest.take (limit - (es ++ [e]).length) := by
  have hsub : limit - es.length = (limit - (es ++ [e]).length) + 1 := by
    rw [List.length_append, List.length_singleton]
    omega
  rw [hsub, List.take_succ_cons, List.append_assoc, List.singleton_append]

variable (F key) in
/-- A page with room for `limit` entries, of which `es` are there already, and whether a row
was left over that begins one more. -/
def fill (limit : ℕ) : List (Entry ρ α) → List ρ → List (Entry ρ α) × Bool
  | es, [] => (es, false)
  | es, r :: rs =>
      match F.folder (key r) with
      | none => if limit ≤ es.length then (es, true) else fill limit (es ++ [.item r]) rs
      | some f =>
          if f ∈ folders es then fill limit es rs
          else if limit ≤ es.length then (es, true) else fill limit (es ++ [.folder f]) rs

theorem fill_item {limit : ℕ} {es : List (Entry ρ α)} {r : ρ} (h : F.folder (key r) = none)
    (rs : List ρ) : fill F key limit es (r :: rs) =
      if limit ≤ es.length then (es, true) else fill F key limit (es ++ [.item r]) rs := by
  simp only [fill, h]

theorem fill_folder {limit : ℕ} {es : List (Entry ρ α)} {r : ρ} {f : List α}
    (h : F.folder (key r) = some f) (rs : List ρ) : fill F key limit es (r :: rs) =
      if f ∈ folders es then fill F key limit es rs
      else if limit ≤ es.length then (es, true)
      else fill F key limit (es ++ [.folder f]) rs := by
  simp only [fill, h]

/-- **A page shows the first entries** of the pass that remembers every folder, and a row is left
over exactly if there are more. -/
theorem fill_eq {limit : ℕ} {es : List (Entry ρ α)} {rs : List ρ} (hle : es.length ≤ limit) :
    fill F key limit es rs =
      (es ++ (collapseSeen F key (folders es) rs).take (limit - es.length),
        decide (limit < es.length + (collapseSeen F key (folders es) rs).length)) := by
  induction rs generalizing es with
  | nil =>
    rw [fill, collapseSeen, List.take_nil, List.append_nil, List.length_nil, Nat.add_zero,
      decide_eq_false (not_lt.mpr hle)]
  | cons r rs ih =>
    -- on a full page the next entry is left out
    have hfull : ∀ (e : Entry ρ α) rest, limit ≤ es.length → (es, true) =
        (es ++ (e :: rest).take (limit - es.length),
          decide (limit < es.length + (e :: rest).length)) := by
      intro e rest hfull
      rw [Nat.sub_eq_zero_of_le hfull, List.take_zero, List.append_nil, List.length_cons,
        decide_eq_true (by omega)]
    have hnext : ∀ (e : Entry ρ α), ¬ limit ≤ es.length → folders (es ++ [e]) = folders es ++ folders [e] →
        fill F key limit (es ++ [e]) rs =
          (es ++ (e :: collapseSeen F key (folders es ++ folders [e]) rs).take (limit - es.length),
            decide (limit < es.length +
              (e :: collapseSeen F key (folders es ++ folders [e]) rs).length)) := by
      intro e hlimit hfolders
      rw [ih (by rw [List.length_append, List.length_singleton]; omega), hfolders,
        append_take_cons (by omega), List.length_append, List.length_singleton, List.length_cons]
      congr 2
      simp only [eq_iff_iff]
      omega
    cases hf : F.folder (key r) with
    | none =>
      rw [fill_item hf]
      simp only [collapseSeen, hf]
      by_cases hlimit : limit ≤ es.length
      · rw [if_pos hlimit]
        exact hfull _ _ hlimit
      · rw [if_neg hlimit, hnext _ hlimit (folders_append es _)]
        simp only [folders, List.append_nil]
    | some f =>
      rw [fill_folder hf]
      simp only [collapseSeen, hf]
      by_cases hseen : f ∈ folders es
      · rw [if_pos hseen, if_pos hseen]
        exact ih hle
      · rw [if_neg hseen, if_neg hseen]
        by_cases hlimit : limit ≤ es.length
        · rw [if_pos hlimit]
          exact hfull _ _ hlimit
        · rw [if_neg hlimit, hnext _ hlimit (folders_append es _)]
          rfl

/-- Over sorted rows that is the first part of the listing. -/
theorem fill_sorted {limit : ℕ} {rs : List ρ} (hsorted : rs.Pairwise fun a b => key a ≤ key b) :
    fill F key limit [] rs = ((collapse F key rs).take limit,
      decide (limit < (collapse F key rs).length)) := by
  have hseen : collapseSeen F key [] rs = collapse F key rs :=
    collapseSeen_eq hsorted (fun _ h => nomatch h) fun _ _ _ _ => by simp
  rw [fill_eq (Nat.zero_le limit)]
  simp [folders, hseen]

/-! ## Up to the last row -/

/-- How many entries there are up to the last row, that one included. -/
def lastItemEnd : List (Entry ρ α) → ℕ
  | [] => 0
  | .item _ :: es => lastItemEnd es + 1
  | .folder _ :: es => if lastItemEnd es = 0 then 0 else lastItemEnd es + 1

omit [LinearOrder α] in
theorem lastItemEnd_eq_zero_iff {es : List (Entry ρ α)} :
    lastItemEnd es = 0 ↔ items es = [] := by
  induction es with
  | nil => exact iff_of_true rfl rfl
  | cons e es ih =>
    cases e with
    | item row => simp [lastItemEnd, items]
    | folder f =>
      rw [lastItemEnd, items, ← ih]
      split_ifs with h
      · exact iff_of_true rfl h
      · simp [h]

omit [LinearOrder α] in
/-- The entries up to the last row end in it, and only folders follow. -/
theorem lastItemEnd_spec {es : List (Entry ρ α)} {row : ρ}
    (h : (items es).getLast? = some row) :
    ∃ A B, es = A ++ .item row :: B ∧ A.length + 1 = lastItemEnd es := by
  induction es with
  | nil => cases h
  | cons e es ih =>
    cases e with
    | item r =>
      cases hes : (items es).getLast? with
      | none =>
        have hnil := List.getLast?_eq_none_iff.mp hes
        rw [items, hnil, List.getLast?_singleton, Option.some.injEq] at h
        subst h
        exact ⟨[], es, rfl, by rw [lastItemEnd, lastItemEnd_eq_zero_iff.mpr hnil]; rfl⟩
      | some s =>
        rw [items, List.getLast?_cons, hes, Option.getD_some, Option.some.injEq] at h
        subst h
        obtain ⟨A, B, rfl, hlen⟩ := ih hes
        exact ⟨.item r :: A, B, rfl, by rw [lastItemEnd, ← hlen, List.length_cons]⟩
    | folder f =>
      obtain ⟨A, B, hAB, hlen⟩ := ih h
      refine ⟨.folder f :: A, B, by rw [hAB]; rfl, ?_⟩
      rw [lastItemEnd, if_neg (by omega), ← hlen, List.length_cons]

omit [LinearOrder α] in
theorem lastItemEnd_le (es : List (Entry ρ α)) : lastItemEnd es ≤ es.length := by
  induction es with
  | nil => exact le_rfl
  | cons e es ih =>
    cases e with
    | item r => exact Nat.succ_le_succ ih
    | folder f =>
      rw [lastItemEnd]
      split_ifs
      · exact Nat.zero_le _
      · exact Nat.succ_le_succ ih

omit [LinearOrder α] in
theorem lastItemEnd_eq_length_iff {es : List (Entry ρ α)} (hne : es ≠ []) :
    lastItemEnd es = es.length ↔ ∃ row, es.getLast? = some (.item row) := by
  induction es with
  | nil => exact absurd rfl hne
  | cons e es ih =>
    by_cases hes : es = []
    · subst hes
      cases e <;> simp [lastItemEnd]
    · have hlast : (e :: es).getLast? = es.getLast? := by
        obtain ⟨x, xs, rfl⟩ := List.exists_cons_of_ne_nil hes
        exact List.getLast?_cons_cons
      have hpos := List.length_pos_iff.mpr hes
      rw [hlast, ← ih hes]
      have hle := lastItemEnd_le es
      cases e with
      | item r =>
        rw [lastItemEnd, List.length_cons]
        omega
      | folder f =>
        rw [lastItemEnd, List.length_cons]
        split_ifs with h
        · rw [false_iff]
          omega
        · omega

end Collapse
end SimpleStorage
