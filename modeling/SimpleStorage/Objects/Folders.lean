import SimpleStorage.Objects.Listing
import SimpleStorage.Library.Collapse

/-!
# Common prefixes are folders

`commonPrefixOf` looks for the first delimiter after the prefix.  Two readings of it are
proved: against the text of the key (`groupOf_eq_none_iff`, `groupOf_eq_some_iff`), and
as a folding in the sense of `Library.Collapse` (`folding`), which is what makes the
keys of a common prefix neighbours in a listing.
-/

namespace SimpleStorage
namespace ObjectsService

open Query

/-! ## The first delimiter -/

theorem indexOf_eq_none_iff {d s : Text} : indexOf d s = none ↔ ¬ d <:+: s := by
  induction s with
  | nil => simp [indexOf]
  | cons c s ih =>
    rw [List.infix_cons_iff, not_or, ← ih, indexOf]
    split_ifs with h
    · simp [h]
    · simp [h]

/-- The first occurrence, with what is before and behind it. -/
theorem indexOf_eq_some_iff {d s : Text} {i : ℕ} :
    indexOf d s = some i ↔
      (∃ u v, s = u ++ d ++ v ∧ u.length = i) ∧ ∀ u v, s = u ++ d ++ v → i ≤ u.length := by
  induction s generalizing i with
  | nil =>
    rw [indexOf]
    split_ifs with h
    · have hd : d = [] := List.prefix_nil.mp h
      subst hd
      simp only [Option.some.injEq, List.append_nil]
      constructor
      · rintro rfl
        exact ⟨⟨[], [], rfl, rfl⟩, fun u v _ => Nat.zero_le _⟩
      · rintro ⟨⟨u, v, hs, rfl⟩, -⟩
        rw [(List.append_eq_nil_iff.mp hs.symm).1, List.length_nil]
    · simp only [false_iff, not_and]
      rintro ⟨u, v, hs, -⟩
      have := List.append_eq_nil_iff.mp hs.symm
      exact absurd (List.append_eq_nil_iff.mp this.1).2 (fun hd => h (hd ▸ List.nil_prefix))
  | cons c s ih =>
    rw [indexOf]
    split_ifs with h
    · rw [Option.some.injEq]
      obtain ⟨v, hv⟩ := h
      constructor
      · rintro rfl
        exact ⟨⟨[], v, hv.symm, rfl⟩, fun u v _ => Nat.zero_le _⟩
      · rintro ⟨-, hmin⟩
        exact (Nat.le_zero.mp (hmin [] v hv.symm)).symm
    · rw [Option.map_eq_some_iff]
      constructor
      · rintro ⟨j, hj, rfl⟩
        obtain ⟨⟨u, v, rfl, rfl⟩, hmin⟩ := ih.mp hj
        refine ⟨⟨c :: u, v, rfl, rfl⟩, fun u' v' heq => ?_⟩
        cases u' with
        | nil => exact absurd ⟨v', heq.symm⟩ h
        | cons c' u' =>
          rw [List.cons_append, List.cons_append, List.cons.injEq] at heq
          exact Nat.succ_le_succ (hmin u' v' heq.2)
      · rintro ⟨⟨u, v, heq, hu⟩, hmin⟩
        cases u with
        | nil => exact absurd ⟨v, heq.symm⟩ h
        | cons c' u =>
          rw [List.cons_append, List.cons_append, List.cons.injEq] at heq
          obtain ⟨rfl, rfl⟩ := heq
          refine ⟨u.length, ih.mpr ⟨⟨u, v, rfl, rfl⟩, fun u' v' heq' => ?_⟩, hu⟩
          have := hmin (c :: u') v' (by rw [heq']; rfl)
          rw [← hu] at this
          exact Nat.le_of_succ_le_succ this

/-- What ends with a first delimiter has it as its first delimiter, whatever follows. -/
theorem indexOf_of_isPrefix {d s t : Text} {i : ℕ} (h : indexOf d s = some i)
    (ht : s.take (i + d.length) <+: t) : indexOf d t = some i := by
  obtain ⟨⟨u, v, rfl, rfl⟩, hmin⟩ := indexOf_eq_some_iff.mp h
  rw [← List.length_append, List.take_left] at ht
  obtain ⟨w, rfl⟩ := ht
  refine indexOf_eq_some_iff.mpr ⟨⟨u, w, rfl, rfl⟩, fun u' v' heq => ?_⟩
  by_contra hlt
  -- an earlier delimiter would end inside the part both texts share
  have hpre : u' ++ d <+: u ++ d :=
    List.prefix_of_prefix_length_le ⟨v', heq.symm⟩ ⟨w, rfl⟩ (by
      rw [List.length_append, List.length_append]
      omega)
  obtain ⟨x, hx⟩ := hpre
  exact hlt (hmin u' (x ++ v) (by rw [← hx]; simp))

/-! ## Keys behind a delimiter -/

/-- The key has no delimiter after the prefix. -/
def IsLeaf (pre delimiter : Option Text) (key : Text) : Prop :=
  ∀ d, delimiter = some d → d ≠ [] → ¬ d <:+: key.drop (pre.getD []).length

/-- The key is the prefix, something, the delimiter for the first time, and a rest; and `f`
is all of it but the rest. -/
def IsCommonPrefix (pre delimiter : Option Text) (key f : Text) : Prop :=
  ∃ d u v, delimiter = some d ∧ d ≠ [] ∧ key = pre.getD [] ++ (u ++ d ++ v) ∧
    f = pre.getD [] ++ (u ++ d) ∧
    ∀ u' v', key = pre.getD [] ++ (u' ++ d ++ v') → u.length ≤ u'.length

theorem groupOf_of_delimiter {pre : Option Text} {d : Text} (hd : d ≠ []) (key : Text) :
    groupOf pre (some d) key = commonPrefixOf key (pre.getD []) d := by
  obtain ⟨c, d, rfl⟩ := List.exists_cons_of_ne_nil hd
  simp only [groupOf, present, Option.bind_some]
  cases hp : commonPrefixOf key (pre.getD []) (c :: d) with
  | none => rfl
  | some f =>
    refine (present_eq_some_iff.mpr ⟨rfl, ?_⟩)
    rintro rfl
    simp only [commonPrefixOf] at hp
    split at hp
    · cases hp
    · rename_i i hi
      obtain ⟨⟨u, v, hs, hu⟩, -⟩ := indexOf_eq_some_iff.mp hi
      rw [hs, ← hu, ← List.length_append, List.take_left, Option.some.injEq] at hp
      simp at hp

theorem groupOf_of_no_delimiter {pre delimiter : Option Text} (hd : present delimiter = none)
    (key : Text) : groupOf pre delimiter key = none := by
  rw [groupOf, hd]
  rfl

/-- **A key is shown as itself exactly when no delimiter follows the prefix.** -/
theorem groupOf_eq_none_iff {pre delimiter : Option Text} {key : Text} :
    groupOf pre delimiter key = none ↔ IsLeaf pre delimiter key := by
  cases hd : present delimiter with
  | none =>
    refine iff_of_true (groupOf_of_no_delimiter hd key) fun d hsome hne => ?_
    rw [present_eq_some_iff.mpr ⟨hsome, hne⟩] at hd
    cases hd
  | some d =>
    obtain ⟨rfl, hne⟩ := present_eq_some_iff.mp hd
    rw [groupOf_of_delimiter hne, commonPrefixOf]
    constructor
    · intro h e he _
      cases he
      cases hi : indexOf d (key.drop (pre.getD []).length) with
      | none => exact indexOf_eq_none_iff.mp hi
      | some i => simp [hi] at h
    · intro h
      simp [indexOf_eq_none_iff.mpr (h d rfl hne)]

/-- **A key behind a delimiter is shown by its common prefix.** -/
theorem groupOf_eq_some_iff {pre delimiter : Option Text} {key f : Text}
    (hkey : pre.getD [] <+: key) :
    groupOf pre delimiter key = some f ↔ IsCommonPrefix pre delimiter key f := by
  obtain ⟨rest, rfl⟩ := hkey
  constructor
  · intro h
    cases hd : present delimiter with
    | none => rw [groupOf_of_no_delimiter hd] at h; cases h
    | some d =>
      obtain ⟨rfl, hne⟩ := present_eq_some_iff.mp hd
      rw [groupOf_of_delimiter hne, commonPrefixOf, List.drop_left] at h
      cases hi : indexOf d rest with
      | none => simp [hi] at h
      | some i =>
        obtain ⟨⟨u, v, hs, hu⟩, hmin⟩ := indexOf_eq_some_iff.mp hi
        simp only [hi, Option.some.injEq] at h
        rw [hs, ← hu, ← List.length_append, List.take_left] at h
        refine ⟨d, u, v, rfl, hne, by rw [hs], h.symm, fun u' v' heq => ?_⟩
        rw [hu]
        exact hmin u' v' (List.append_cancel_left heq)
  · rintro ⟨d, u, v, rfl, hne, heq, rfl, hmin⟩
    have hrest := List.append_cancel_left heq
    have hi : indexOf d rest = some u.length :=
      indexOf_eq_some_iff.mpr ⟨⟨u, v, hrest, rfl⟩, fun u' v' h => hmin u' v' (by rw [h])⟩
    rw [groupOf_of_delimiter hne, commonPrefixOf, List.drop_left]
    simp only [hi, Option.some.injEq]
    rw [hrest, ← List.length_append, List.take_left]

theorem groupOf_ne_nil {pre delimiter : Option Text} {key f : Text}
    (h : groupOf pre delimiter key = some f) : f ≠ [] := (present_eq_some_iff.mp h).2

/-! ## The folding -/

/-- The grouping of the keys under the prefix. -/
def folding (pre delimiter : Option Text) : Collapse.Folding Char where
  folder w := if pre.getD [] <+: w then groupOf pre delimiter w else none
  folder_isPrefix := by
    intro w f h
    split_ifs at h with hw
    obtain ⟨d, u, v, -, -, rfl, rfl, -⟩ := (groupOf_eq_some_iff hw).mp h
    exact ⟨v, by simp⟩
  folder_of_isPrefix := by
    intro w f v h hv
    split_ifs at h with hw
    obtain ⟨d, u, x, hd, hne, rfl, rfl, hmin⟩ := (groupOf_eq_some_iff hw).mp h
    have hpre : pre.getD [] <+: v := (List.prefix_append _ _).trans hv
    rw [if_pos hpre]
    obtain ⟨y, rfl⟩ := hv
    have hi : indexOf d (u ++ d ++ x) = some u.length :=
      indexOf_eq_some_iff.mpr ⟨⟨u, x, rfl, rfl⟩, fun u' v' heq => hmin u' v' (by rw [heq])⟩
    have hi' : indexOf d (u ++ d ++ y) = some u.length :=
      indexOf_of_isPrefix hi (by
        rw [← List.length_append, List.take_left]
        exact List.prefix_append _ y)
    refine (groupOf_eq_some_iff hpre).mpr ⟨d, u, y, hd, hne, by simp, rfl, fun u' v' heq => ?_⟩
    refine (indexOf_eq_some_iff.mp hi').2 u' v' (@List.append_cancel_left _ (pre.getD []) _ _ ?_)
    rw [← heq]
    simp

theorem folding_folder {pre delimiter : Option Text} {key : Text} (h : pre.getD [] <+: key) :
    (folding pre delimiter).folder key = groupOf pre delimiter key := if_pos h

end ObjectsService
end SimpleStorage
