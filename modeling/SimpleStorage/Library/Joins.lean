import Mathlib.Algebra.BigOperators.Group.List.Lemmas
import Mathlib.Algebra.GroupWithZero.Nat
import Mathlib.Algebra.Order.BigOperators.Group.List
import Mathlib.Data.List.Nodup

/-!
# Joins and sums over rows

An inner join lists a row once for every row it is joined with.  If there is at most one
such row, the join is a filter (`join_eq_filter`), and sums over the parts of a join add up
to a sum over the whole (`sum_partition`).

* `leftJoin`: a row that has no partner is kept, alone;
* `sum_replace_le`: what a replaced row adds to a sum;
* `find?_update`: the row that is looked for after some were updated;
* `length_filter_update_eq`: what the update of one row does to a count.
-/

namespace SimpleStorage
namespace Join

variable {α β κ : Type}

theorem filter_eq_of_unique {p : β → Bool} {ys : List β} (hnodup : ys.Nodup)
    (h : ∀ y ∈ ys, ∀ y' ∈ ys, p y → p y' → y = y') {y : β} (hy : y ∈ ys) (hp : p y) :
    ys.filter p = [y] := by
  refine List.perm_singleton.mp ((List.perm_ext_iff_of_nodup (hnodup.filter _)
    (List.nodup_singleton y)).mpr fun z => ?_)
  rw [List.mem_filter, List.mem_singleton]
  constructor
  · rintro ⟨hz, hpz⟩
    exact h z hz y hy hpz hp
  · rintro rfl
    exact ⟨hy, hp⟩

theorem filter_eq_nil_of_not_any {p : β → Bool} {ys : List β} (h : ys.any p = false) :
    ys.filter p = [] := by
  rw [List.filter_eq_nil_iff]
  intro y hy hp
  rw [List.any_eq_false] at h
  exact h y hy hp

/-- A row that is the only one to pass is the one that is found. -/
theorem filter_eq_find? {p : β → Bool} {ys : List β} (hnodup : ys.Nodup)
    (h : ∀ y ∈ ys, ∀ y' ∈ ys, p y → p y' → y = y') : ys.filter p = (ys.find? p).toList := by
  cases hfind : ys.find? p with
  | none => exact List.filter_eq_nil_iff.mpr (List.find?_eq_none.mp hfind)
  | some y =>
    exact filter_eq_of_unique hnodup h (List.mem_of_find?_eq_some hfind) (List.find?_some hfind)

/-- **A join with at most one partner is a filter.** -/
theorem join_eq_filter {p : α → β → Bool} {ys : List β} (hnodup : ys.Nodup)
    (h : ∀ x, ∀ y ∈ ys, ∀ y' ∈ ys, p x y → p x y' → y = y') (xs : List α) :
    (xs.flatMap fun x => (ys.filter (p x)).map fun _ => x) = xs.filter fun x => ys.any (p x) := by
  induction xs with
  | nil => rfl
  | cons x xs ih =>
    rw [List.flatMap_cons, ih, List.filter_cons]
    cases hany : ys.any (p x) with
    | false =>
      rw [filter_eq_nil_of_not_any hany]
      rfl
    | true =>
      obtain ⟨y, hy, hp⟩ := List.any_eq_true.mp hany
      rw [filter_eq_of_unique hnodup (h x) hy hp]
      rfl

/-- **A left join**: each row with each of its partners, or, if it has none, alone. -/
def leftJoin (p : α → β → Bool) (xs : List α) (ys : List β) : List (α × Option β) :=
  xs.flatMap fun x => match ys.filter (p x) with
    | [] => [(x, none)]
    | y :: partners => (y :: partners).map fun y => (x, some y)

/-- **With at most one partner, a left join looks the partner up.** -/
theorem leftJoin_eq_map {p : α → β → Bool} {ys : List β} (hnodup : ys.Nodup)
    (h : ∀ x, ∀ y ∈ ys, ∀ y' ∈ ys, p x y → p x y' → y = y') (xs : List α) :
    leftJoin p xs ys = xs.map fun x => (x, ys.find? (p x)) := by
  induction xs with
  | nil => rfl
  | cons x xs ih =>
    rw [leftJoin, List.flatMap_cons, ← leftJoin, ih, List.map_cons, filter_eq_find? hnodup (h x)]
    cases ys.find? (p x) with
    | none => rfl
    | some y => rfl

theorem sum_indicator (q : β → Bool) (n : ℕ) (ys : List β) :
    (ys.map fun y => if q y then n else 0).sum = (ys.filter q).length * n := by
  induction ys with
  | nil => simp
  | cons y ys ih =>
    rw [List.map_cons, List.sum_cons, ih, List.filter_cons]
    cases q y with
    | true => rw [if_pos rfl, if_pos rfl, List.length_cons, Nat.succ_mul, Nat.add_comm]
    | false => rw [if_neg Bool.false_ne_true, if_neg Bool.false_ne_true, Nat.zero_add]

theorem sum_filter (p : α → Bool) (f : α → ℕ) (xs : List α) :
    ((xs.filter p).map f).sum = (xs.map fun x => if p x then f x else 0).sum := by
  induction xs with
  | nil => rfl
  | cons x xs ih =>
    rw [List.filter_cons, List.map_cons, List.sum_cons, ← ih]
    cases p x with
    | true => rw [if_pos rfl, if_pos rfl, List.map_cons, List.sum_cons]
    | false => rw [if_neg Bool.false_ne_true, if_neg Bool.false_ne_true, Nat.zero_add]

/-- A sum over the rows that pass and one over those that do not. -/
theorem sum_filter_add_sum_filter_not (p : α → Bool) (f : α → ℕ) (xs : List α) :
    ((xs.filter p).map f).sum + ((xs.filter fun x => !p x).map f).sum = (xs.map f).sum := by
  induction xs with
  | nil => rfl
  | cons x xs ih =>
    rw [List.filter_cons, List.filter_cons, List.map_cons, List.sum_cons, ← ih]
    cases p x with
    | true =>
      rw [if_pos rfl, Bool.not_true, if_neg Bool.false_ne_true, List.map_cons, List.sum_cons,
        Nat.add_assoc]
    | false =>
      rw [if_neg Bool.false_ne_true, Bool.not_false, if_pos rfl, List.map_cons, List.sum_cons,
        Nat.add_left_comm]

/-- **Sums over the parts add up**, if every row is in at most one part. -/
theorem sum_partition {p : β → α → Bool} {ys : List β} (hnodup : ys.Nodup)
    (h : ∀ x, ∀ y ∈ ys, ∀ y' ∈ ys, p y x → p y' x → y = y') (f : α → ℕ) (xs : List α) :
    (ys.map fun y => ((xs.filter (p y)).map f).sum).sum =
      ((xs.filter fun x => ys.any fun y => p y x).map f).sum := by
  induction xs with
  | nil => simp
  | cons x xs ih =>
    have hcons : ∀ q : α → Bool, (((x :: xs).filter q).map f).sum =
        (if q x then f x else 0) + ((xs.filter q).map f).sum := by
      intro q
      rw [sum_filter, sum_filter, List.map_cons, List.sum_cons]
    have hone : (ys.map fun y => if p y x then f x else 0).sum =
        if ys.any (fun y => p y x) then f x else 0 := by
      rw [sum_indicator (fun y => p y x)]
      cases hany : ys.any fun y => p y x with
      | false =>
        rw [filter_eq_nil_of_not_any hany, List.length_nil, Nat.zero_mul, if_neg Bool.false_ne_true]
      | true =>
        obtain ⟨y, hy, hp⟩ := List.any_eq_true.mp hany
        rw [filter_eq_of_unique hnodup (h x) hy hp, List.length_singleton, Nat.one_mul, if_pos rfl]
    simp only [hcons, List.sum_map_add, ih, hone]

/-- **A replaced row** adds at most its new value to a sum. -/
theorem sum_replace_le [DecidableEq κ] {key : α → κ} {k : κ} {f g : α → ℕ} {n : ℕ} {xs : List α}
    (hnodup : (xs.map key).Nodup) (hother : ∀ x, key x ≠ k → g x = f x)
    (hself : ∀ x, key x = k → g x ≤ n) : (xs.map g).sum ≤ (xs.map f).sum + n := by
  induction xs with
  | nil => exact Nat.zero_le _
  | cons x xs ih =>
    rw [List.map_cons, List.nodup_cons] at hnodup
    rw [List.map_cons, List.sum_cons, List.map_cons, List.sum_cons]
    by_cases hx : key x = k
    · have hrest : xs.map g = xs.map f := by
        refine List.map_congr_left fun y hy => hother y fun hy' => hnodup.1 ?_
        rw [hx, ← hy']
        exact List.mem_map_of_mem hy
      have := hself x hx
      rw [hrest]
      omega
    · have := ih hnodup.2
      rw [hother x hx]
      omega

/-! ## Looking for rows after an update -/

section Updates

variable {α : Type*} {p q : α → Bool} {f : α → α}

/-- An update of other rows. -/
theorem find?_update_other (h : ∀ x, p x = true → q x = false ∧ q (f x) = false) (rows : List α) :
    (rows.map fun x => if p x then f x else x).find? q = rows.find? q := by
  induction rows with
  | nil => rfl
  | cons x rows ih =>
    rw [List.map_cons, List.find?_cons, List.find?_cons, ih]
    split_ifs with hp
    · rw [(h x hp).1, (h x hp).2]
    · rfl

theorem filter_update_other (h : ∀ x, p x = true → q x = false ∧ q (f x) = false) (rows : List α) :
    (rows.map fun x => if p x then f x else x).filter q = rows.filter q := by
  induction rows with
  | nil => rfl
  | cons x rows ih =>
    rw [List.map_cons, List.filter_cons, List.filter_cons, ih]
    by_cases hp : p x = true
    · rw [if_pos hp, (h x hp).1, (h x hp).2]
      rfl
    · rw [if_neg hp]

/-- An update of the rows looked for, after which they still are. -/
theorem find?_update (h : ∀ x, p x = true → p (f x) = true) (rows : List α) :
    (rows.map fun x => if p x then f x else x).find? p = (rows.find? p).map f := by
  induction rows with
  | nil => rfl
  | cons x rows ih =>
    rw [List.map_cons, List.find?_cons, List.find?_cons, ih]
    cases hp : p x with
    | true =>
      rw [if_pos rfl, h x hp]
      rfl
    | false => rw [if_neg Bool.false_ne_true, hp]

/-- An update after which they no longer are. -/
theorem find?_update_out (h : ∀ x, p x = true → p (f x) = false) (rows : List α) :
    (rows.map fun x => if p x then f x else x).find? p = none := by
  refine List.find?_eq_none.mpr fun y hy => ?_
  obtain ⟨x, -, rfl⟩ := List.mem_map.mp hy
  split_ifs with hp
  · rw [h x hp]
    exact Bool.false_ne_true
  · exact hp

/-- **An update of the one row with a key** changes a count by that row. -/
theorem length_filter_update_eq {κ : Type*} {key : α → κ} {k : κ} (hp : ∀ y, p y = true → key y = k)
    {rows : List α} (hnodup : (rows.map key).Nodup) {x : α} (hx : x ∈ rows) (hpx : p x = true) :
    ((rows.map fun y => if p y then f y else y).filter q).length + (if q x then 1 else 0) =
      (rows.filter q).length + if q (f x) then 1 else 0 := by
  have hcons : ∀ (y : α) (ys : List α),
      ((y :: ys).filter q).length = (if q y then 1 else 0) + (ys.filter q).length := by
    intro y ys
    rw [List.filter_cons]
    split_ifs
    · rw [List.length_cons, Nat.add_comm]
    · rw [Nat.zero_add]
  induction rows with
  | nil => cases hx
  | cons y rows ih =>
    rw [List.map_cons, List.nodup_cons] at hnodup
    rw [List.map_cons, hcons, hcons]
    rcases List.mem_cons.mp hx with rfl | hx
    · have hrest : (rows.map fun z => if p z then f z else z) = rows := by
        refine (List.map_congr_left fun z hz => ?_).trans (List.map_id rows)
        refine if_neg fun hpz => hnodup.1 ?_
        rw [hp x hpx, ← hp z hpz]
        exact List.mem_map_of_mem hz
      rw [hrest, if_pos hpx]
      omega
    · have hy : ¬ p y = true := fun hpy => hnodup.1 (by
        rw [hp y hpy, ← hp x hpx]
        exact List.mem_map_of_mem hx)
      have := ih hnodup.2 hx
      rw [if_neg hy]
      omega

/-- An update of rows with one key loses at most one of them. -/
theorem length_filter_update {κ : Type*} {key : α → κ} {k : κ} (hp : ∀ x, p x = true → key x = k)
    {rows : List α} (hnodup : (rows.map key).Nodup) :
    (rows.filter q).length ≤ ((rows.map fun x => if p x then f x else x).filter q).length + 1 := by
  by_cases hupdated : ∃ x ∈ rows, p x = true
  · obtain ⟨x, hx, hpx⟩ := hupdated
    have := @length_filter_update_eq α p q f κ key k hp rows hnodup x hx hpx
    split_ifs at this <;> omega
  · have hsame : (rows.map fun x => if p x then f x else x) = rows :=
      (List.map_congr_left fun x hx => if_neg fun hpx => hupdated ⟨x, hx, hpx⟩).trans (List.map_id rows)
    rw [hsame]
    exact Nat.le_succ _

end Updates

end Join
end SimpleStorage
