import Mathlib.Data.List.Basic

/-!
# Tests that may fail

`anyM`, `allM` and `forM` go through a list until the outcome is settled, and a test that
fails ends them as well.  Which elements are looked at at all depends on the ones before
them: `StopsAt` says that one fails and none before it has settled the outcome.

* `anyM_eq_error_iff`, `allM_eq_error_iff`, `forM_eq_error_iff`: a run fails exactly so.
* `fails_anyM_iff`, `fails_allM_iff`: the same where it does not matter what the failure is.
* `anyM_map_of_ok`, `allM_map_of_ok`, `mapM_map_of_ok`: tests that do not fail are plain ones.
-/

namespace SimpleStorage
namespace ShortCircuit

variable {ε α β : Type}

/-- A test fails with `e`, and the ones before it came out as `v`. -/
def StopsAt (p : α → Except ε β) (v : β) (e : ε) (xs : List α) : Prop :=
  ∃ pre x post, xs = pre ++ x :: post ∧ (∀ y ∈ pre, p y = .ok v) ∧ p x = .error e

variable {p : α → Except ε β} {v : β} {e : ε}

theorem not_stopsAt_nil : ¬ StopsAt p v e [] := by
  rintro ⟨pre, x, post, h, -⟩
  exact List.append_ne_nil_of_right_ne_nil _ (List.cons_ne_nil _ _) h.symm

theorem stopsAt_cons {x : α} {xs : List α} :
    StopsAt p v e (x :: xs) ↔ p x = .error e ∨ p x = .ok v ∧ StopsAt p v e xs := by
  constructor
  · rintro ⟨pre, y, post, h, hpre, hy⟩
    cases pre with
    | nil =>
      obtain ⟨rfl, rfl⟩ := List.cons.inj h
      exact .inl hy
    | cons z pre =>
      obtain ⟨rfl, rfl⟩ := List.cons.inj h
      exact .inr ⟨hpre _ List.mem_cons_self, pre, y, post, rfl,
        fun w hw => hpre w (List.mem_cons_of_mem _ hw), hy⟩
  · rintro (h | ⟨h, pre, y, post, rfl, hpre, hy⟩)
    · exact ⟨[], x, xs, rfl, nofun, h⟩
    · refine ⟨x :: pre, y, post, rfl, fun w hw => ?_, hy⟩
      rcases List.mem_cons.mp hw with rfl | hw
      · exact h
      · exact hpre w hw

/-! ## One after the other -/

theorem bind_eq_ok_iff {x : Except ε α} {f : α → Except ε β} {b : β} :
    x >>= f = .ok b ↔ ∃ a, x = .ok a ∧ f a = .ok b := by
  cases x with
  | error e => exact ⟨nofun, fun ⟨_, h, _⟩ => nomatch h⟩
  | ok a => exact ⟨fun h => ⟨a, rfl, h⟩, fun ⟨_, h, h'⟩ => by cases h; exact h'⟩

theorem bind_eq_error_iff {x : Except ε α} {f : α → Except ε β} :
    x >>= f = .error e ↔ x = .error e ∨ ∃ a, x = .ok a ∧ f a = .error e := by
  cases x with
  | error e' =>
    constructor
    · exact fun h => .inl (congrArg Except.error (Except.error.inj h))
    · rintro (h | ⟨_, h, _⟩)
      · cases h
        rfl
      · cases h
  | ok a => exact ⟨fun h => .inr ⟨a, rfl, h⟩, fun h => by
      rcases h with h | ⟨_, h, h'⟩
      · cases h
      · cases h
        exact h'⟩

/-! ## Runs that fail -/

theorem anyM_eq_error_iff {p : α → Except ε Bool} {xs : List α} :
    xs.anyM p = .error e ↔ StopsAt p false e xs := by
  induction xs with
  | nil => exact ⟨nofun, fun h => absurd h not_stopsAt_nil⟩
  | cons x xs ih =>
    rw [stopsAt_cons, List.anyM, ← ih]
    cases h : p x with
    | error e' => simp [bind, Except.bind]
    | ok b => cases b <;> simp [bind, Except.bind, pure, Except.pure]

theorem allM_eq_error_iff {p : α → Except ε Bool} {xs : List α} :
    xs.allM p = .error e ↔ StopsAt p true e xs := by
  induction xs with
  | nil => exact ⟨nofun, fun h => absurd h not_stopsAt_nil⟩
  | cons x xs ih =>
    rw [stopsAt_cons, List.allM, ← ih]
    cases h : p x with
    | error e' => simp [bind, Except.bind]
    | ok b => cases b <;> simp [bind, Except.bind, pure, Except.pure]

theorem forM_eq_error_iff {p : α → Except ε PUnit} {xs : List α} :
    xs.forM p = .error e ↔ StopsAt p ⟨⟩ e xs := by
  induction xs with
  | nil => exact ⟨nofun, fun h => absurd h not_stopsAt_nil⟩
  | cons x xs ih =>
    rw [stopsAt_cons, ← ih, List.forM_eq_forM, List.forM_cons]
    cases h : p x with
    | error e' => simp [bind, Except.bind]
    | ok b => simp [bind, Except.bind]

theorem forM_eq_ok_iff {p : α → Except ε PUnit} {xs : List α} :
    xs.forM p = .ok ⟨⟩ ↔ ∀ x ∈ xs, p x = .ok ⟨⟩ := by
  induction xs with
  | nil => exact ⟨fun _ => nofun, fun _ => rfl⟩
  | cons x xs ih =>
    rw [List.forall_mem_cons, ← ih, List.forM_eq_forM, List.forM_cons]
    cases h : p x with
    | error e' => simp [bind, Except.bind]
    | ok b => simp [bind, Except.bind]

/-- It fails, no matter how. -/
def Fails (x : Except ε β) : Prop := ∃ e, x = .error e

theorem not_fails_ok {b : β} : ¬ Fails (.ok b : Except ε β) := nofun

theorem fails_error : Fails (.error e : Except ε β) := ⟨e, rfl⟩

theorem fails_bind_iff {x : Except ε α} {f : α → Except ε β} :
    Fails (x >>= f) ↔ Fails x ∨ ∃ a, x = .ok a ∧ Fails (f a) := by
  unfold Fails
  simp only [bind_eq_error_iff, exists_or]
  refine or_congr_right ⟨?_, ?_⟩
  · rintro ⟨e, a, h, h'⟩
    exact ⟨a, h, e, h'⟩
  · rintro ⟨a, h, e, h'⟩
    exact ⟨e, a, h, h'⟩

/-- The tests before some element came out as `v`, and the element is a bad one. -/
def ComesTo (p : α → Except ε β) (v : β) (bad : α → Prop) (xs : List α) : Prop :=
  ∃ pre x post, xs = pre ++ x :: post ∧ (∀ y ∈ pre, p y = .ok v) ∧ bad x

theorem exists_stopsAt_iff {xs : List α} :
    (∃ e, StopsAt p v e xs) ↔ ComesTo p v (fun x => Fails (p x)) xs := by
  constructor
  · rintro ⟨e, pre, x, post, h, hpre, hx⟩
    exact ⟨pre, x, post, h, hpre, e, hx⟩
  · rintro ⟨pre, x, post, h, hpre, e, hx⟩
    exact ⟨e, pre, x, post, h, hpre, hx⟩

theorem fails_anyM_iff {p : α → Except ε Bool} {xs : List α} :
    Fails (xs.anyM p) ↔ ComesTo p false (fun x => Fails (p x)) xs := by
  rw [← exists_stopsAt_iff]
  exact exists_congr fun _ => anyM_eq_error_iff

theorem fails_allM_iff {p : α → Except ε Bool} {xs : List α} :
    Fails (xs.allM p) ↔ ComesTo p true (fun x => Fails (p x)) xs := by
  rw [← exists_stopsAt_iff]
  exact exists_congr fun _ => allM_eq_error_iff

theorem ComesTo.congr {p q : α → Except ε β} {bad bad' : α → Prop} {xs : List α}
    (hp : ∀ x ∈ xs, p x = q x) (hbad : ∀ x ∈ xs, bad x ↔ bad' x) :
    ComesTo p v bad xs ↔ ComesTo q v bad' xs := by
  unfold ComesTo
  refine exists_congr fun pre => exists_congr fun x => exists_congr fun post => ?_
  refine and_congr_right fun h => ?_
  subst h
  refine and_congr (forall₂_congr fun y hy => ?_) (hbad x ?_)
  · rw [hp y (List.mem_append_left _ hy)]
  · exact List.mem_append_right _ List.mem_cons_self

/-- A list is not mapped if one of its elements is not. -/
theorem fails_mapM_iff {f : α → Except ε β} {xs : List α} :
    Fails (xs.mapM f) ↔ ∃ x ∈ xs, Fails (f x) := by
  unfold Fails
  induction xs with
  | nil => simp [pure, Except.pure]
  | cons x xs ih =>
    rw [List.exists_mem_cons_iff, ← ih, List.mapM_cons]
    cases h : f x with
    | error e' => simp [bind, Except.bind]
    | ok b => cases h' : xs.mapM f <;> simp [bind, Except.bind, pure, Except.pure]

/-! ## Tests that do not fail -/

variable {γ : Type} {f : γ → α} {xs : List γ}

theorem anyM_map_of_ok {p : α → Except ε Bool} {q : γ → Bool}
    (h : ∀ x ∈ xs, p (f x) = .ok (q x)) : (xs.map f).anyM p = .ok (xs.any q) := by
  induction xs with
  | nil => rfl
  | cons x xs ih =>
    rw [List.map_cons, List.anyM, h x List.mem_cons_self,
      ih fun y hy => h y (List.mem_cons_of_mem _ hy), List.any_cons]
    cases q x <;> rfl

theorem allM_map_of_ok {p : α → Except ε Bool} {q : γ → Bool}
    (h : ∀ x ∈ xs, p (f x) = .ok (q x)) : (xs.map f).allM p = .ok (xs.all q) := by
  induction xs with
  | nil => rfl
  | cons x xs ih =>
    rw [List.map_cons, List.allM, h x List.mem_cons_self,
      ih fun y hy => h y (List.mem_cons_of_mem _ hy), List.all_cons]
    cases q x <;> rfl

theorem mapM_map_of_ok {p : α → Except ε β} {q : γ → β} (h : ∀ x ∈ xs, p (f x) = .ok (q x)) :
    (xs.map f).mapM p = .ok (xs.map q) := by
  induction xs with
  | nil => rfl
  | cons x xs ih =>
    rw [List.map_cons, List.mapM_cons, h x List.mem_cons_self,
      ih fun y hy => h y (List.mem_cons_of_mem _ hy)]
    rfl

end ShortCircuit
end SimpleStorage
