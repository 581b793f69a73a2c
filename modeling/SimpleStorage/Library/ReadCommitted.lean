import Mathlib.Data.List.Basic
import Mathlib.Data.List.MinMax

/-!
# Rows under READ COMMITTED

A row has a committed content and, while a transaction that wrote it is open, a pending
one.  A statement sees what is committed, and what its own transaction has pending on top
of it.  It writes a row by making the new content pending, which locks the row: another
transaction that wants to write it waits until the first one is over.

A table is a list of such rows.  A row that was never committed is one an open transaction
inserted; a row whose committed content is gone is one that was deleted.

* `Row.see_other`, `Row.lockedFor_other`: what is pending is hidden from others and locked for them.
* `newestBy_eq`: a row later than all others is the newest.
-/

namespace SimpleStorage
namespace ReadCommitted

variable {τ α : Type*} [DecidableEq τ]

/-! ## One row -/

/-- What is committed, and what a transaction has pending on top of it. -/
structure Row (τ α : Type*) where
  committed : Option α
  pending : Option (τ × Option α) := none
  deriving DecidableEq

namespace Row

/-- What a statement of the transaction sees. -/
def see (t : τ) (r : Row τ α) : Option α :=
  match r.pending with
  | some (u, x) => if u = t then x else r.committed
  | none => r.committed

/-- Another transaction has written the row and is still open. -/
def lockedFor (t : τ) (r : Row τ α) : Bool :=
  match r.pending with
  | some (u, _) => u ≠ t
  | none => false

def write (t : τ) (x : Option α) (r : Row τ α) : Row τ α := { r with pending := some (t, x) }

def commit (t : τ) (r : Row τ α) : Row τ α :=
  match r.pending with
  | some (u, x) => if u = t then ⟨x, none⟩ else r
  | none => r

def rollback (t : τ) (r : Row τ α) : Row τ α :=
  match r.pending with
  | some (u, _) => if u = t then ⟨r.committed, none⟩ else r
  | none => r

@[simp] theorem see_committed (t : τ) (x : Option α) : (⟨x, none⟩ : Row τ α).see t = x := rfl

@[simp] theorem see_own (t : τ) (x y : Option α) : (⟨x, some (t, y)⟩ : Row τ α).see t = y :=
  if_pos rfl

theorem see_other {t u : τ} (h : u ≠ t) (x y : Option α) :
    (⟨x, some (u, y)⟩ : Row τ α).see t = x := if_neg h

@[simp] theorem lockedFor_committed (t : τ) (x : Option α) :
    (⟨x, none⟩ : Row τ α).lockedFor t = false := rfl

@[simp] theorem lockedFor_own (t : τ) (x y : Option α) :
    (⟨x, some (t, y)⟩ : Row τ α).lockedFor t = false := by
  simp [lockedFor]

theorem lockedFor_other {t u : τ} (h : u ≠ t) (x y : Option α) :
    (⟨x, some (u, y)⟩ : Row τ α).lockedFor t = true := by
  simp [lockedFor, h]

@[simp] theorem commit_committed (t : τ) (x : Option α) :
    (⟨x, none⟩ : Row τ α).commit t = ⟨x, none⟩ := rfl

@[simp] theorem commit_own (t : τ) (x y : Option α) :
    (⟨x, some (t, y)⟩ : Row τ α).commit t = ⟨y, none⟩ := if_pos rfl

theorem commit_other {t u : τ} (h : u ≠ t) (x y : Option α) :
    (⟨x, some (u, y)⟩ : Row τ α).commit t = ⟨x, some (u, y)⟩ := if_neg h

end Row

/-! ## Tables -/

/-- The rows a statement of the transaction sees. -/
def rows (t : τ) (table : List (Row τ α)) : List α := table.filterMap (Row.see t)

def insertRow (t : τ) (x : α) (table : List (Row τ α)) : List (Row τ α) :=
  table ++ [⟨none, some (t, some x)⟩]

/-- A statement that writes the rows with the given property waits for a row another
transaction has locked. -/
def waits (t : τ) (p : α → Bool) (table : List (Row τ α)) : Bool :=
  table.any fun r => r.lockedFor t && (r.see t).any p

/-- Delete the rows with the given property. -/
def deleteWhere (t : τ) (p : α → Bool) (table : List (Row τ α)) : List (Row τ α) :=
  table.map fun r => if (r.see t).any p then r.write t none else r

def commit (t : τ) (table : List (Row τ α)) : List (Row τ α) := table.map (Row.commit t)

def rollback (t : τ) (table : List (Row τ α)) : List (Row τ α) := table.map (Row.rollback t)

@[simp] theorem mem_rows {t : τ} {table : List (Row τ α)} {x : α} :
    x ∈ rows t table ↔ ∃ r ∈ table, r.see t = some x := by
  rw [rows, List.mem_filterMap]

theorem rows_append (t : τ) (table table' : List (Row τ α)) :
    rows t (table ++ table') = rows t table ++ rows t table' := List.filterMap_append

/-- The first row with the greatest value: `ORDER BY f DESC LIMIT 1`. -/
def newestBy (f : α → ℕ) (xs : List α) : Option α := xs.argmax f

theorem newestBy_mem {f : α → ℕ} {xs : List α} {x : α} (h : newestBy f xs = some x) : x ∈ xs :=
  List.argmax_mem h

theorem newestBy_eq_none {f : α → ℕ} {xs : List α} : newestBy f xs = none ↔ xs = [] :=
  List.argmax_eq_none

/-- A row later than all others is the newest. -/
theorem newestBy_eq {f : α → ℕ} {xs : List α} {x : α} (hx : x ∈ xs)
    (hlt : ∀ y ∈ xs, y ≠ x → f y < f x) : newestBy f xs = some x := by
  cases h : newestBy f xs with
  | none =>
    rw [newestBy_eq_none.mp h] at hx
    cases hx
  | some y =>
    by_cases hyx : y = x
    · rw [hyx]
    · have hle : f x ≤ f y := List.le_of_mem_argmax hx h
      exact absurd (hlt y (newestBy_mem h) hyx) (not_lt.mpr hle)

end ReadCommitted
end SimpleStorage
