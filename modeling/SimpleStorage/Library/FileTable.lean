import Mathlib.Data.List.Basic

/-!
# A table of files

Contents under names, as a list of bindings of which the first one counts.  Writing a
file puts its binding in front and drops the older ones, so that listing the table shows
each name once.

* `get_set_self`, `get_set_of_ne`, `get_remove_self`, `get_remove_of_ne`: what the
  operations change and what they leave.
-/

namespace SimpleStorage

/-- Contents under names. -/
structure FileTable (κ α : Type) where
  bindings : List (κ × α) := []
  deriving DecidableEq, Repr

namespace FileTable

variable {κ α : Type} [DecidableEq κ] (t : FileTable κ α) (k : κ)

def get : Option α := (t.bindings.find? (·.1 = k)).map (·.2)

def remove : FileTable κ α := ⟨t.bindings.filter (·.1 ≠ k)⟩

def set (a : α) : FileTable κ α := ⟨(k, a) :: (t.remove k).bindings⟩

@[simp] theorem get_empty : (⟨[]⟩ : FileTable κ α).get k = none := rfl

variable {t k} in
theorem mem_of_get {a : α} (h : t.get k = some a) : (k, a) ∈ t.bindings := by
  rw [get, Option.map_eq_some_iff] at h
  obtain ⟨⟨j, b⟩, hfile, rfl⟩ := h
  have hj : j = k := by simpa using List.find?_some hfile
  exact hj ▸ List.mem_of_find?_eq_some hfile

@[simp] theorem get_remove_self : (t.remove k).get k = none := by
  rw [get, Option.map_eq_none_iff, List.find?_eq_none]
  intro b hb
  simpa using (List.mem_filter.mp hb).2

variable {t k}

theorem get_remove_of_ne {j : κ} (h : j ≠ k) : (t.remove k).get j = t.get j := by
  rw [get, get, remove, List.find?_filter]
  congr 2
  funext b
  by_cases hb : b.1 = j
  · simp [hb, h]
  · simp [hb]

theorem get_remove_of_none {j : κ} (h : t.get j = none) : (t.remove k).get j = none := by
  by_cases hj : j = k
  · rw [hj, get_remove_self]
  · rwa [get_remove_of_ne hj]

@[simp] theorem get_set_self {a : α} : (t.set k a).get k = some a := by
  simp [get, set]

theorem get_set_of_ne {j : κ} {a : α} (h : j ≠ k) : (t.set k a).get j = t.get j := by
  rw [← get_remove_of_ne (t := t) h, get, get, set, List.find?_cons_of_neg]
  simpa using h.symm

/-- Removing files one after the other. -/
def removeAll (t : FileTable κ α) (ks : List κ) : FileTable κ α := ks.foldl remove t

theorem get_removeAll_of_notMem {ks : List κ} {j : κ} (h : j ∉ ks) :
    (t.removeAll ks).get j = t.get j := by
  induction ks generalizing t with
  | nil => rfl
  | cons k ks ih =>
    rw [List.mem_cons, not_or] at h
    change ((t.remove k).removeAll ks).get j = t.get j
    rw [ih h.2, get_remove_of_ne h.1]

theorem get_removeAll_of_mem {ks : List κ} {j : κ} (h : j ∈ ks) : (t.removeAll ks).get j = none := by
  induction ks generalizing t with
  | nil => cases h
  | cons k ks ih =>
    change ((t.remove k).removeAll ks).get j = none
    by_cases hmem : j ∈ ks
    · exact ih hmem
    · obtain rfl := (List.mem_cons.mp h).resolve_right hmem
      rw [get_removeAll_of_notMem hmem, get_remove_self]

end FileTable
end SimpleStorage
