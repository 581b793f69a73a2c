import Mathlib.Data.List.Lex
import Mathlib.Data.List.Infix
import Mathlib.Order.Interval.Set.OrdConnected

/-!
# Prefixes in the lexicographic order

Words over a linearly ordered alphabet, ordered lexicographically.  The one fact
a listing with folders turns on is that the extensions of a word form an
*interval*: every extension of `p` is at least `p`, and whatever lies between `p`
and one of its extensions is an extension itself.

Two readings of that interval are stated because the two are used apart.

* `IsPrefix.of_le_of_le`: nothing but extensions of `p` lies between `p` and an
  extension of `p`.
* `lt_of_not_isPrefix`: a word past `p` that does not extend `p` is past *every*
  extension of `p`.  A cursor moved back to `p` therefore loses nothing, as long
  as the extensions of `p` are left out.
-/

namespace SimpleStorage
namespace PrefixOrder

variable {α : Type*} [LinearOrder α]

/-- A word is at most each of its extensions. -/
theorem le_of_isPrefix {p w : List α} (h : p <+: w) : p ≤ w := by
  obtain ⟨t, rfl⟩ := h
  induction p with
  | nil => exact not_lt.mp (List.not_lt_nil t)
  | cons a p ih => exact List.cons_le_cons a ih

/-- A proper extension is strictly greater. -/
theorem lt_of_isPrefix_of_ne {p w : List α} (h : p <+: w) (hne : p ≠ w) : p < w :=
  lt_of_le_of_ne (le_of_isPrefix h) hne

/-- Comparing two words by their heads. -/
theorem cons_le_cons_iff_head {a b : α} {p v : List α} :
    a :: p ≤ b :: v ↔ a < b ∨ (a = b ∧ p ≤ v) := by
  rw [← not_lt, List.cons_lt_cons_iff, not_or, not_and, not_lt]
  constructor
  · rintro ⟨hab, htail⟩
    rcases lt_or_eq_of_le hab with h | rfl
    · exact Or.inl h
    · exact Or.inr ⟨rfl, not_lt.mp (htail rfl)⟩
  · rintro (h | ⟨rfl, h⟩)
    · exact ⟨h.le, fun hba => absurd h (hba ▸ lt_irrefl a)⟩
    · exact ⟨le_rfl, fun _ => not_lt.mpr h⟩

/-- **The extensions of a word are an interval.**  A word between `p` and an
extension of `p` extends `p`. -/
theorem isPrefix_of_le_of_le {p v w : List α} (hpv : p ≤ v) (hvw : v ≤ w) (hpw : p <+: w) :
    p <+: v := by
  induction p generalizing v w with
  | nil => exact List.nil_prefix
  | cons a p ih =>
    obtain ⟨t, rfl⟩ := hpw
    cases v with
    | nil => exact absurd hpv (not_le.mpr (List.nil_lt_cons a p))
    | cons b v =>
      rw [List.cons_append] at hvw
      rcases cons_le_cons_iff_head.mp hpv with hab | ⟨rfl, hpv'⟩
      · rcases cons_le_cons_iff_head.mp hvw with hba | ⟨rfl, -⟩
        · exact absurd hab hba.asymm
        · exact absurd hab (lt_irrefl _)
      · rcases cons_le_cons_iff_head.mp hvw with hba | ⟨-, hvw'⟩
        · exact absurd hba (lt_irrefl _)
        · exact List.cons_prefix_cons.mpr ⟨rfl, ih hpv' hvw' (List.prefix_append p t)⟩

/-- **Past a word and not extending it is past all its extensions.** -/
theorem lt_of_not_isPrefix {p v w : List α} (hpv : p ≤ v) (hv : ¬ p <+: v) (hw : p <+: w) :
    w < v := by
  by_contra hle
  exact hv (isPrefix_of_le_of_le hpv (not_lt.mp hle) hw)

/-- A word below an extension of `p` that does not extend `p` is below `p`. -/
theorem lt_of_lt_extension {p v w : List α} (hw : p <+: w) (hvw : v ≤ w) (hv : ¬ p <+: v) :
    v < p := by
  by_contra hle
  exact hv (isPrefix_of_le_of_le (not_lt.mp hle) hvw hw)

end PrefixOrder
end SimpleStorage
