import SimpleStorage.Database.Schema
import SimpleStorage.Library.Utf8
import SimpleStorage.Library.Wildcard
import Mathlib.Data.List.Sort

/-!
# Conditions and orders of a query

The SQL fragments the services share: prefix conditions written with `LIKE`, and
comparisons under the `C` collation, which compares UTF-8 bytes.

* `likePrefix_iff`: escaping a prefix and matching it with `LIKE` is testing for the
  prefix.  This is where `%`, `_` and `\` in a key have to be harmless.
* `collatedGreater_iff`: byte order is the order of the texts themselves.
-/

namespace SimpleStorage
namespace Query

/-- The pattern of a `LIKE`: `%` and `_` are wildcards, `\` takes the next character
literally.  A pattern that ends in a lone `\` is an error. -/
def likeTokens : Text → Option (List (Wildcard.Token Char))
  | [] => some []
  | '%' :: p => (likeTokens p).map (.many :: ·)
  | '_' :: p => (likeTokens p).map (.one :: ·)
  | ['\\'] => none
  | '\\' :: c :: p => (likeTokens p).map (.lit c :: ·)
  | c :: p => (likeTokens p).map (.lit c :: ·)

/-- `value LIKE pattern`. -/
def like (value pattern : Text) : Bool :=
  match likeTokens pattern with
  | some p => Wildcard.matchTokens (fun _ => true) p value
  | none => false

/-- A `\` before each character with a meaning in a `LIKE` pattern. -/
def escapeLike (value : Text) : Text :=
  value.flatMap fun c => if c = '%' ∨ c = '_' ∨ c = '\\' then ['\\', c] else [c]

def likePrefix (column pre : Text) : Bool := like column (escapeLike pre ++ ['%'])

def notLikePrefix (column pre : Text) : Bool := !like column (escapeLike pre ++ ['%'])

theorem likeTokens_escapeLike (value p : Text) :
    likeTokens (escapeLike value ++ p) =
      (likeTokens p).map (value.map Wildcard.Token.lit ++ ·) := by
  induction value with
  | nil => simp [escapeLike]
  | cons c value ih =>
    have hcons : escapeLike (c :: value) ++ p =
        (if c = '%' ∨ c = '_' ∨ c = '\\' then ['\\', c] else [c]) ++ (escapeLike value ++ p) := by
      simp [escapeLike]
    have hstep : likeTokens (escapeLike (c :: value) ++ p) =
        (likeTokens (escapeLike value ++ p)).map (.lit c :: ·) := by
      rw [hcons]
      split_ifs with h
      · rfl
      · rw [not_or, not_or] at h
        rw [List.singleton_append, likeTokens]
        · exact h.1
        · exact h.2.1
        · exact fun hc _ => h.2.2 hc
        · exact fun _ _ hc _ => h.2.2 hc
    rw [hstep, ih, Option.map_map]
    rfl

/-- **`LIKE` on an escaped prefix is a prefix test.** -/
theorem likePrefix_iff {column pre : Text} : likePrefix column pre = true ↔ pre <+: column := by
  have htokens : likeTokens (escapeLike pre ++ ['%']) =
      some (pre.map Wildcard.Token.lit ++ [.many]) := by
    rw [likeTokens_escapeLike]
    rfl
  rw [likePrefix, like, htokens]
  exact Wildcard.matchTokens_prefix fun _ => rfl

theorem notLikePrefix_iff {column pre : Text} :
    notLikePrefix column pre = true ↔ ¬ pre <+: column := by
  rw [← likePrefix_iff, notLikePrefix, likePrefix, Bool.not_eq_true', Bool.not_eq_true]

/-- `column COLLATE "C" > value`. -/
def collatedGreater (column value : Text) : Bool := decide (Utf8.encode value < Utf8.encode column)

/-- `column COLLATE "C" >= value`. -/
def collatedGreaterOrEqual (column value : Text) : Bool :=
  !decide (Utf8.encode column < Utf8.encode value)

theorem collatedGreater_iff {column value : Text} :
    collatedGreater column value = true ↔ value < column := by
  rw [collatedGreater, decide_eq_true_iff, Utf8.encode_lt_encode_iff]

theorem collatedGreaterOrEqual_iff {column value : Text} :
    collatedGreaterOrEqual column value = true ↔ value ≤ column := by
  rw [collatedGreaterOrEqual, Bool.not_eq_true', decide_eq_false_iff_not,
    Utf8.encode_lt_encode_iff, not_lt]

/-- A text that is neither `undefined` nor empty: what a condition on it tests. -/
def present : Option Text → Option Text
  | some (c :: s) => some (c :: s)
  | _ => none

theorem present_eq_some_iff {x : Option Text} {s : Text} :
    present x = some s ↔ x = some s ∧ s ≠ [] := by
  match x with
  | none => simp [present]
  | some [] => simp [present]
  | some (c :: t) =>
    simp only [present, Option.some.injEq, iff_self_and]
    rintro rfl
    exact List.cons_ne_nil c t

end Query
end SimpleStorage
