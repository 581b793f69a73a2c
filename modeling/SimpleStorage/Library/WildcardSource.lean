import SimpleStorage.Library.Regex
import SimpleStorage.Library.Wildcard

/-!
# Wildcards in the source of a regular expression

A wildcard pattern may be tested by writing it as the source of an anchored regular expression,
with a backslash before whatever does not stand for itself.

* `source`: the source for the tokens of a pattern.
* `parse_source`: what it is read as.
* `test_source_iff`: its test says whether the text is obtained from the pattern.
-/

namespace SimpleStorage
namespace Regex

open Wildcard

/-! ## Writing a pattern -/

/-- A token in the source of a regular expression. -/
def sourceOf : Token ℕ → List ℕ
  | .lit u => if u ∈ syntaxCharacters then ['\\'.toNat, u] else [u]
  | .one => ['.'.toNat]
  | .many => ['.'.toNat, '*'.toNat]

def source (tokens : List (Token ℕ)) : List ℕ := '^'.toNat :: (tokens.flatMap sourceOf ++ ['$'.toNat])

/-- The items a token is read as. -/
def itemsOf : Token ℕ → List Item
  | .lit u => [.atom (.char u)]
  | .one => [.atom .dot]
  | .many => [.atom .dot, .star]

/-- The term of a token. -/
def termOf : Token ℕ → Term
  | .lit u => .once (.char u)
  | .one => .once .dot
  | .many => .star .dot

/-! ## Reading it -/

theorem lex_sourceOf (t : Token ℕ) (rest : List ℕ) :
    lex (sourceOf t ++ rest) = (lex rest).map (itemsOf t ++ ·) := by
  cases t with
  | lit u =>
    rw [sourceOf]
    split_ifs with h
    · exact lex_escaped h rest
    · exact lex_plain h rest
  | one => exact lex_dot rest
  | many =>
    show lex ('.'.toNat :: '*'.toNat :: rest) = _
    rw [lex_dot, lex_star, Option.map_map]
    rfl

theorem lex_source (tokens : List (Token ℕ)) :
    lex (source tokens) = some (.start :: (tokens.flatMap itemsOf ++ [.finish])) := by
  have hbody : lex (tokens.flatMap sourceOf ++ ['$'.toNat]) =
      some (tokens.flatMap itemsOf ++ [.finish]) := by
    induction tokens with
    | nil => exact lex_finish []
    | cons t tokens ih =>
      rw [List.flatMap_cons, List.append_assoc, lex_sourceOf, ih, Option.map_some, List.flatMap_cons,
        List.append_assoc]
  rw [source, lex_start, hbody, Option.map_some]

/-- No star is left over: each belongs to its dot. -/
theorem head_items (tokens : List (Token ℕ)) :
    (tokens.flatMap itemsOf ++ [Item.finish]).head? ≠ some .star := by
  cases tokens with
  | nil => simp
  | cons t tokens => cases t <;> simp [itemsOf]

theorem group_items (tokens : List (Token ℕ)) :
    group (tokens.flatMap itemsOf ++ [.finish]) = some (tokens.map termOf ++ [.finish]) := by
  induction tokens with
  | nil => rfl
  | cons t tokens ih =>
    rw [List.flatMap_cons, List.append_assoc, List.map_cons]
    cases t with
    | many =>
      show group (.atom .dot :: .star :: (tokens.flatMap itemsOf ++ [.finish])) = _
      rw [group_star, ih]
      rfl
    | _ =>
      rw [itemsOf, List.singleton_append, group_cons_of_not_star _ (head_items tokens), ih]
      rfl

/-- **A pattern is read as it was written**, one term for each token. -/
theorem parse_source (tokens : List (Token ℕ)) :
    parse (source tokens) = some (.start :: (tokens.map termOf ++ [.finish])) := by
  rw [parse, lex_source, Option.bind_some]
  show (group (tokens.flatMap itemsOf ++ [.finish])).map _ = _
  rw [group_items]
  rfl

/-! ## Testing with it -/

variable {dot : ℕ → Bool}

theorem matchHere_terms (tokens : List (Token ℕ)) (atStart : Bool) (w : List ℕ) :
    matchHere dot (tokens.map termOf ++ [.finish]) atStart w = matchTokens dot tokens w := by
  induction tokens generalizing atStart w with
  | nil => exact Bool.and_true _
  | cons t tokens ih =>
    rw [List.map_cons, List.cons_append]
    cases t with
    | many =>
      rw [termOf, matchHere, matchTokens]
      congr 1
      ext n
      rw [ih]
      rfl
    | _ =>
      cases w with
      | nil => rfl
      | cons x w =>
        rw [termOf, matchHere, matchTokens, ih]
        rfl

/-- **The test of the regular expression says what the pattern stands for.** -/
theorem test_source_iff {tokens : List (Token ℕ)} {w : List ℕ} :
    ((parse (source tokens)).any fun regex => test dot regex w) = true ↔ Obtained dot tokens w := by
  rw [parse_source, Option.any_some, test_start, matchHere_terms, matchTokens_iff]

end Regex
end SimpleStorage
