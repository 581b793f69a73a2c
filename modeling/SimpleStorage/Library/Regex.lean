import Mathlib.Data.List.Basic
import Mathlib.Data.Nat.Notation

/-!
# Regular expressions

The regular expressions of a scripting language, read from their source text: characters,
characters behind a backslash, the dot, a star behind any of these, and the two anchors.
Whatever else there is, `parse` refuses.  Source and text are code units; which of them the
dot accepts is a parameter.

* `lex`, `group`, `parse`: from the source to its terms.
* `matchHere`, `test`: whether a text has a match that begins here, and anywhere.
* `group_cons_of_not_star`, `group_star`: reading on behind a term.
-/

namespace SimpleStorage
namespace Regex

inductive Atom where
  | char (unit : ℕ)
  | dot
  deriving DecidableEq, Repr

/-- What a source is made of. -/
inductive Item where
  | start
  | finish
  | atom (a : Atom)
  | star
  deriving DecidableEq, Repr

inductive Term where
  | start
  | finish
  | once (a : Atom)
  | star (a : Atom)
  deriving DecidableEq, Repr

/-- The characters that do not stand for themselves. -/
def syntaxCharacters : List ℕ := "^$\\.*+?()[]\x7b\x7d|".toList.map Char.toNat

/-! ## Reading a source -/

def lex : List ℕ → Option (List Item)
  | [] => some []
  | u :: rest =>
      if u = '\\'.toNat then
        match rest with
        | [] => none
        | v :: rest => if v ∈ syntaxCharacters then (lex rest).map (.atom (.char v) :: ·) else none
      else if u = '^'.toNat then (lex rest).map (.start :: ·)
      else if u = '$'.toNat then (lex rest).map (.finish :: ·)
      else if u = '.'.toNat then (lex rest).map (.atom .dot :: ·)
      else if u = '*'.toNat then (lex rest).map (.star :: ·)
      else if u ∈ syntaxCharacters then none
      else (lex rest).map (.atom (.char u) :: ·)

/-- A star belongs to the atom before it. -/
def group : List Item → Option (List Term)
  | [] => some []
  | .start :: rest => (group rest).map (.start :: ·)
  | .finish :: rest => (group rest).map (.finish :: ·)
  | .atom a :: .star :: rest => (group rest).map (.star a :: ·)
  | .atom a :: rest => (group rest).map (.once a :: ·)
  | .star :: _ => none

def parse (source : List ℕ) : Option (List Term) := (lex source).bind group

/-! ## Matching -/

def Atom.accepts (dot : ℕ → Bool) : Atom → ℕ → Bool
  | .char unit, u => u = unit
  | .dot, u => dot u

/-- Is there a match that begins here, at the start of the text or behind it? -/
def matchHere (dot : ℕ → Bool) : List Term → Bool → List ℕ → Bool
  | [], _, _ => true
  | .start :: p, atStart, w => atStart && matchHere dot p atStart w
  | .finish :: p, atStart, w => w.isEmpty && matchHere dot p atStart w
  | .once a :: p, _, w =>
      match w with
      | [] => false
      | x :: w' => a.accepts dot x && matchHere dot p false w'
  | .star a :: p, atStart, w =>
      (List.range (w.length + 1)).any fun n =>
        (w.take n).all (a.accepts dot) && matchHere dot p (atStart && n = 0) (w.drop n)

/-- Is there a match anywhere in the text? -/
def test (dot : ℕ → Bool) (p : List Term) (w : List ℕ) : Bool :=
  (List.range (w.length + 1)).any fun i => matchHere dot p (i = 0) (w.drop i)

variable {dot : ℕ → Bool}

/-- A match of an anchored expression begins at the start. -/
theorem test_start (p : List Term) (w : List ℕ) : test dot (.start :: p) w = matchHere dot p true w := by
  rw [test, List.range_succ_eq_map, List.any_cons, List.any_map, matchHere, decide_eq_true rfl,
    Bool.true_and, List.drop_zero, Bool.or_eq_left_iff_imp]
  intro h
  obtain ⟨i, -, hi⟩ := List.any_eq_true.mp h
  rw [Function.comp_apply, matchHere, decide_eq_false (Nat.succ_ne_zero i), Bool.false_and] at hi
  cases hi

/-! ## Reading on -/

theorem lex_escaped {v : ℕ} (hv : v ∈ syntaxCharacters) (rest : List ℕ) :
    lex ('\\'.toNat :: v :: rest) = (lex rest).map (.atom (.char v) :: ·) := by
  rw [lex.eq_def]
  dsimp only
  rw [if_pos rfl, if_pos hv]

theorem lex_start (rest : List ℕ) : lex ('^'.toNat :: rest) = (lex rest).map (.start :: ·) := by
  rw [lex.eq_def]
  rfl

theorem lex_finish (rest : List ℕ) : lex ('$'.toNat :: rest) = (lex rest).map (.finish :: ·) := by
  rw [lex.eq_def]
  rfl

theorem lex_dot (rest : List ℕ) : lex ('.'.toNat :: rest) = (lex rest).map (.atom .dot :: ·) := by
  rw [lex.eq_def]
  rfl

theorem lex_star (rest : List ℕ) : lex ('*'.toNat :: rest) = (lex rest).map (.star :: ·) := by
  rw [lex.eq_def]
  rfl

/-- A character that stands for itself. -/
theorem lex_plain {u : ℕ} (hu : u ∉ syntaxCharacters) (rest : List ℕ) :
    lex (u :: rest) = (lex rest).map (.atom (.char u) :: ·) := by
  have hne : ∀ v ∈ syntaxCharacters, u ≠ v := fun v hv h => hu (h ▸ hv)
  rw [lex.eq_def]
  dsimp only
  rw [if_neg (hne _ (by decide)), if_neg (hne _ (by decide)), if_neg (hne _ (by decide)),
    if_neg (hne _ (by decide)), if_neg (hne _ (by decide)), if_neg hu]

theorem group_star (a : Atom) (rest : List Item) :
    group (.atom a :: .star :: rest) = (group rest).map (.star a :: ·) := rfl

theorem group_cons_of_not_star (a : Atom) {rest : List Item} (h : rest.head? ≠ some .star) :
    group (.atom a :: rest) = (group rest).map (.once a :: ·) := by
  cases rest with
  | nil => rfl
  | cons item rest =>
    cases item with
    | star => exact absurd rfl h
    | _ => rfl

end Regex
end SimpleStorage
