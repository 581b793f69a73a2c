import Mathlib.Data.List.Infix
import Mathlib.Data.List.Forall2

/-!
# Wildcard patterns

Patterns of literal letters, of a wildcard for one letter and of a wildcard for any run
of letters, matched against a whole word.  Which letters the wildcards accept is a
parameter: a regular expression's dot does not accept a line break, an SQL pattern's
wildcards accept everything.

* `matchTokens_prefix`: letters and a wildcard for a run behind them.
* `Obtained`, `matchTokens_iff`: a word matches if it is obtained from the pattern.
* `obtained_iff_refused`: what it takes when the wildcards refuse some letters.
-/

namespace SimpleStorage
namespace Wildcard

inductive Token (α : Type*) where
  | lit : α → Token α
  | one : Token α
  | many : Token α
  deriving DecidableEq, Repr

variable {α : Type*} [DecidableEq α] (dot : α → Bool)

/-- Does the pattern match the whole word? -/
def matchTokens : List (Token α) → List α → Bool
  | [], w => w.isEmpty
  | .lit a :: p, w =>
      match w with
      | [] => false
      | x :: w' => x = a && matchTokens p w'
  | .one :: p, w =>
      match w with
      | [] => false
      | x :: w' => dot x && matchTokens p w'
  | .many :: p, w =>
      (List.range (w.length + 1)).any fun n => (w.take n).all dot && matchTokens p (w.drop n)

variable {dot}

/-- A pattern that begins with letters matches what begins with them. -/
theorem matchTokens_lit_append {u : List α} {p : List (Token α)} {w : List α} :
    matchTokens dot (u.map Token.lit ++ p) w = true ↔ ∃ v, w = u ++ v ∧ matchTokens dot p v = true := by
  induction u generalizing w with
  | nil => simp
  | cons a u ih =>
    cases w with
    | nil => simp [matchTokens]
    | cons x w =>
      simp only [List.map_cons, List.cons_append, matchTokens, Bool.and_eq_true,
        decide_eq_true_eq, ih, List.cons.injEq]
      constructor
      · rintro ⟨rfl, v, rfl, hv⟩
        exact ⟨v, ⟨rfl, rfl⟩, hv⟩
      · rintro ⟨v, ⟨rfl, rfl⟩, hv⟩
        exact ⟨rfl, v, rfl, hv⟩

/-- The wildcard for a run, at the end, matches whatever its letters allow. -/
theorem matchTokens_many {w : List α} : matchTokens dot [.many] w = true ↔ w.all dot = true := by
  simp only [matchTokens, List.any_eq_true, List.mem_range, Bool.and_eq_true, List.isEmpty_iff,
    List.drop_eq_nil_iff]
  constructor
  · rintro ⟨n, -, hall, hn⟩
    rwa [List.take_of_length_le hn] at hall
  · intro hall
    exact ⟨w.length, by omega, by rwa [List.take_length], le_rfl⟩

/-- **A prefix pattern is a prefix test** when the wildcard accepts every letter. -/
theorem matchTokens_prefix {u w : List α} (hdot : ∀ a, dot a = true) :
    matchTokens dot (u.map Token.lit ++ [.many]) w = true ↔ u <+: w := by
  rw [matchTokens_lit_append]
  constructor
  · rintro ⟨v, rfl, -⟩
    exact List.prefix_append u v
  · rintro ⟨v, rfl⟩
    exact ⟨v, rfl, matchTokens_many.mpr (List.all_eq_true.mpr fun a _ => hdot a)⟩

/-! ## What a pattern stands for -/

/-- What may be put in the place of a token. -/
def Token.Stands (dot : α → Bool) : Token α → List α → Prop
  | .lit a, run => run = [a]
  | .one, run => ∃ x, run = [x] ∧ dot x = true
  | .many, run => run.all dot = true

variable (dot) in
/-- **The word is obtained from the pattern** by putting something in the place of each token. -/
def Obtained (p : List (Token α)) (w : List α) : Prop :=
  ∃ runs, List.Forall₂ (Token.Stands dot) p runs ∧ w = runs.flatten

omit [DecidableEq α] in
theorem obtained_cons {t : Token α} {p : List (Token α)} {w : List α} :
    Obtained dot (t :: p) w ↔ ∃ run v, t.Stands dot run ∧ Obtained dot p v ∧ w = run ++ v := by
  constructor
  · rintro ⟨_, ⟨⟩, rfl⟩
    next run runs hrun hruns =>
    exact ⟨run, runs.flatten, hrun, ⟨runs, hruns, rfl⟩, List.flatten_cons⟩
  · rintro ⟨run, v, hrun, ⟨runs, hruns, rfl⟩, rfl⟩
    exact ⟨run :: runs, .cons hrun hruns, List.flatten_cons.symm⟩

/-- **Matching is obtaining.** -/
theorem matchTokens_iff {p : List (Token α)} {w : List α} :
    matchTokens dot p w = true ↔ Obtained dot p w := by
  induction p generalizing w with
  | nil =>
    rw [matchTokens, List.isEmpty_iff]
    constructor
    · rintro rfl
      exact ⟨[], .nil, rfl⟩
    · rintro ⟨_, ⟨⟩, rfl⟩
      rfl
  | cons t p ih =>
    rw [obtained_cons]
    cases t with
    | lit a =>
      cases w with
      | nil => exact iff_of_false nofun fun ⟨_, _, h, _, hw⟩ => by rw [h] at hw; cases hw
      | cons x w =>
        rw [matchTokens, Bool.and_eq_true, decide_eq_true_iff, ih]
        constructor
        · rintro ⟨rfl, h⟩
          exact ⟨[x], w, rfl, h, rfl⟩
        · rintro ⟨_, v, rfl, h, hw⟩
          obtain ⟨rfl, rfl⟩ := List.cons.inj hw
          exact ⟨rfl, h⟩
    | one =>
      cases w with
      | nil => exact iff_of_false nofun fun ⟨_, _, ⟨_, h, _⟩, _, hw⟩ => by rw [h] at hw; cases hw
      | cons x w =>
        rw [matchTokens, Bool.and_eq_true, ih]
        constructor
        · rintro ⟨hx, h⟩
          exact ⟨[x], w, ⟨x, rfl, hx⟩, h, rfl⟩
        · rintro ⟨_, v, ⟨y, rfl, hy⟩, h, hw⟩
          obtain ⟨rfl, rfl⟩ := List.cons.inj hw
          exact ⟨hy, h⟩
    | many =>
      rw [matchTokens, List.any_eq_true]
      constructor
      · rintro ⟨n, -, h⟩
        rw [Bool.and_eq_true, ih] at h
        exact ⟨w.take n, w.drop n, h.1, h.2, (List.take_append_drop n w).symm⟩
      · rintro ⟨run, v, hrun, hv, rfl⟩
        refine ⟨run.length, List.mem_range.mpr ?_, ?_⟩
        · rw [List.length_append]
          omega
        · rw [List.take_left, List.drop_left, Bool.and_eq_true, ih]
          exact ⟨hrun, hv⟩

/-! ## Letters the wildcards refuse -/

/-- A letter a pattern stands for by itself. -/
def Token.literal : Token α → Option α
  | .lit a => some a
  | _ => none

variable (dot) in
/-- How many letters the wildcards refuse. -/
def refused (w : List α) : ℕ := w.countP fun a => !dot a

omit [DecidableEq α] in
theorem refused_eq_zero {w : List α} : refused dot w = 0 ↔ w.all dot = true := by
  rw [refused, List.countP_eq_zero, List.all_eq_true]
  exact forall₂_congr fun a _ => by rw [Bool.not_eq_true', Bool.not_eq_false]

omit [DecidableEq α] in
/-- What stands in the place of a token has the letters the token has, and is put there by a
wildcard that refuses some if and only if it has no others. -/
theorem Token.stands_iff {t : Token α} {run : List α} :
    t.Stands dot run ↔ t.Stands (fun _ => true) run ∧ refused dot run ≤ refused dot t.literal.toList := by
  cases t with
  | lit a =>
    refine (and_iff_left_of_imp ?_).symm
    rintro rfl
    exact le_rfl
  | one =>
    constructor
    · rintro ⟨x, rfl, hx⟩
      exact ⟨⟨x, rfl, rfl⟩, (refused_eq_zero.mpr (List.all_eq_true.mpr (by simp [hx]))).le⟩
    · rintro ⟨⟨x, rfl, -⟩, h⟩
      exact ⟨x, rfl, List.all_eq_true.mp (refused_eq_zero.mp (Nat.le_zero.mp h)) x List.mem_cons_self⟩
  | many =>
    constructor
    · exact fun h => ⟨List.all_eq_true.mpr fun _ _ => rfl, (refused_eq_zero.mpr h).le⟩
    · exact fun h => refused_eq_zero.mp (Nat.le_zero.mp h.2)

omit [DecidableEq α] in
theorem Token.refused_le {t : Token α} {run : List α} (h : t.Stands (fun _ => true) run) :
    refused dot t.literal.toList ≤ refused dot run := by
  cases t with
  | lit a => exact (congrArg (refused dot) h).ge
  | one => exact Nat.zero_le _
  | many => exact Nat.zero_le _

omit [DecidableEq α] in
/-- **When wildcards that refuse some letters do**: the word has no more of these than the pattern. -/
theorem obtained_iff_refused {p : List (Token α)} {w : List α} :
    Obtained dot p w ↔ Obtained (fun _ => true) p w ∧ refused dot w ≤ refused dot (p.filterMap Token.literal) := by
  -- For the converse, no run has fewer of them than its token, so none has more.
  have hruns : ∀ {runs : List (List α)}, List.Forall₂ (Token.Stands fun _ => true) p runs →
      refused dot (p.filterMap Token.literal) ≤ refused dot runs.flatten ∧
        (List.Forall₂ (Token.Stands dot) p runs ↔
          refused dot runs.flatten ≤ refused dot (p.filterMap Token.literal)) := by
    intro runs h
    induction h with
    | nil => exact ⟨le_rfl, iff_of_true .nil le_rfl⟩
    | @cons t run p runs hrun _ ih =>
      have hliteral : refused dot ((t :: p).filterMap Token.literal) =
          refused dot t.literal.toList + refused dot (p.filterMap Token.literal) := by
        rw [List.filterMap_cons]
        cases t.literal with
        | none => exact (Nat.zero_add _).symm
        | some a => exact @List.countP_append _ _ [a] _
      have hflatten : refused dot (run :: runs).flatten = refused dot run + refused dot runs.flatten := by
        rw [List.flatten_cons, refused, List.countP_append]
        rfl
      have hle := @Token.refused_le _ dot _ _ hrun
      rw [hliteral, hflatten, List.forall₂_cons, Token.stands_iff, ih.2]
      refine ⟨Nat.add_le_add hle ih.1, ?_⟩
      have hrest := ih.1
      constructor
      · rintro ⟨⟨-, h⟩, h'⟩
        exact Nat.add_le_add h h'
      · intro h
        exact ⟨⟨hrun, by omega⟩, by omega⟩
  constructor
  · rintro ⟨runs, h, rfl⟩
    have hany : List.Forall₂ (Token.Stands fun _ => true) p runs := h.imp fun t run h => (Token.stands_iff.mp h).1
    exact ⟨⟨runs, hany, rfl⟩, (hruns hany).2.mp h⟩
  · rintro ⟨⟨runs, h, rfl⟩, hle⟩
    exact ⟨runs, (hruns h).2.mpr hle, rfl⟩

end Wildcard
end SimpleStorage
