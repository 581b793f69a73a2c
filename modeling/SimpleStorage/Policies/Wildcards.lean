import SimpleStorage.Library.Regex
import SimpleStorage.Policies.PoliciesService

/-!
# What policy wildcards mean

`PoliciesService.wildcardMatch` rewrites a pattern into the source of a regular expression, in
three rounds of replacements, and tests the value with it.  Here this is done step by step,
on the code units of the strings.

* `regexSource_eq`, `parse_regexSource`: the rounds in one, and what the source is read as.
* `wildcardMatchUnits_eq`, `wildcardMatch_eq`: the test is a match of the pattern's tokens.
* `wildcardMatchUnits_exact_iff`: the wildcards of a regular expression refuse the ends of a
  line, so a pattern means what it says for the values that have no more of these than the
  pattern has itself.
-/

namespace SimpleStorage
namespace PoliciesService

open Regex Wildcard

/-! ## The rewrites -/

/-- The characters `escaped` puts a backslash before. -/
def metacharacters : List ℕ := ".+^$\x7b\x7d()|[]\\".toList.map Char.toNat

def escape (pattern : List ℕ) : List ℕ :=
  pattern.flatMap fun unit => if unit ∈ metacharacters then ['\\'.toNat, unit] else [unit]

def replaceStars (escaped : List ℕ) : List ℕ :=
  escaped.flatMap fun unit => if unit = '*'.toNat then ['.'.toNat, '*'.toNat] else [unit]

def replaceQuestionMarks (escaped : List ℕ) : List ℕ :=
  escaped.flatMap fun unit => if unit = '?'.toNat then ['.'.toNat] else [unit]

def regexSource (pattern : List ℕ) : List ℕ :=
  '^'.toNat :: (replaceQuestionMarks (replaceStars (escape pattern)) ++ ['$'.toNat])

/-- **`wildcardMatch` on code units.**  A source that is no regular expression would be an error. -/
def wildcardMatchUnits (pattern value : List ℕ) : Bool :=
  (parse (regexSource pattern)).any fun regex => Regex.test dot regex value

/-! ## What the source is read as -/

/-- What becomes of one unit. -/
def rewritten (unit : ℕ) : List ℕ :=
  if unit ∈ metacharacters then ['\\'.toNat, unit]
  else if unit = '*'.toNat then ['.'.toNat, '*'.toNat]
  else if unit = '?'.toNat then ['.'.toNat]
  else [unit]

/-- **The three rounds touch different units.** -/
theorem regexSource_eq (pattern : List ℕ) :
    regexSource pattern = '^'.toNat :: (pattern.flatMap rewritten ++ ['$'.toNat]) := by
  rw [regexSource, replaceQuestionMarks, replaceStars, escape, List.flatMap_assoc, List.flatMap_assoc]
  congr 2
  refine congrArg (fun f => pattern.flatMap f) (funext fun unit => ?_)
  rw [rewritten]
  have hstar : '*'.toNat ∉ metacharacters := by decide
  have hmark : '?'.toNat ∉ metacharacters := by decide
  split_ifs with hmeta h h'
  · have hne : unit ≠ '*'.toNat := fun h => hstar (h ▸ hmeta)
    have hne' : unit ≠ '?'.toNat := fun h => hmark (h ▸ hmeta)
    rw [List.flatMap_cons, List.flatMap_cons, List.flatMap_nil, if_neg hne]
    exact congrArg (fun units => '\\'.toNat :: units) (by rw [List.append_nil, List.flatMap_cons, if_neg hne']; rfl)
  · rw [h]
    rfl
  · rw [h']
    rfl
  · rw [List.flatMap_singleton, if_neg h, List.flatMap_singleton, if_neg h']

/-- The term a unit of the pattern is read as. -/
def wildcardTerm (unit : ℕ) : Regex.Term :=
  match wildcardToken unit with
  | .lit u => .once (.char u)
  | .one => .once .dot
  | .many => .star .dot

/-- The items of a unit of the pattern. -/
def wildcardItems (unit : ℕ) : List Item :=
  match wildcardToken unit with
  | .lit u => [.atom (.char u)]
  | .one => [.atom .dot]
  | .many => [.atom .dot, .star]

theorem lex_rewritten (unit : ℕ) (rest : List ℕ) :
    lex (rewritten unit ++ rest) = (lex rest).map (wildcardItems unit ++ ·) := by
  rw [rewritten, wildcardItems, wildcardToken]
  have hsubset : ∀ u ∈ metacharacters, u ∈ syntaxCharacters := by decide
  have hrest : ∀ u ∈ syntaxCharacters, u ∈ metacharacters ∨ u = '*'.toNat ∨ u = '?'.toNat := by decide
  split_ifs with hmeta h h' h h'
  · rw [h] at hmeta
    exact absurd hmeta (by decide)
  · rw [h'] at hmeta
    exact absurd hmeta (by decide)
  · exact lex_escaped (hsubset unit hmeta) rest
  · change lex ('.'.toNat :: '*'.toNat :: rest) = _
    rw [lex_dot, lex_star, Option.map_map]
    rfl
  · exact lex_dot rest
  · exact lex_plain (fun hsyntax => by rcases hrest unit hsyntax with h'' | h'' | h'' <;> contradiction) rest

theorem lex_regexSource (pattern : List ℕ) :
    lex (regexSource pattern) = some (.start :: (pattern.flatMap wildcardItems ++ [.finish])) := by
  have hbody : lex (pattern.flatMap rewritten ++ ['$'.toNat]) =
      some (pattern.flatMap wildcardItems ++ [.finish]) := by
    induction pattern with
    | nil => exact lex_finish []
    | cons unit pattern ih =>
      rw [List.flatMap_cons, List.append_assoc, lex_rewritten, ih, Option.map_some, List.flatMap_cons,
        List.append_assoc]
  rw [regexSource_eq, lex_start, hbody, Option.map_some]

/-- **Every pattern is rewritten to a regular expression**, one term for each of its units. -/
theorem parse_regexSource (pattern : List ℕ) :
    parse (regexSource pattern) = some (.start :: (pattern.map wildcardTerm ++ [.finish])) := by
  have hbody : (pattern.flatMap wildcardItems ++ [Item.finish]).head? ≠ some .star ∧
      group (pattern.flatMap wildcardItems ++ [.finish]) = some (pattern.map wildcardTerm ++ [.finish]) := by
    induction pattern with
    | nil => exact ⟨nofun, rfl⟩
    | cons unit pattern ih =>
      rw [List.flatMap_cons, List.append_assoc, List.map_cons, wildcardItems, wildcardTerm]
      cases wildcardToken unit with
      | lit u => exact ⟨nofun, by rw [List.singleton_append, group_cons_of_not_star _ ih.1, ih.2]; rfl⟩
      | one => exact ⟨nofun, by rw [List.singleton_append, group_cons_of_not_star _ ih.1, ih.2]; rfl⟩
      | many =>
        refine ⟨nofun, ?_⟩
        change group (.atom .dot :: .star :: (pattern.flatMap wildcardItems ++ [.finish])) = _
        rw [group_star, ih.2]
        rfl
  rw [parse, lex_regexSource, Option.bind_some]
  change (group (pattern.flatMap wildcardItems ++ [.finish])).map _ = _
  rw [hbody.2]
  rfl

/-! ## What the test says -/

theorem matchHere_wildcardTerms (pattern : List ℕ) (atStart : Bool) (value : List ℕ) :
    matchHere dot (pattern.map wildcardTerm ++ [.finish]) atStart value =
      matchTokens dot (pattern.map wildcardToken) value := by
  induction pattern generalizing atStart value with
  | nil => exact Bool.and_true _
  | cons unit pattern ih =>
    rw [List.map_cons, List.map_cons, List.cons_append, wildcardTerm]
    cases wildcardToken unit with
    | lit u =>
      cases value with
      | nil => rfl
      | cons x value =>
        change (decide (x = u) && _) = (decide (x = u) && _)
        rw [ih]
    | one =>
      cases value with
      | nil => rfl
      | cons x value =>
        change (dot x && _) = (dot x && _)
        rw [ih]
    | many =>
      rw [matchHere, matchTokens]
      congr 1
      funext n
      rw [ih]
      rfl

/-- **The regular expression matches as the pattern's tokens do.** -/
theorem wildcardMatchUnits_eq (pattern value : List ℕ) :
    wildcardMatchUnits pattern value = matchTokens dot (pattern.map wildcardToken) value := by
  rw [wildcardMatchUnits, parse_regexSource, Option.any_some, test_start, matchHere_wildcardTerms]

theorem wildcardMatch_eq (pattern value : Text) :
    wildcardMatch pattern value = wildcardMatchUnits pattern.utf16 value.utf16 := by
  rw [wildcardMatchUnits_eq, wildcardMatch]

/-- The ends of a line. -/
abbrev lineTerminators (units : List ℕ) : ℕ := refused dot units

theorem refused_wildcardToken (pattern : List ℕ) :
    refused dot ((pattern.map wildcardToken).filterMap Token.literal) = lineTerminators pattern := by
  induction pattern with
  | nil => rfl
  | cons unit pattern ih =>
    have hunit : refused dot (Token.literal (wildcardToken unit)).toList = refused dot [unit] := by
      rw [wildcardToken]
      split_ifs with h h'
      · rw [h]
        rfl
      · rw [h']
        rfl
      · rfl
    have hcons : lineTerminators (unit :: pattern) = refused dot [unit] + lineTerminators pattern :=
      @List.countP_append _ _ [unit] _
    rw [hcons, ← hunit, ← ih, List.map_cons, List.filterMap_cons]
    cases Token.literal (wildcardToken unit) with
    | none => exact (Nat.zero_add _).symm
    | some u => exact @List.countP_append _ _ [u] _

/-- **When a pattern means what it says.**  The value matches if and only if it is obtained from the
pattern by putting any run of characters in the place of each `*` and any character in the place
of each `?` - unless it is, and has more ends of a line than the pattern. -/
theorem wildcardMatchUnits_exact_iff (pattern value : List ℕ) :
    (wildcardMatchUnits pattern value = true ↔ Obtained (fun _ => true) (pattern.map wildcardToken) value) ↔
      (Obtained (fun _ => true) (pattern.map wildcardToken) value →
        lineTerminators value ≤ lineTerminators pattern) := by
  rw [wildcardMatchUnits_eq, matchTokens_iff, obtained_iff_refused, refused_wildcardToken]
  constructor
  · exact fun h hobtained => (h.mpr hobtained).2
  · exact fun h => ⟨And.left, fun hobtained => ⟨hobtained, h hobtained⟩⟩

/-- A key under `secret/` that no pattern `secret/*` matches. -/
theorem separator_unmatched : ¬ ∀ pattern value : List ℕ,
    (wildcardMatchUnits pattern value = true ↔
      Obtained (fun _ => true) (pattern.map wildcardToken) value) := by
  intro h
  have hmatched := (h ("secret/*".toList.map Char.toNat) ("secret/".toList.map Char.toNat ++ [0x2028])).mpr
    (matchTokens_iff.mp (by decide +kernel))
  exact absurd hmatched (by decide +kernel)

end PoliciesService
end SimpleStorage
