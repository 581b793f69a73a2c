import SimpleStorage.Database.Schema
import SimpleStorage.Library.WildcardSource
import SimpleStorage.Policies.PoliciesService

/-!
# Rules for other origins

A rule allows a request of another origin by patterns for the origin and for the headers that are
to be sent, and by a list of methods.  The first rule that allows a request is the one that is
echoed.

* `CorsRule.Allows`: what a rule says, in terms of what its patterns stand for.
* `wildcardMatch_iff`: the patterns are tested as regular expressions.
* `matchCorsRule_eq_some_iff`, `matchCorsRule_eq_none_iff`: which rule is found.
-/

namespace SimpleStorage

open Regex Wildcard

namespace S3Types

/-- `*` stands for any run of characters, and everything else for itself. -/
def corsToken (unit : ℕ) : Token ℕ := if unit = '*'.toNat then .many else .lit unit

/-- The value is obtained from the pattern. -/
def Fits (pattern value : Text) : Prop :=
  Obtained PoliciesService.dot (pattern.utf16.map corsToken) value.utf16

/-- **A rule allows a request** from an origin, with a method and further headers. -/
structure CorsRule.Allows (J : Strings) (toUpperCase : Text → Text) (rule : CorsRule) (origin method : Text)
    (requestHeaders : List Text) : Prop where
  origin : ∃ allowed ∈ rule.allowedOrigins, Fits allowed origin
  method : toUpperCase method ∈ rule.allowedMethods
  headers : ∀ header ∈ requestHeaders, ∃ allowed ∈ rule.allowedHeaders,
    Fits (J.toLowerCase allowed) (J.toLowerCase header)

end S3Types

namespace BucketsService

open S3Types

/-! ## Patterns -/

/-- The characters a backslash is put before. -/
def patternSyntax : List ℕ := ".+^$\x7b\x7d()|[]\\?".toList.map Char.toNat

def escapedPattern (pattern : List ℕ) : List ℕ :=
  pattern.flatMap fun unit => if unit ∈ patternSyntax then ['\\'.toNat, unit] else [unit]

def patternSource (pattern : List ℕ) : List ℕ :=
  let starred := (escapedPattern pattern).flatMap fun unit =>
    if unit = '*'.toNat then ['.'.toNat, '*'.toNat] else [unit]
  '^'.toNat :: (starred ++ ['$'.toNat])

/-- `wildcardMatch` of origins and headers.  Unlike in a policy, a question mark is one. -/
def wildcardMatch (pattern value : Text) : Bool :=
  (parse (patternSource pattern.utf16)).any fun regex => Regex.test PoliciesService.dot regex value.utf16

/-- The two rounds of replacements write the tokens of the pattern. -/
theorem patternSource_eq (pattern : List ℕ) : patternSource pattern = source (pattern.map corsToken) := by
  have hescaped : ∀ u ∈ patternSyntax, u ∈ syntaxCharacters := by decide
  have hcases : ∀ u ∈ syntaxCharacters, u ∈ patternSyntax ∨ u = '*'.toNat := by decide
  have hstar : '*'.toNat ∉ patternSyntax := by decide
  rw [patternSource, source, escapedPattern, List.flatMap_assoc, List.flatMap_map]
  congr 3
  ext1 unit
  rw [corsToken]
  split_ifs with hmem h h
  · exact absurd (h ▸ hmem) hstar
  · rw [sourceOf, if_pos (hescaped unit hmem), List.flatMap_cons, List.flatMap_singleton, if_neg h]
    rfl
  · rw [List.flatMap_singleton, if_pos h]
    rfl
  · have hplain : unit ∉ syntaxCharacters := fun hmem' => (hcases unit hmem').elim hmem h
    rw [List.flatMap_singleton, if_neg h, sourceOf, if_neg hplain]

/-- **A pattern matches what is obtained from it.** -/
theorem wildcardMatch_iff {pattern value : Text} : wildcardMatch pattern value = true ↔ Fits pattern value := by
  rw [wildcardMatch, patternSource_eq, test_source_iff, Fits]

/-! ## Rules -/

variable (J : Strings) (toUpperCase : Text → Text)

/-- What `matchCorsRule` asks of a rule. -/
def allows (origin method : Text) (requestHeaders : List Text) (rule : CorsRule) : Bool :=
  rule.allowedOrigins.any (fun allowed => wildcardMatch allowed origin) &&
    decide (toUpperCase method ∈ rule.allowedMethods) &&
    requestHeaders.all fun header => rule.allowedHeaders.any fun allowed =>
      wildcardMatch (J.toLowerCase allowed) (J.toLowerCase header)

/-- First rule matching the request's origin and method, i.e. the one whose headers the response
must echo. -/
def matchCorsRule (cors : Option CorsConfiguration) (origin method : Text) (requestHeaders : List Text) :
    Option CorsRule :=
  cors.bind fun configuration => configuration.rules.find? (allows J toUpperCase origin method requestHeaders)

variable {J toUpperCase} {origin method : Text} {requestHeaders : List Text}

theorem allows_iff {rule : CorsRule} :
    allows J toUpperCase origin method requestHeaders rule = true ↔
      rule.Allows J toUpperCase origin method requestHeaders := by
  simp only [allows, Bool.and_eq_true, List.any_eq_true, List.all_eq_true, decide_eq_true_eq, wildcardMatch_iff]
  constructor
  · rintro ⟨⟨horigin, hmethod⟩, hheaders⟩
    exact ⟨horigin, hmethod, hheaders⟩
  · intro h
    exact ⟨⟨h.origin, h.method⟩, h.headers⟩

/-- **The rule found is the first that allows the request.** -/
theorem matchCorsRule_eq_some_iff {cors : Option CorsConfiguration} {rule : CorsRule} :
    matchCorsRule J toUpperCase cors origin method requestHeaders = some rule ↔
      ∃ configuration, cors = some configuration ∧ rule.Allows J toUpperCase origin method requestHeaders ∧
        ∃ before after, configuration.rules = before ++ rule :: after ∧
          ∀ other ∈ before, ¬ other.Allows J toUpperCase origin method requestHeaders := by
  rw [matchCorsRule, Option.bind_eq_some_iff]
  refine exists_congr fun configuration => and_congr_right fun _ => ?_
  rw [List.find?_eq_some_iff_append]
  simp only [allows_iff, Bool.not_eq_eq_eq_not, Bool.not_true, ← Bool.not_eq_true]

theorem matchCorsRule_eq_none_iff {cors : Option CorsConfiguration} :
    matchCorsRule J toUpperCase cors origin method requestHeaders = none ↔
      ∀ configuration, cors = some configuration → ∀ rule ∈ configuration.rules,
        ¬ rule.Allows J toUpperCase origin method requestHeaders := by
  rw [matchCorsRule, Option.bind_eq_none_iff]
  refine forall₂_congr fun configuration _ => ?_
  rw [List.find?_eq_none]
  simp only [allows_iff]

end BucketsService
end SimpleStorage
