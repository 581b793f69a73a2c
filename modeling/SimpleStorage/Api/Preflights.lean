import SimpleStorage.Api.ConfigurationReads
import SimpleStorage.Buckets.CorsRules
import SimpleStorage.Library.LastWrite
import SimpleStorage.S3.ObjectHeaders

/-!
# Preflights

Before a browser sends a request to a bucket for a page of another site, it asks whether it may.
The answer is the first rule that allows the request, of the rules that were put last.

* `preflight`: what both handlers of `OPTIONS` do.
* `Stands`: the request that put the rules a bucket has.
* `options_told`: every answer, after every run.
-/

namespace SimpleStorage

open Program S3Types

namespace S3ResponseService

/-- `values.join(', ')`. -/
def listed (values : List Text) : Text := ", ".toList.intercalate values

def listHeader (name : String) (values : List Text) : Headers :=
  if values = [] then [] else [(name.toList, listed values)]

/-- Echoes the CORS rule that matched back to the browser. -/
def applyCorsHeaders (numberText : ℚ → Text) (rule : CorsRule) (origin method : Text) : Headers :=
  [("Access-Control-Allow-Origin".toList, if "*".toList ∈ rule.allowedOrigins then "*".toList else origin),
    ("Access-Control-Allow-Methods".toList, listed rule.allowedMethods), ("Vary".toList, "Origin".toList)] ++
  listHeader "Access-Control-Allow-Headers" rule.allowedHeaders ++
  listHeader "Access-Control-Expose-Headers" rule.exposeHeaders ++
  (rule.maxAgeSeconds.map fun seconds =>
    ("Access-Control-Max-Age".toList, seconds.elim "null".toList numberText)).toList ++
  listHeader "Access-Control-Allow-Method" ([method].filter (· ≠ []))

/-- What the server accepts as the value of a header. -/
def sendable (value : Text) : Bool :=
  value.all fun c => c = '\t' || (0x20 ≤ c.toNat && c.toNat ≤ 0xff && c.toNat ≠ 0x7f)

end S3ResponseService

namespace S3Types

/-- How a preflight ends without a rule that is echoed. -/
inductive PreflightFault where
  | originNeeded (resource : Text)
  | notAllowed (resource : Text)
  /-- The rule has a value that is no value of a header. -/
  | unsendable
  deriving DecidableEq, Repr

end S3Types

namespace S3RequestService

open Express

variable (J : Strings)

/-- The origin, the method and the headers a preflight asks about. -/
def preflightOrigin (req : Express.Request) : Option Text := Query.present (header J req "origin".toList)

def preflightMethod (req : Express.Request) : Text :=
  (header J req "access-control-request-method".toList).getD "GET".toList

def preflightHeaders (req : Express.Request) : List Text :=
  ((Text.split ',' ((header J req "access-control-request-headers".toList).getD [])).map Text.trim).filter (· ≠ [])

end S3RequestService

open S3RequestService S3ResponseService

section Handlers

variable (J : Strings) (toUpperCase : Text → Text) (numberText : ℚ → Text)

/-- CORS preflight for browser clients, answered from the bucket's `CORSConfiguration`. -/
def preflight (resource : Text) (req : Express.Request) : Service (Except PreflightFault Headers) :=
  match preflightOrigin J req with
  | none => pure (.error (.originNeeded resource))
  | some origin => do
      let bucket ← BucketsService.getConfigured (bucketAndKey req).1
      match BucketsService.matchCorsRule J toUpperCase bucket.cors origin (preflightMethod J req)
        (preflightHeaders J req) with
      | none => return .error (.notAllowed resource)
      | some rule =>
          let headers := applyCorsHeaders numberText rule origin (preflightMethod J req)
          if headers.all fun entry => sendable entry.2 then return .ok headers else return .error .unsendable

/-- `OPTIONS` of a bucket. -/
def S3BucketController.options (req : Express.Request) : Service (Except PreflightFault Headers) :=
  preflight J toUpperCase numberText (bucketAndKey req).1 req

/-- `OPTIONS` of an object. -/
def S3ObjectController.options (req : Express.Request) : Service (Except PreflightFault Headers) :=
  preflight J toUpperCase numberText (bucketAndKey req).2 req

/-! ## What is told -/

/-- **The rule that is echoed**: the first that allows the request. -/
def Echoed (rules : Option CorsConfiguration) (origin : Text) (req : Express.Request) (rule : CorsRule) : Prop :=
  ∃ configuration, rules = some configuration ∧
    rule.Allows J toUpperCase origin (preflightMethod J req) (preflightHeaders J req) ∧
    ∃ before after, configuration.rules = before ++ rule :: after ∧
      ∀ other ∈ before, ¬ other.Allows J toUpperCase origin (preflightMethod J req) (preflightHeaders J req)

/-- What a preflight is told by the rules of the bucket. -/
def Preflighted (rules : Option CorsConfiguration) (resource : Text) (req : Express.Request) :
    Except PreflightFault Headers → Prop
  | .ok headers => ∃ origin rule, preflightOrigin J req = some origin ∧
      Echoed J toUpperCase rules origin req rule ∧
      headers = applyCorsHeaders numberText rule origin (preflightMethod J req) ∧
      ∀ entry ∈ headers, sendable entry.2
  | .error .unsendable => ∃ origin rule, preflightOrigin J req = some origin ∧
      Echoed J toUpperCase rules origin req rule ∧
      ∃ entry ∈ applyCorsHeaders numberText rule origin (preflightMethod J req), ¬ sendable entry.2
  | .error (.notAllowed r) => r = resource ∧ ∃ origin, preflightOrigin J req = some origin ∧
      ∀ configuration, rules = some configuration → ∀ rule ∈ configuration.rules,
        ¬ rule.Allows J toUpperCase origin (preflightMethod J req) (preflightHeaders J req)
  | .error (.originNeeded r) => r = resource ∧ preflightOrigin J req = none

variable {J toUpperCase numberText}

theorem preflight_spec (resource : Text) (req : Express.Request) (w : World) :
    wp (preflight J toUpperCase numberText resource req)
      (fun answer w' => w' = w ∧ Preflighted J toUpperCase numberText
        ((registry w.db (bucketAndKey req).1).bind (·.cors)) resource req answer)
      (fun e w' => w' = w ∧ e = .bucketNotFound ∧ registry w.db (bucketAndKey req).1 = none) w := by
  rw [preflight]
  cases horigin : preflightOrigin J req with
  | none => exact ⟨rfl, rfl, horigin⟩
  | some origin =>
    dsimp only
    rw [wp_bind]
    refine wp_mono (BucketsService.getConfigured_spec _ w) ?_ ?_
    · rintro _ w' ⟨rfl, row, hrow, rfl⟩
      have hrules : (registry w'.db (bucketAndKey req).1).bind (·.cors) = row.cors := by
        rw [registry_of_found hrow]
        rfl
      rw [hrules]
      dsimp only
      cases hmatch : BucketsService.matchCorsRule J toUpperCase row.cors origin (preflightMethod J req)
        (preflightHeaders J req) with
      | none =>
        exact ⟨rfl, rfl, origin, horigin, BucketsService.matchCorsRule_eq_none_iff.mp hmatch⟩
      | some rule =>
        have hechoed : Echoed J toUpperCase row.cors origin req rule :=
          BucketsService.matchCorsRule_eq_some_iff.mp hmatch
        dsimp only
        rw [wp_ite]
        split_ifs with hsendable
        · exact ⟨rfl, origin, rule, horigin, hechoed, rfl, List.all_eq_true.mp hsendable⟩
        · rw [List.all_eq_true] at hsendable
          push Not at hsendable
          exact ⟨rfl, origin, rule, horigin, hechoed, hsendable⟩
    · rintro _ _ ⟨rfl, rfl, hnone⟩
      exact ⟨rfl, rfl, registry_eq_none_iff.mpr hnone⟩

end Handlers

namespace Configuration

/-! ## Whose rules they are -/

/-- The rules for other origins that a change leaves. -/
def rulesLeft : Change → Option (Option CorsConfiguration)
  | .create _ => some none
  | .delete => some none
  | .set (.cors value) => some value
  | .set _ => none

/-- What a request makes of the rules of a bucket, by its outcome. -/
def rulesWritten (name : Text) (r : Request) (outcome : Except Fault Unit) : Option (Option CorsConfiguration) :=
  (r.made outcome).bind fun made => if made.1 = name then rulesLeft made.2 else none

theorem apply_rules {name n : Text} {change : Change} {m : Registry} (hpossible : change.Possible n m) :
    ((change.apply n m) name).bind (·.cors) =
      (if n = name then rulesLeft change else none).getD ((m name).bind (·.cors)) := by
  split_ifs with hn
  · subst hn
    cases change with
    | create acl => simp [Change.apply, rulesLeft]
    | delete => simp [Change.apply, rulesLeft]
    | set setting =>
      obtain ⟨s, hs⟩ := Option.ne_none_iff_exists'.mp hpossible.1
      cases setting <;> simp [Change.apply, Registry.modify, rulesLeft, Setting.apply, hs]
  · cases change <;> simp [Change.apply, Registry.modify, Function.update_of_ne (Ne.symm hn)]

/-- **The rules of a bucket are the last that were written.** -/
theorem rules_follow {name : Text} {log : List (Request × Except Fault Unit)} {m : Registry}
    (hlog : Answered Request.next Request.Answers log m) :
    ((follow Request.next log m) name).bind (·.cors) =
      lastWrite (rulesWritten name) log ((m name).bind (·.cors)) := by
  refine @observe_follow _ _ _ _ _ _ _ _ (fun m : Registry => (m name).bind (·.cors)) ?_ log m hlog
  intro r outcome m hanswers
  rw [rulesWritten, Request.next]
  cases hmade : r.made outcome with
  | none => rfl
  | some made => exact apply_rules (hanswers made hmade)

/-- **A request put these rules, and nobody has changed them since** - or they were there at first. -/
def Stands (name : Text) (log : List (Request × Except Fault Unit)) (m : Registry)
    (configuration : CorsConfiguration) : Prop :=
  (Unwritten (rulesWritten name) log ∧ (m name).bind (·.cors) = some configuration) ∨
    ∃ before req identity after,
      log = before ++ (.access (.putCors req identity (.ok configuration)), .ok ()) :: after ∧
        req.bucket = name ∧ Unwritten (rulesWritten name) after

theorem stands_iff {name : Text} {log : List (Request × Except Fault Unit)} {m : Registry}
    (hlog : Answered Request.next Request.Answers log m) {configuration : CorsConfiguration} :
    ((follow Request.next log m) name).bind (·.cors) = some configuration ↔ Stands name log m configuration := by
  rw [rules_follow hlog, lastWrite_eq_iff, Stands]
  refine or_congr_right ?_
  constructor
  · rintro ⟨before, ⟨r, outcome⟩, after, hsplit, hwrites, hafter⟩
    obtain ⟨⟨n, change⟩, hmade, hleft⟩ := Option.bind_eq_some_iff.mp hwrites
    obtain ⟨hn, hchange⟩ : n = name ∧ rulesLeft change = some (some configuration) := by
      simpa [Option.ite_none_right_eq_some] using hleft
    subst hn
    have hset : change = .set (.cors (some configuration)) := by
      cases change with
      | set setting => cases setting <;> simp_all [rulesLeft]
      | _ => cases hchange
    subst hset
    dsimp only at hmade
    obtain ⟨req, identity, rfl, rfl, hbucket⟩ := putCors_of_made hmade
    exact ⟨before, req, identity, after, hsplit, hbucket, hafter⟩
  · rintro ⟨before, req, identity, after, hsplit, rfl, hafter⟩
    refine ⟨before, _, after, hsplit, ?_, hafter⟩
    simp [rulesWritten, Request.made, asks, rulesLeft, Except.toOption]

/-! ## Every answer, after every run -/

/-- What an answer to a preflight says of the requests before it. -/
def Told (J : Strings) (toUpperCase : Text → Text) (numberText : ℚ → Text)
    (log : List (Request × Except Fault Unit)) (m : Registry) (resource : Text) (req : Express.Request)
    (answer : Except PreflightFault S3ResponseService.Headers) : Prop :=
  ∃ rules, (∀ configuration, rules = some configuration ↔ Stands (bucketAndKey req).1 log m configuration) ∧
    Preflighted J toUpperCase numberText rules resource req answer

variable (D : Retention.Deployment) {w₀ : World}

theorem preflight_run (hw : Registered w₀) (requests : List Request) (toUpperCase : Text → Text)
    (numberText : ℚ → Text) (resource : Text) (req : Express.Request) :
    let w := runAll (Request.program D) requests w₀
    let log := trace (Request.program D) requests w₀
    wp (preflight D.strings toUpperCase numberText resource req)
      (fun answer w' => w' = w ∧ Told D.strings toUpperCase numberText log (registry w₀.db) resource req answer)
      (fun e w' => w' = w ∧ e = .bucketNotFound ∧
        follow Request.next log (registry w₀.db) (bucketAndKey req).1 = none) w := by
  intro w log
  obtain ⟨hanswered, hregistry⟩ := runAll_registry D hw requests
  have hspec := @preflight_spec D.strings toUpperCase numberText resource req w
  rw [hregistry] at hspec
  refine wp_mono hspec ?_ fun _ _ h => h
  intro answer w' h
  exact ⟨h.1, _, fun configuration => stands_iff hanswered, h.2⟩

/-- A page asks whether it may read the diary. -/
def pageAsks : Express.Request where
  method := "OPTIONS".toList
  originalUrl := '/' :: Retention.diary.name ++ "/2024/may.txt".toList
  headers := [("origin".toList, .one "https://example.org".toList)]

example : outcome (S3ObjectController.options Retention.smallDeployment.strings (List.map Char.toUpper) wholeText
      pageAsks) (runAll (Request.program Retention.smallDeployment) shared Access.nobody) =
    .ok (.ok [("Access-Control-Allow-Origin".toList, "*".toList),
      ("Access-Control-Allow-Methods".toList, "GET".toList), ("Vary".toList, "Origin".toList),
      ("Access-Control-Max-Age".toList, "3600".toList),
      ("Access-Control-Allow-Method".toList, "GET".toList)]) := by decide +kernel

end Configuration
end SimpleStorage
