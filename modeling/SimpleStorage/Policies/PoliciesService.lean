import Mathlib.Data.List.Infix
import Mathlib.Data.List.Perm.Basic
import SimpleStorage.Library.NumericLiteral
import SimpleStorage.Library.Wildcard
import SimpleStorage.Storage.World

/-!
# Evaluating a bucket policy

A statement applies to a request if its principal, action, resource and conditions all
match, and the statements that apply decide by precedence: a Deny wins, an Allow comes next,
and if none applies the caller decides.

`Applies` says what it takes for a statement to apply, as the documentation does, and
`evaluate_eq_deny_iff`, `evaluate_eq_allow_iff` and `evaluate_perm` say that the loop over
the statements is that precedence.
-/

namespace SimpleStorage

/-- What the runtime makes of strings: case folding, and the numbers and dates that are compared.
What is no number, or no date, reads as `NaN`. -/
structure Strings where
  toLowerCase : Text → Text
  number : Text → Float
  parseDate : Text → Float

/-- Strings for examples: ASCII, without numbers and dates. -/
def Strings.ascii : Strings := ⟨List.map Char.toLower, fun _ => 0 / 0, fun _ => 0 / 0⟩

namespace Text

/-- The UTF-16 code units of a text, which is what a regular expression matches. -/
def utf16 (s : Text) : List ℕ :=
  s.flatMap fun c =>
    if c.toNat < 0x10000 then [c.toNat]
    else [0xd800 + (c.toNat - 0x10000) / 0x400, 0xdc00 + (c.toNat - 0x10000) % 0x400]

/-- `s.includes(part)`. -/
def includes (s part : Text) : Bool := decide (part <:+: s)

/-- `Number(s)`, if it is finite. -/
def number (s : Text) : Option ℚ := NumericLiteral.value s.trim

end Text

namespace PoliciesService

open PoliciesTypes

variable (J : Strings)

/-! ## Values -/

def toArray : Option OneOrMany → List Text
  | none => []
  | some (.one value) => [value]
  | some (.many values) => values

/-- A value that is there: the empty string counts as none. -/
def truthy : Option OneOrMany → Option OneOrMany
  | some (.one []) => none
  | value => value

def wildcardToken (unit : ℕ) : Wildcard.Token ℕ :=
  if unit = '*'.toNat then .many else if unit = '?'.toNat then .one else .lit unit

/-- A regular expression's dot: anything but the end of a line. -/
def dot (unit : ℕ) : Bool := unit ∉ [0x0a, 0x0d, 0x2028, 0x2029]

/-- `*` matches any run of characters, `?` a single one. -/
def wildcardMatch (pattern value : Text) : Bool :=
  Wildcard.matchTokens dot (pattern.utf16.map wildcardToken) value.utf16

/-! ## Conditions -/

/-- `EQ`, `NE`, `LT`, `LE`, `GT`, `GE`. -/
inductive Comparison where
  | equals | notEquals | lessThan | lessThanEquals | greaterThan | greaterThanEquals
  deriving DecidableEq, Repr

def Comparison.holds (comparison : Comparison) (actual : Float) (bounds : List Float) : Bool :=
  match comparison with
  | .equals => bounds.any (actual == ·)
  | .notEquals => bounds.all (actual != ·)
  | .lessThan => bounds.any (actual < ·)
  | .lessThanEquals => bounds.any (actual ≤ ·)
  | .greaterThan => bounds.any (actual > ·)
  | .greaterThanEquals => bounds.any (actual ≥ ·)

def numericMatches (comparison : Comparison) (expected : List Text) (value : Text) : Bool :=
  let actual := J.number value
  let bounds := (expected.map J.number).filter (·.isFinite)
  actual.isFinite && !bounds.isEmpty && comparison.holds actual bounds

/-- Epoch seconds or an ISO 8601 timestamp, in milliseconds. -/
def toTimestamp (value : Text) : Option Float :=
  if value ≠ [] ∧ value.all Char.isDigit then some (J.number value * 1000)
  else
    let parsed := J.parseDate value
    if parsed.isNaN then none else some parsed

def dateMatches (comparison : Comparison) (expected : List Text) (value : Text) : Bool :=
  match toTimestamp J value with
  | none => false
  | some actual =>
      let bounds := expected.filterMap (toTimestamp J)
      !bounds.isEmpty && comparison.holds actual bounds

/-- An IPv4 address mapped into IPv6 is the address it carries. -/
def stripMapped (value : Text) : Text :=
  if (value.take 7).map Char.toLower = "::ffff:".toList then value.drop 7 else value

def octet (s : Text) : Option UInt32 :=
  let part := s.foldl (fun n c => 10 * n + (c.toNat - '0'.toNat)) 0
  if 1 ≤ s.length ∧ s.length ≤ 3 ∧ s.all Char.isDigit ∧ part ≤ 255 then some (.ofNat part) else none

def toIpv4Number (value : Text) : Option UInt32 :=
  match (Text.split '.' (stripMapped value)).map octet with
  | [some a, some b, some c, some d] => some (a <<< 24 ||| b <<< 16 ||| c <<< 8 ||| d)
  | _ => none

/-- An IPv4 CIDR block, or a bare address as a block of one. -/
def ipMatches (pattern value : Text) : Bool :=
  let pieces := Text.split '/' pattern
  match toIpv4Number (pieces.headD []), toIpv4Number value with
  | some networkBits, some valueBits =>
      match (pieces[1]?).elim (some 32) Text.number with
      | none => false
      | some bits =>
          if bits.isInt && 0 ≤ bits && bits ≤ 32 then
            let mask : UInt32 := 0xffffffff <<< (32 - UInt32.ofNat bits.num.toNat)
            bits == 0 || networkBits &&& mask == valueBits &&& mask
          else false
  | _, _ => false

/-- What an operator of a condition asks of the values of its key. -/
inductive Operator where
  | equals | notEquals
  | equalsIgnoreCase | notEqualsIgnoreCase
  | like | notLike
  | ipAddress | notIpAddress
  | numeric (comparison : Comparison)
  | date (comparison : Comparison)
  deriving DecidableEq, Repr

def operators : List (Text × Operator) :=
  [("StringEquals", .equals), ("ArnEquals", .equals),
    ("StringNotEquals", .notEquals), ("ArnNotEquals", .notEquals),
    ("StringEqualsIgnoreCase", .equalsIgnoreCase),
    ("StringNotEqualsIgnoreCase", .notEqualsIgnoreCase),
    ("StringLike", .like), ("ArnLike", .like),
    ("StringNotLike", .notLike), ("ArnNotLike", .notLike),
    ("Bool", .equals),
    ("IpAddress", .ipAddress), ("NotIpAddress", .notIpAddress),
    ("NumericEquals", .numeric .equals), ("NumericNotEquals", .numeric .notEquals),
    ("NumericLessThan", .numeric .lessThan), ("NumericLessThanEquals", .numeric .lessThanEquals),
    ("NumericGreaterThan", .numeric .greaterThan),
    ("NumericGreaterThanEquals", .numeric .greaterThanEquals),
    ("DateEquals", .date .equals), ("DateNotEquals", .date .notEquals),
    ("DateLessThan", .date .lessThan), ("DateLessThanEquals", .date .lessThanEquals),
    ("DateGreaterThan", .date .greaterThan),
    ("DateGreaterThanEquals", .date .greaterThanEquals)].map fun entry => (entry.1.toList, entry.2)

/-- Operators that hold of a missing key. -/
def negatedOperators : List Text :=
  ["StringNotEquals", "StringNotEqualsIgnoreCase", "StringNotLike", "NotIpAddress", "ArnNotLike",
    "ArnNotEquals"].map String.toList

def ifExistsSuffix : Text := "IfExists".toList

def Operator.holds (operator : Operator) (expected values : List Text) : Bool :=
  let sameFolded (candidate pattern : Text) := J.toLowerCase pattern == J.toLowerCase candidate
  match operator with
  | .equals => values.any (expected.contains ·)
  | .notEquals => values.all (!expected.contains ·)
  | .equalsIgnoreCase => values.any fun candidate => expected.any (sameFolded candidate)
  | .notEqualsIgnoreCase => values.all fun candidate => !expected.any (sameFolded candidate)
  | .like => values.any fun candidate => expected.any (wildcardMatch · candidate)
  | .notLike => values.all fun candidate => !expected.any (wildcardMatch · candidate)
  | .ipAddress => values.any fun candidate => expected.any (ipMatches · candidate)
  | .notIpAddress => values.all fun candidate => !expected.any (ipMatches · candidate)
  | .numeric comparison => values.any (numericMatches J comparison expected)
  | .date comparison => values.any (dateMatches J comparison expected)

/-- One operator on one key.  An operator nobody knows never holds. -/
def matchesCondition (operator : Text) (expected : List Text) (value : Option OneOrMany) : Bool :=
  let ifExists := ifExistsSuffix.isSuffixOf operator
  let base := if ifExists then operator.take (operator.length - ifExistsSuffix.length) else operator
  if base = "Null".toList then
    let isMissing := value.isNone || value = some (.one [])
    expected.any fun flag => (flag == "true".toList) == isMissing
  else
    let values := (toArray value).filter (· ≠ [])
    if values = [] then ifExists || negatedOperators.contains base
    else
      match operators.lookup base with
      | some operator => operator.holds J expected values
      | none => false

/-! ## Statements -/

def matchesPrincipal (statement : PolicyStatement) (request : EvaluationRequest) : Bool :=
  match statement.principal with
  | none | some .everyone => true
  | some (.aws names) =>
      let principals := toArray (some names)
      principals.contains "*".toList || principals.any fun principal =>
        (request.principalUserGuid.filter (· ≠ [])).any principal.includes ||
          (request.accessKeyId.filter (· ≠ [])).any principal.includes

/-- One of the patterns matches, and none of the excluded ones. -/
def matchesPatterns (patterns : OneOrMany) (excluded : Option OneOrMany) (value : Text) : Bool :=
  if (toArray (truthy excluded)).any (wildcardMatch · value) then false
  else (toArray (some patterns)).any (wildcardMatch · value)

def matchesAction (statement : PolicyStatement) (action : Text) : Bool :=
  matchesPatterns statement.action statement.notAction action

def matchesResource (statement : PolicyStatement) (resource : Text) : Bool :=
  matchesPatterns statement.resource statement.notResource resource

/-- Every key of every operator has to hold. -/
def matchesConditions (statement : PolicyStatement) (request : EvaluationRequest) : Bool :=
  match statement.condition with
  | none => true
  | some condition => condition.all fun (operator, entries) => entries.all fun (key, expected) =>
      matchesCondition J operator (toArray (some expected)) (request.context.lookup key)

/-- The loop over the statements: `allowed` if one applied that allows. -/
def evaluateFrom (request : EvaluationRequest) : Bool → List PolicyStatement → Decision
  | allowed, [] => if allowed then .allow else .notApplicable
  | allowed, statement :: rest =>
      if !matchesPrincipal statement request then evaluateFrom request allowed rest
      else if !matchesAction statement request.action then evaluateFrom request allowed rest
      else if !matchesResource statement request.resource then evaluateFrom request allowed rest
      else if !matchesConditions J statement request then evaluateFrom request allowed rest
      else if statement.effect = .deny then .deny
      else evaluateFrom request true rest

def evaluate (document : Option PolicyDocument) (request : EvaluationRequest) : Decision :=
  match document with
  | none => .notApplicable
  | some document => evaluateFrom J request false document.statement

/-! ## Stored documents -/

/-- The policy document of a bucket. -/
def findPolicy (bucketGuid : Guid) (db : Database) : Option PolicyDocument :=
  (db.bucketPolicies.find? (·.bucketGuid = bucketGuid)).map (·.document)

/-- Insert a bucket's document, or replace the one there is. -/
def upsertPolicy (bucketGuid : Guid) (document : PolicyDocument) (db : Database) : Database :=
  { db with bucketPolicies :=
      if db.bucketPolicies.any (·.bucketGuid = bucketGuid) then
        db.bucketPolicies.map fun p => if p.bucketGuid = bucketGuid then { p with document } else p
      else db.bucketPolicies ++ [⟨bucketGuid, document⟩] }

def get (bucketGuid : Guid) : Service (Option PolicyDocument) := World.select (findPolicy bucketGuid)

/-- Every statement names actions and resources. -/
def Valid (document : PolicyDocument) : Prop :=
  ∀ statement ∈ document.statement,
    truthy (some statement.action) ≠ none ∧ truthy (some statement.resource) ≠ none

instance (document : PolicyDocument) : Decidable (Valid document) :=
  inferInstanceAs (Decidable (∀ statement ∈ document.statement, _))

def validate (document : PolicyDocument) : Service Unit :=
  Program.require (Valid document) .invalidPolicyDocument

def set (bucketGuid : Guid) (document : PolicyDocument) : Service Unit := do
  validate document
  World.execute fun db => ((), upsertPolicy bucketGuid document db)

theorem findPolicy_upsertPolicy (bucketGuid : Guid) (document : PolicyDocument) (db : Database) :
    findPolicy bucketGuid (upsertPolicy bucketGuid document db) = some document := by
  rw [findPolicy, upsertPolicy]
  dsimp only
  split_ifs with h
  · obtain ⟨p, hp, hguid⟩ := List.any_eq_true.mp h
    rw [List.find?_map]
    have hsame : ((fun q : BucketPolicyRow => decide (q.bucketGuid = bucketGuid)) ∘
        fun p => if p.bucketGuid = bucketGuid then { p with document } else p) =
        fun q => decide (q.bucketGuid = bucketGuid) := by
      funext q
      rw [Function.comp_apply]
      split_ifs <;> rfl
    rw [hsame]
    cases hfind : db.bucketPolicies.find? fun q => q.bucketGuid = bucketGuid with
    | none => exact absurd hguid (List.find?_eq_none.mp hfind p hp)
    | some q =>
      have hq := List.find?_some hfind
      rw [decide_eq_true_iff] at hq
      rw [Option.map_some, Option.map_some, if_pos hq]
  · have hnone : db.bucketPolicies.find? (fun q => decide (q.bucketGuid = bucketGuid)) = none :=
      List.find?_eq_none.mpr fun q hq hguid => h (List.any_eq_true.mpr ⟨q, hq, hguid⟩)
    rw [List.find?_append, hnone]
    simp

/-! ## Precedence -/

/-- One of the patterns matches the value. -/
def AnyMatches (patterns : Option OneOrMany) (value : Text) : Prop :=
  ∃ pattern ∈ toArray patterns, wildcardMatch pattern value = true

/-- The request comes from one of the statement's principals. -/
def FromPrincipal (statement : PolicyStatement) (request : EvaluationRequest) : Prop :=
  statement.principal = none ∨ statement.principal = some .everyone ∨
    ∃ names, statement.principal = some (.aws names) ∧
      ("*".toList ∈ toArray (some names) ∨ ∃ principal ∈ toArray (some names),
        ∃ name, (request.principalUserGuid = some name ∨ request.accessKeyId = some name) ∧
          name ≠ [] ∧ name <:+: principal)

/-- **What it takes for a statement to apply to a request.** -/
structure Applies (statement : PolicyStatement) (request : EvaluationRequest) : Prop where
  principal : FromPrincipal statement request
  action : AnyMatches (some statement.action) request.action
  notAction : ¬ AnyMatches (truthy statement.notAction) request.action
  resource : AnyMatches (some statement.resource) request.resource
  notResource : ¬ AnyMatches (truthy statement.notResource) request.resource
  condition : ∀ condition, statement.condition = some condition →
    ∀ operator entries, (operator, entries) ∈ condition → ∀ key expected, (key, expected) ∈ entries →
      matchesCondition J operator (toArray (some expected)) (request.context.lookup key) = true

variable {J} {statement : PolicyStatement} {request : EvaluationRequest}

theorem matchesPrincipal_iff : matchesPrincipal statement request = true ↔
    FromPrincipal statement request := by
  rw [matchesPrincipal, FromPrincipal]
  cases statement.principal with
  | none => simp
  | some principal =>
    cases principal with
    | everyone => simp
    | aws names =>
      simp only [Bool.or_eq_true, List.contains_iff_mem, List.any_eq_true, Option.any_eq_true,
        Option.filter_eq_some_iff, decide_eq_true_iff, Text.includes,
        reduceCtorEq, Option.some.injEq, Principal.aws.injEq, false_or, exists_eq_left']
      refine or_congr Iff.rfl (exists_congr fun principal => and_congr Iff.rfl ?_)
      constructor
      · rintro (⟨name, ⟨hname, hne⟩, hincludes⟩ | ⟨name, ⟨hname, hne⟩, hincludes⟩)
        · exact ⟨name, Or.inl hname, hne, hincludes⟩
        · exact ⟨name, Or.inr hname, hne, hincludes⟩
      · rintro ⟨name, hname | hname, hne, hincludes⟩
        · exact Or.inl ⟨name, ⟨hname, hne⟩, hincludes⟩
        · exact Or.inr ⟨name, ⟨hname, hne⟩, hincludes⟩

theorem matchesPatterns_iff {patterns : OneOrMany} {excluded : Option OneOrMany} {value : Text} :
    matchesPatterns patterns excluded value = true ↔
      AnyMatches (some patterns) value ∧ ¬ AnyMatches (truthy excluded) value := by
  have hany : ∀ xs : Option OneOrMany,
      (toArray xs).any (wildcardMatch · value) = true ↔ AnyMatches xs value := fun xs =>
    List.any_eq_true
  rw [matchesPatterns]
  split_ifs with h
  · exact ⟨nofun, fun h' => absurd ((hany _).mp h) h'.2⟩
  · rw [hany]
    exact ⟨fun h' => ⟨h', fun hex => h ((hany _).mpr hex)⟩, And.left⟩

theorem matchesConditions_iff : matchesConditions J statement request = true ↔
    ∀ condition, statement.condition = some condition →
      ∀ operator entries, (operator, entries) ∈ condition →
        ∀ key expected, (key, expected) ∈ entries →
          matchesCondition J operator (toArray (some expected)) (request.context.lookup key) = true := by
  rw [matchesConditions]
  cases statement.condition with
  | none => simp
  | some condition => simp only [List.all_eq_true, Prod.forall, Option.some.injEq, forall_eq']

/-- **The four tests in a row** are `Applies`. -/
theorem applies_iff : Applies J statement request ↔
    matchesPrincipal statement request = true ∧ matchesAction statement request.action = true ∧
      matchesResource statement request.resource = true ∧
      matchesConditions J statement request = true := by
  rw [matchesPrincipal_iff, matchesAction, matchesPatterns_iff, matchesResource, matchesPatterns_iff,
    matchesConditions_iff]
  constructor
  · intro h
    exact ⟨h.principal, ⟨h.action, h.notAction⟩, ⟨h.resource, h.notResource⟩, h.condition⟩
  · rintro ⟨hprincipal, ⟨haction, hnotAction⟩, ⟨hresource, hnotResource⟩, hcondition⟩
    exact ⟨hprincipal, haction, hnotAction, hresource, hnotResource, hcondition⟩

/-- One turn of the loop. -/
theorem evaluateFrom_cons (allowed : Bool) (rest : List PolicyStatement) :
    (¬ Applies J statement request →
      evaluateFrom J request allowed (statement :: rest) = evaluateFrom J request allowed rest) ∧
    (Applies J statement request → statement.effect = .deny →
      evaluateFrom J request allowed (statement :: rest) = .deny) ∧
    (Applies J statement request → statement.effect = .allow →
      evaluateFrom J request allowed (statement :: rest) = evaluateFrom J request true rest) := by
  rw [applies_iff, evaluateFrom]
  refine ⟨fun h => ?_, fun ⟨hp, ha, hr, hc⟩ heffect => ?_, fun ⟨hp, ha, hr, hc⟩ heffect => ?_⟩
  · split_ifs with hp ha hr hc
    · rfl
    · rfl
    · rfl
    · rfl
    · simp_all
    · simp_all
  · simp [hp, ha, hr, hc, heffect]
  · simp [hp, ha, hr, hc, heffect]

/-- Some statement applies and denies. -/
def Denied (J : Strings) (statements : List PolicyStatement) (request : EvaluationRequest) : Prop :=
  ∃ statement ∈ statements, statement.effect = .deny ∧ Applies J statement request

/-- Some statement applies and allows. -/
def Allowed (J : Strings) (statements : List PolicyStatement) (request : EvaluationRequest) : Prop :=
  ∃ statement ∈ statements, statement.effect = .allow ∧ Applies J statement request

theorem Denied.perm {statements statements' : List PolicyStatement} (h : statements.Perm statements') :
    Denied J statements request ↔ Denied J statements' request :=
  exists_congr fun _ => and_congr_left fun _ => h.mem_iff

theorem Allowed.perm {statements statements' : List PolicyStatement} (h : statements.Perm statements') :
    Allowed J statements request ↔ Allowed J statements' request :=
  exists_congr fun _ => and_congr_left fun _ => h.mem_iff

/-- **The loop is the precedence.** -/
theorem evaluateFrom_eq (allowed : Bool) (statements : List PolicyStatement) :
    (evaluateFrom J request allowed statements = .deny ↔ Denied J statements request) ∧
    (evaluateFrom J request allowed statements = .allow ↔
      ¬ Denied J statements request ∧ (allowed = true ∨ Allowed J statements request)) := by
  induction statements generalizing allowed with
  | nil =>
    rw [evaluateFrom]
    cases allowed with
    | false => simp [Denied, Allowed]
    | true => simp [Denied]
  | cons statement rest ih =>
    obtain ⟨hskip, hdeny, hallow⟩ := @evaluateFrom_cons J statement request allowed rest
    simp only [Denied, Allowed, List.exists_mem_cons_iff] at ih ⊢
    by_cases happlies : Applies J statement request
    · cases heffect : statement.effect with
      | deny =>
        rw [hdeny happlies heffect]
        simp [happlies]
      | allow =>
        rw [hallow happlies heffect, (ih true).1, (ih true).2]
        simp [happlies]
    · rw [hskip happlies, (ih allowed).1, (ih allowed).2]
      simp [happlies]

/-- The statements of a document, if there is one. -/
def statementsOf (document : Option PolicyDocument) : List PolicyStatement :=
  document.elim [] (·.statement)

theorem evaluate_eq (document : Option PolicyDocument) :
    evaluate J document request = evaluateFrom J request false (statementsOf document) := by
  cases document with
  | none => rfl
  | some document => rfl

/-- **An explicit Deny always wins** … -/
theorem evaluate_eq_deny_iff {document : Option PolicyDocument} :
    evaluate J document request = .deny ↔ Denied J (statementsOf document) request := by
  rw [evaluate_eq, (evaluateFrom_eq false _).1]

/-- … **otherwise an Allow decides** … -/
theorem evaluate_eq_allow_iff {document : Option PolicyDocument} :
    evaluate J document request = .allow ↔
      ¬ Denied J (statementsOf document) request ∧ Allowed J (statementsOf document) request := by
  rw [evaluate_eq, (evaluateFrom_eq false _).2]
  simp

/-- … **and otherwise the decision is left to the caller.** -/
theorem evaluate_eq_notApplicable_iff {document : Option PolicyDocument} :
    evaluate J document request = .notApplicable ↔
      ¬ Denied J (statementsOf document) request ∧ ¬ Allowed J (statementsOf document) request := by
  have hdeny : evaluate J document request = .deny ↔ _ := evaluate_eq_deny_iff
  have hallow : evaluate J document request = .allow ↔ _ := evaluate_eq_allow_iff
  cases h : evaluate J document request with
  | deny => simp [hdeny.mp h]
  | allow => simp [hallow.mp h]
  | notApplicable =>
    rw [h] at hdeny hallow
    have hnot : ¬ Denied J (statementsOf document) request := fun hd => by cases hdeny.mpr hd
    have hnot' : ¬ Allowed J (statementsOf document) request := fun ha => by cases hallow.mpr ⟨hnot, ha⟩
    exact ⟨fun _ => ⟨hnot, hnot'⟩, fun _ => rfl⟩

/-- **The decisions are the same** if and only if both are a Deny or none is, and, where none is,
both are an Allow or none is. -/
theorem evaluate_eq_evaluate_iff {document document' : Option PolicyDocument} :
    evaluate J document request = evaluate J document' request ↔
      (Denied J (statementsOf document) request ↔ Denied J (statementsOf document') request) ∧
        (¬ Denied J (statementsOf document) request →
          (Allowed J (statementsOf document) request ↔
            Allowed J (statementsOf document') request)) := by
  constructor
  · intro h
    have hdeny : Denied J (statementsOf document) request ↔
        Denied J (statementsOf document') request := by
      rw [← evaluate_eq_deny_iff, h, evaluate_eq_deny_iff]
    have hallow : evaluate J document request = .allow ↔ _ := evaluate_eq_allow_iff
    rw [h, evaluate_eq_allow_iff, ← hdeny] at hallow
    exact ⟨hdeny, fun hd => ⟨fun ha => (hallow.mpr ⟨hd, ha⟩).2, fun ha => (hallow.mp ⟨hd, ha⟩).2⟩⟩
  · rintro ⟨hdeny, hallow⟩
    cases hd : evaluate J document' request with
    | deny => exact evaluate_eq_deny_iff.mpr (hdeny.mpr (evaluate_eq_deny_iff.mp hd))
    | allow =>
      obtain ⟨hnot, ha⟩ := evaluate_eq_allow_iff.mp hd
      have hnot' := mt hdeny.mp hnot
      exact evaluate_eq_allow_iff.mpr ⟨hnot', (hallow hnot').mpr ha⟩
    | notApplicable =>
      obtain ⟨hnot, ha⟩ := evaluate_eq_notApplicable_iff.mp hd
      have hnot' := mt hdeny.mp hnot
      exact evaluate_eq_notApplicable_iff.mpr ⟨hnot', mt (hallow hnot').mp ha⟩

/-- **The order of the statements does not matter.** -/
theorem evaluate_perm {document document' : PolicyDocument}
    (h : document.statement.Perm document'.statement) :
    evaluate J (some document) request = evaluate J (some document') request :=
  evaluate_eq_evaluate_iff.mpr ⟨Denied.perm h, fun _ => Allowed.perm h⟩

theorem denied_insert_iff {before after : List PolicyStatement} :
    Denied J (before ++ statement :: after) request ↔
      statement.effect = .deny ∧ Applies J statement request ∨ Denied J (before ++ after) request := by
  rw [Denied.perm List.perm_middle]
  exact List.exists_mem_cons_iff _ _ _

theorem allowed_insert_iff {before after : List PolicyStatement} :
    Allowed J (before ++ statement :: after) request ↔
      statement.effect = .allow ∧ Applies J statement request ∨ Allowed J (before ++ after) request := by
  rw [Allowed.perm List.perm_middle]
  exact List.exists_mem_cons_iff _ _ _

/-- **When a statement can be left out**: it does not apply, or another one has the same say. -/
theorem evaluate_insert_iff {before after : List PolicyStatement} :
    evaluate J (some ⟨before ++ statement :: after⟩) request =
        evaluate J (some ⟨before ++ after⟩) request ↔
      (Applies J statement request → Denied J (before ++ after) request ∨
        statement.effect = .allow ∧ Allowed J (before ++ after) request) := by
  rw [evaluate_eq_evaluate_iff]
  show (Denied J (before ++ statement :: after) request ↔ Denied J (before ++ after) request) ∧
    (¬ Denied J (before ++ statement :: after) request →
      (Allowed J (before ++ statement :: after) request ↔ Allowed J (before ++ after) request)) ↔ _
  rw [denied_insert_iff, allowed_insert_iff]
  cases statement.effect with
  | allow => simp only [reduceCtorEq]; tauto
  | deny => simp only [reduceCtorEq]; tauto

end PoliciesService
end SimpleStorage
