import SimpleStorage.Policies.StoredPolicies

/-!
# Documents of the documented types

Written as JSON, a document in which every part has its documented type is evaluated as the
typed model says.  The keys of its conditions must not be among those that every object has,
unless the context has a value of its own under them.

* `validate_toJson`: the same documents are accepted.
* `evaluate_toJson`: the evaluations agree, and so do not fail.
-/

namespace SimpleStorage
namespace PoliciesTypes

/-! ## Typed documents as JSON -/

def OneOrMany.toJson : OneOrMany → Json
  | .one value => .string value
  | .many values => .array (values.map .string)

def Principal.toJson : Principal → Json
  | .everyone => .string "*".toList
  | .aws names => .object [("AWS".toList, names.toJson)]

def Effect.toJson : Effect → Json
  | .allow => .string "Allow".toList
  | .deny => .string "Deny".toList

def Condition.toJson (condition : Condition) : Json :=
  .object (condition.map fun operator =>
    (operator.1, .object (operator.2.map fun entry => (entry.1, entry.2.toJson))))

def PolicyStatement.toJson (statement : PolicyStatement) : Json :=
  .object ([("Effect".toList, statement.effect.toJson), ("Action".toList, statement.action.toJson),
      ("Resource".toList, statement.resource.toJson)] ++
    statement.principal.toList.map (fun value => ("Principal".toList, value.toJson)) ++
    statement.notPrincipal.toList.map (fun value => ("NotPrincipal".toList, value.toJson)) ++
    statement.notAction.toList.map (fun value => ("NotAction".toList, value.toJson)) ++
    statement.notResource.toList.map (fun value => ("NotResource".toList, value.toJson)) ++
    statement.condition.toList.map fun value => ("Condition".toList, Condition.toJson value))

def PolicyDocument.toJson (document : PolicyDocument) : Json :=
  .object [("Statement".toList, .array (document.statement.map PolicyStatement.toJson))]

/-- The parts of a statement. -/
theorem PolicyStatement.get_toJson (statement : PolicyStatement) :
    statement.toJson.get "Effect".toList = some statement.effect.toJson ∧
    statement.toJson.get "Action".toList = some statement.action.toJson ∧
    statement.toJson.get "Resource".toList = some statement.resource.toJson ∧
    statement.toJson.get "Principal".toList = statement.principal.map Principal.toJson ∧
    statement.toJson.get "NotAction".toList = statement.notAction.map OneOrMany.toJson ∧
    statement.toJson.get "NotResource".toList = statement.notResource.map OneOrMany.toJson ∧
    statement.toJson.get "Condition".toList = statement.condition.map Condition.toJson := by
  rcases statement with
    ⟨effect, principal, notPrincipal, action, notAction, resource, notResource, condition⟩
  cases principal <;> cases notPrincipal <;> cases notAction <;> cases notResource <;>
    cases condition <;>
    exact ⟨rfl, rfl, rfl, rfl, rfl, rfl, rfl⟩

end PoliciesTypes

namespace RawPolicies

open PoliciesTypes PoliciesService ShortCircuit

variable {R : Runtime}

/-! ## Values -/

theorem toArray_toJson (value : OneOrMany) :
    toArray (some value.toJson) = (PoliciesService.toArray (some value)).map .string := by
  cases value with
  | one text => rfl
  | many texts => rfl

theorem truthy_toJson (value : OneOrMany) :
    value.toJson.truthy = (PoliciesService.truthy (some value)).isSome := by
  cases value with
  | one text =>
    cases text with
    | nil => rfl
    | cons c text => rfl
  | many texts => rfl

theorem isText_string (value text : Text) : (Json.string value).isText text = (value == text) := rfl

theorem any_isText (values : List Text) (text : Text) :
    (values.map Json.string).any (·.isText text) = values.contains text := by
  rw [List.any_map, List.contains_eq_any_beq]
  congr 1
  funext value
  exact Bool.beq_comm

theorem expects_map (expected : List Text) (value : Text) :
    expects (expected.map .string) (.text value) = expected.contains value := any_isText expected value

/-! ## Conditions -/

theorem numericMatches_map (comparison : Comparison) (expected : List Text) (value : Text) :
    numericMatches R comparison (expected.map .string) (.text value) =
      .ok (PoliciesService.numericMatches R.toStrings comparison expected value) := by
  have hbounds : (expected.map Json.string).mapM (toNumber R) = .ok (expected.map R.number) :=
    mapM_map_of_ok fun _ _ => rfl
  unfold numericMatches PoliciesService.numericMatches
  dsimp only
  rw [hbounds]
  cases (R.number value).isFinite with
  | true => rfl
  | false => rfl

theorem dateMatches_map (comparison : Comparison) (expected : List Text) (value : Text) :
    dateMatches R comparison (expected.map .string) (.text value) =
      .ok (PoliciesService.dateMatches R.toStrings comparison expected value) := by
  have hbounds : (expected.map Json.string).mapM (toTimestamp R) =
      .ok (expected.map (PoliciesService.toTimestamp R.toStrings)) := mapM_map_of_ok fun _ _ => rfl
  unfold dateMatches PoliciesService.dateMatches
  dsimp only
  cases PoliciesService.toTimestamp R.toStrings value with
  | none => rfl
  | some actual =>
    dsimp only
    rw [hbounds]
    dsimp only [bind, Except.bind]
    rw [List.filterMap_map]
    rfl

/-- Comparing every value with every expected one. -/
theorem anyM_pairs {test : Json → Candidate → Raw Bool} {typed : Text → Text → Bool}
    (h : ∀ pattern value, test (.string pattern) (.text value) = .ok (typed pattern value))
    (expected values : List Text) :
    (values.map Candidate.text).anyM
        (fun candidate => (expected.map Json.string).anyM (test · candidate)) =
      .ok (values.any fun value => expected.any (typed · value)) :=
  anyM_map_of_ok fun value _ => anyM_map_of_ok fun pattern _ => h pattern value

theorem allM_pairs {test : Json → Candidate → Raw Bool} {typed : Text → Text → Bool}
    (h : ∀ pattern value, test (.string pattern) (.text value) = .ok (typed pattern value))
    (expected values : List Text) :
    (values.map Candidate.text).allM
        (fun candidate => (!·) <$> (expected.map Json.string).anyM (test · candidate)) =
      .ok (values.all fun value => !expected.any (typed · value)) :=
  allM_map_of_ok fun value _ => by
    rw [anyM_map_of_ok fun pattern _ => h pattern value]
    rfl

/-- **An operator holds of strings as it does of typed values.** -/
theorem holds_map (operator : Operator) (expected values : List Text) :
    Operator.holds R operator (expected.map .string) (values.map .text) =
      .ok (PoliciesService.Operator.holds R.toStrings operator expected values) := by
  cases operator with
  | equals =>
    unfold Operator.holds PoliciesService.Operator.holds
    dsimp only
    rw [List.any_map]
    congr 2
    funext value
    exact expects_map expected value
  | notEquals =>
    unfold Operator.holds PoliciesService.Operator.holds
    dsimp only
    rw [List.all_map]
    congr 2
    funext value
    rw [Function.comp_apply, expects_map]
  | equalsIgnoreCase => exact anyM_pairs (fun _ _ => rfl) expected values
  | notEqualsIgnoreCase => exact allM_pairs (fun _ _ => rfl) expected values
  | like => exact anyM_pairs (fun _ _ => rfl) expected values
  | notLike => exact allM_pairs (fun _ _ => rfl) expected values
  | ipAddress => exact anyM_pairs (fun _ _ => rfl) expected values
  | notIpAddress => exact allM_pairs (fun _ _ => rfl) expected values
  | numeric comparison => exact anyM_map_of_ok fun value _ => numericMatches_map comparison expected value
  | date comparison => exact anyM_map_of_ok fun value _ => dateMatches_map comparison expected value

/-- The context has no property of this name but its own. -/
def OwnKey (context : PolicyContext) (key : Text) : Prop :=
  (context.lookup key).isSome = true ∨ key ∉ inheritedNames

/-- A value of the context, as the raw evaluation sees it. -/
def givenValue : Option OneOrMany → ContextValue
  | some values => .given values
  | none => .missing

theorem contextValue_of_ownKey {context : PolicyContext} {key : Text} (h : OwnKey context key) :
    contextValue context key = givenValue (context.lookup key) := by
  unfold contextValue
  cases hlookup : context.lookup key with
  | some values => rfl
  | none =>
    dsimp only
    rcases h with h | h
    · rw [hlookup] at h
      cases h
    · rw [if_neg (mt List.contains_iff_mem.mp h)]
      rfl

theorem candidatesOf_givenValue (value : Option OneOrMany) :
    (candidatesOf (givenValue value)).filter (· ≠ .text []) =
      ((PoliciesService.toArray value).filter (· ≠ [])).map .text := by
  have hcandidates : candidatesOf (givenValue value) = (PoliciesService.toArray value).map .text := by
    rcases value with _ | _ | _ <;> rfl
  rw [hcandidates, List.filter_map]
  congr 2
  funext text
  simp

theorem matchesCondition_toJson {operator : Text} {expected : OneOrMany} {context : PolicyContext}
    {key : Text} (h : OwnKey context key) :
    matchesCondition R operator (toArray (some expected.toJson)) (contextValue context key) =
      .ok (PoliciesService.matchesCondition R.toStrings operator
        (PoliciesService.toArray (some expected)) (context.lookup key)) := by
  rw [toArray_toJson, contextValue_of_ownKey h]
  generalize PoliciesService.toArray (some expected) = texts
  generalize context.lookup key = value
  unfold matchesCondition PoliciesService.matchesCondition
  dsimp only
  rw [← baseOf]
  by_cases hnull : baseOf operator = "Null".toList
  · rw [if_pos hnull, if_pos hnull, List.any_map]
    have hmissing : (decide (givenValue value = .missing) ||
        decide (givenValue value = .given (.one []))) =
        (value.isNone || decide (value = some (.one []))) := by
      cases value with
      | none => rfl
      | some values => simp [givenValue]
    rw [hmissing]
    rfl
  rw [if_neg hnull, if_neg hnull]
  have hcandidates := candidatesOf_givenValue value
  rw [hcandidates]
  by_cases hempty : (PoliciesService.toArray value).filter (· ≠ []) = []
  · rw [if_pos hempty, if_pos (List.map_eq_nil_iff.mpr hempty)]
  rw [if_neg hempty, if_neg (mt List.map_eq_nil_iff.mp hempty)]
  cases operators.lookup (baseOf operator) with
  | none => rfl
  | some known => exact holds_map known texts _

/-! ## Statements -/

theorem matchesPrincipal_toJson (statement : PolicyStatement) (request : EvaluationRequest) :
    matchesPrincipal statement.toJson request =
      .ok (PoliciesService.matchesPrincipal statement request) := by
  obtain ⟨-, -, -, hprincipal, -⟩ := statement.get_toJson
  unfold matchesPrincipal PoliciesService.matchesPrincipal
  rw [hprincipal]
  rcases statement.principal with _ | _ | names
  · rfl
  · rfl
  · dsimp only [Option.map_some, Principal.toJson]
    have hobject : (!(Json.object [("AWS".toList, names.toJson)]).truthy ||
        (Json.object [("AWS".toList, names.toJson)]).isText "*".toList) = false := rfl
    rw [hobject, if_neg Bool.false_ne_true]
    have hnames : toArray ((Json.object [("AWS".toList, names.toJson)]).get "AWS".toList) =
        (PoliciesService.toArray (some names)).map .string := toArray_toJson names
    rw [hnames, any_isText]
    generalize PoliciesService.toArray (some names) = texts
    cases texts.contains "*".toList with
    | true => rfl
    | false =>
      rw [if_neg Bool.false_ne_true, Bool.false_or]
      refine anyM_map_of_ok fun name _ => ?_
      have hidentity : ∀ identity : Option Text, isNamed (.string name) identity =
          .ok ((identity.filter (· ≠ [])).any name.includes) := by
        rintro (_ | _ | ⟨c, identity⟩) <;> rfl
      have hany : ([request.principalUserGuid, request.accessKeyId].map id).anyM
          (isNamed (.string name)) =
          .ok ([request.principalUserGuid, request.accessKeyId].any fun identity =>
            (identity.filter (· ≠ [])).any name.includes) :=
        anyM_map_of_ok fun identity _ => hidentity identity
      rw [List.map_id] at hany
      rw [hany, List.any_cons, List.any_cons, List.any_nil, Bool.or_false]

theorem matchesPatterns_toJson (patterns : OneOrMany) (excluded : Option OneOrMany) (value : Text) :
    matchesPatterns (some patterns.toJson) (excluded.map OneOrMany.toJson) value =
      .ok (PoliciesService.matchesPatterns patterns excluded value) := by
  have hany : ∀ values : OneOrMany, (toArray (some values.toJson)).anyM (wildcardMatch · value) =
      .ok ((PoliciesService.toArray (some values)).any (PoliciesService.wildcardMatch · value)) := by
    intro values
    rw [toArray_toJson]
    exact anyM_map_of_ok fun _ _ => rfl
  have hexcluded : (if (excluded.map OneOrMany.toJson).any Json.truthy then
        (toArray (excluded.map OneOrMany.toJson)).anyM (wildcardMatch · value) else .ok false) =
      (.ok ((PoliciesService.toArray (truthy excluded)).any (PoliciesService.wildcardMatch · value)) :
        Raw Bool) := by
    rcases excluded with _ | _ | values
    · rfl
    · next text =>
      cases text with
      | nil => rfl
      | cons c text => exact hany (.one (c :: text))
    · exact hany (.many values)
  unfold matchesPatterns PoliciesService.matchesPatterns
  rw [hexcluded]
  show (if _ then _ else _) = _
  split_ifs
  · rfl
  · exact hany patterns

/-- Every key of the conditions is the context's own. -/
def OwnKeys (context : PolicyContext) (statement : PolicyStatement) : Prop :=
  ∀ condition, statement.condition = some condition → ∀ operator ∈ condition,
    ∀ entry ∈ operator.2, OwnKey context entry.1

theorem matchesConditions_toJson {statement : PolicyStatement} {request : EvaluationRequest}
    (h : OwnKeys request.context statement) :
    matchesConditions R statement.toJson request =
      .ok (PoliciesService.matchesConditions R.toStrings statement request) := by
  obtain ⟨-, -, -, -, -, -, hcondition⟩ := statement.get_toJson
  unfold matchesConditions PoliciesService.matchesConditions
  rw [hcondition]
  cases hsome : statement.condition with
  | none => rfl
  | some condition =>
    refine allM_map_of_ok fun operator hoperator => ?_
    exact allM_map_of_ok fun entry hentry =>
      matchesCondition_toJson (h condition hsome operator hoperator entry hentry)

theorem applies_toJson {statement : PolicyStatement} {request : EvaluationRequest}
    (h : OwnKeys request.context statement) :
    applies R statement.toJson request =
      .ok (PoliciesService.matchesPrincipal statement request &&
        (PoliciesService.matchesAction statement request.action &&
          (PoliciesService.matchesResource statement request.resource &&
            PoliciesService.matchesConditions R.toStrings statement request))) := by
  obtain ⟨-, haction, hresource, -, hnotAction, hnotResource, -⟩ := statement.get_toJson
  have hand : ∀ b c : Bool, andThen (.ok b) (.ok c) = .ok (b && c) := by
    intro b c
    cases b <;> rfl
  unfold applies matchesAction matchesResource
  rw [matchesPrincipal_toJson, haction, hnotAction, matchesPatterns_toJson, hresource, hnotResource,
    matchesPatterns_toJson, matchesConditions_toJson h, hand, hand, hand]
  rfl

/-! ## Documents -/

theorem accepted_toJson (statement : PolicyStatement) : Accepted statement.toJson := by
  obtain ⟨-, -, -, -, -, -, hcondition⟩ := statement.get_toJson
  refine ⟨⟨_, rfl⟩, fun c hc => ?_⟩
  rw [hcondition] at hc
  obtain ⟨condition, -, rfl⟩ := Option.map_eq_some_iff.mp hc
  refine ⟨_, rfl, fun entry hentry => ?_⟩
  obtain ⟨operator, -, rfl⟩ := List.mem_map.mp hentry
  exact ⟨_, rfl⟩

/-- **A typed document is accepted as the typed model says.** -/
theorem validate_toJson (document : PolicyDocument) :
    validate document.toJson = .ok () ↔ Valid document := by
  have hstatement : ∀ statement : PolicyStatement, validateStatement statement.toJson = .ok () ↔
      truthy (some statement.action) ≠ none ∧ truthy (some statement.resource) ≠ none := by
    intro statement
    obtain ⟨heffect, haction, hresource, -⟩ := statement.get_toJson
    have hcondition := validateCondition_eq_ok.mpr (accepted_toJson statement).condition
    have hunfold : validateStatement statement.toJson =
        require ((statement.toJson.get "Effect".toList).any (·.isText "Allow".toList) ||
          (statement.toJson.get "Effect".toList).any (·.isText "Deny".toList)) >>= fun _ =>
        require ((statement.toJson.get "Action".toList).any Json.truthy &&
          (statement.toJson.get "Resource".toList).any Json.truthy) >>= fun _ =>
        validateCondition (statement.toJson.get "Condition".toList) := rfl
    have hallowed : ((some statement.effect.toJson).any (·.isText "Allow".toList) ||
        (some statement.effect.toJson).any (·.isText "Deny".toList)) = true := by
      cases statement.effect <;> rfl
    have hnamed : ((some statement.action.toJson).any Json.truthy &&
        (some statement.resource.toJson).any Json.truthy) = true ↔
        truthy (some statement.action) ≠ none ∧ truthy (some statement.resource) ≠ none := by
      rw [Option.any_some, Option.any_some, truthy_toJson, truthy_toJson, Bool.and_eq_true,
        Option.isSome_iff_ne_none, Option.isSome_iff_ne_none]
    rw [hunfold, heffect, haction, hresource, hcondition, hallowed, ← hnamed]
    constructor
    · intro h
      obtain ⟨_, -, h⟩ := bind_eq_ok_iff.mp h
      obtain ⟨_, h, -⟩ := bind_eq_ok_iff.mp h
      exact require_eq_ok.mp h
    · intro h
      rw [h]
      rfl
  rw [validate_eq_ok]
  unfold Valid
  constructor
  · rintro ⟨_, hstatements, hall⟩ statement hmem
    cases hstatements
    exact (hstatement statement).mp (hall _ (List.mem_map_of_mem hmem))
  · intro h
    refine ⟨_, rfl, fun value hvalue => ?_⟩
    obtain ⟨statement, hmem, rfl⟩ := List.mem_map.mp hvalue
    exact (hstatement statement).mpr (h statement hmem)

theorem evaluateFrom_toJson {request : EvaluationRequest} {statements : List PolicyStatement}
    (h : ∀ statement ∈ statements, OwnKeys request.context statement) (allowed : Bool) :
    evaluateFrom R request allowed (statements.map PolicyStatement.toJson) =
      .ok (PoliciesService.evaluateFrom R.toStrings request allowed statements) := by
  induction statements generalizing allowed with
  | nil => rfl
  | cons statement rest ih =>
    rw [List.forall_mem_cons] at h
    obtain ⟨heffect, -⟩ := statement.get_toJson
    have hdeny : (some statement.effect.toJson).any (·.isText "Deny".toList) =
        decide (statement.effect = .deny) := by
      cases statement.effect <;> rfl
    rw [List.map_cons, evaluateFrom_cons (accepted_toJson statement), applies_toJson h.1,
      ih h.2, ih h.2, heffect, hdeny]
    rw [PoliciesService.evaluateFrom]
    dsimp only [bind, Except.bind]
    cases PoliciesService.matchesPrincipal statement request <;>
      cases PoliciesService.matchesAction statement request.action <;>
        cases PoliciesService.matchesResource statement request.resource <;>
          cases PoliciesService.matchesConditions R.toStrings statement request <;>
            cases statement.effect <;> rfl

/-- **A typed document is evaluated as the typed model says**, and without a failure. -/
theorem evaluate_toJson {document : PolicyDocument} {request : EvaluationRequest}
    (h : ∀ statement ∈ document.statement, OwnKeys request.context statement) :
    evaluate R document.toJson request =
      .ok (PoliciesService.evaluate R.toStrings (some document) request) :=
  evaluateFrom_toJson h false

end RawPolicies
end SimpleStorage
