import SimpleStorage.Policies.PoliciesService

/-!
# Policy documents as they arrive

A policy is stored as the JSON value a client sent.  `validate` looks at some of its parts,
and `evaluate` reads the others as it goes along, as strings and lists of strings; where it
finds something else, the runtime throws a `TypeError`.

What a value is converted to as a number or a string, where it can be converted at all, is
left to the runtime, like the other readings in `Strings`.
-/

namespace SimpleStorage

/-- A JSON value.  The fields of an object are in the order `Object.entries` gives. -/
inductive Json where
  | null
  | bool (value : Bool)
  | number (value : Float)
  | string (value : Text)
  | array (elements : List Json)
  | object (fields : List (Text × Json))

namespace Json

def truthy : Json → Bool
  | .null => false
  | .bool value => value
  | .number value => value != 0
  | .string value => value ≠ []
  | .array _ | .object _ => true

/-- `value[name]`, of a value that is not `null`.  Only objects have fields of these names. -/
def get : Json → Text → Option Json
  | .object fields, name => (fields.find? (·.1 = name)).map (·.2)
  | _, _ => none

/-- `value === text`. -/
def isText : Json → Text → Bool
  | .string value, text => value == text
  | _, _ => false

/-- Elements with their indices. -/
def indexed (elements : List Json) : List (Text × Json) :=
  elements.zipIdx.map fun element => (Nat.toDigits 10 element.2, element.1)

mutual

/-- Can the value be converted to a string, or a number?  An object cannot if it has a field
in the place of its method, and an array cannot if one of its elements cannot. -/
def primitive : Json → Bool
  | .object fields => !fields.any (·.1 = "toString".toList)
  | .array elements => primitives elements
  | _ => true

def primitives : List Json → Bool
  | [] => true
  | element :: rest => element.primitive && primitives rest

end

end Json

/-- What the runtime makes of values that are no strings. -/
structure Runtime extends Strings where
  /-- `Number(value)`. -/
  numberOf : Json → Float
  /-- `String(value)`. -/
  textOf : Json → Text
  /-- A property every object has, as a string. -/
  inheritedText : Text → Text

/-- Conversions for examples. -/
def Runtime.sample : Runtime :=
  { Strings.ascii with
    numberOf := fun _ => 0 / 0
    textOf := fun _ => []
    inheritedText := fun _ => [] }

namespace PoliciesTypes

inductive PolicyFault where
  | invalidPolicyDocument
  | typeError
  deriving DecidableEq, Repr

/-- What the context of a request has under a key.  The context is an object, so it has the
properties every object has. -/
inductive ContextValue where
  | missing
  | given (values : OneOrMany)
  | inherited (name : Text)
  deriving DecidableEq, Repr

/-- One of the values under a key. -/
inductive Candidate where
  | text (value : Text)
  | inherited (name : Text)
  deriving DecidableEq, Repr

end PoliciesTypes

namespace RawPolicies

open PoliciesTypes PoliciesService

/-- The result of reading a raw document. -/
abbrev Raw := Except PolicyFault

/-! ## Validation -/

/-- `Object.values(value)`, with the names. -/
def entriesOf : Json → Raw (List (Text × Json))
  | .object fields => .ok fields
  | .array elements => .ok (Json.indexed elements)
  | .string value => .ok (Json.indexed (value.map fun c => .string [c]))
  | .bool _ | .number _ => .ok []
  | .null => .error .typeError

/-- An object that is neither `null` nor an array. -/
def isMap : Json → Bool
  | .object _ => true
  | _ => false

/-- Refuse a document unless a condition holds. -/
def require (condition : Bool) : Raw Unit :=
  if condition then .ok () else .error .invalidPolicyDocument

def validateCondition : Option Json → Raw Unit
  | none => .ok ()
  | some condition => do
      require (isMap condition)
      (← entriesOf condition).forM fun entry => require (isMap entry.2)

def validateStatement : Json → Raw Unit
  | .null => .error .typeError
  | statement => do
      require ((statement.get "Effect".toList).any (·.isText "Allow".toList) ||
        (statement.get "Effect".toList).any (·.isText "Deny".toList))
      require ((statement.get "Action".toList).any Json.truthy &&
        (statement.get "Resource".toList).any Json.truthy)
      validateCondition (statement.get "Condition".toList)

def validate (document : Json) : Raw Unit :=
  match document.get "Statement".toList with
  | some (.array statements) => statements.forM validateStatement
  | _ => .error .invalidPolicyDocument

/-! ## Values -/

def toArray : Option Json → List Json
  | none => []
  | some (.array values) => values
  | some value => [value]

/-- The properties every object has. -/
def inheritedNames : List Text :=
  ["constructor", "__defineGetter__", "__defineSetter__", "hasOwnProperty", "__lookupGetter__",
    "__lookupSetter__", "isPrototypeOf", "propertyIsEnumerable", "toString", "valueOf",
    "__proto__", "toLocaleString"].map String.toList

/-- The value under a key of the context. -/
def contextValue (context : PolicyContext) (key : Text) : ContextValue :=
  match context.lookup key with
  | some values => .given values
  | none => if inheritedNames.contains key then .inherited key else .missing

def candidatesOf : ContextValue → List Candidate
  | .missing => []
  | .given (.one value) => [.text value]
  | .given (.many values) => values.map .text
  | .inherited name => [.inherited name]

variable (R : Runtime)

/-- What a regular expression is matched with. -/
def textOf : Candidate → Text
  | .text value => value
  | .inherited name => R.inheritedText name

/-- Only strings have the methods a pattern needs. -/
def wildcardMatch : Json → Text → Raw Bool
  | .string pattern, value => .ok (PoliciesService.wildcardMatch pattern value)
  | _, _ => .error .typeError

/-- Strings and arrays have a method of this name. -/
def includes : Json → Text → Raw Bool
  | .string value, part => .ok (value.includes part)
  | .array elements, part => .ok (elements.any (·.isText part))
  | _, _ => .error .typeError

/-! ## Conditions -/

/-- `pattern.toLowerCase() === candidate.toLowerCase()`. -/
def sameFolded : Json → Candidate → Raw Bool
  | .string pattern, .text value => .ok (R.toLowerCase pattern == R.toLowerCase value)
  | _, _ => .error .typeError

def ipMatches : Json → Candidate → Raw Bool
  | .string pattern, .text value => .ok (PoliciesService.ipMatches pattern value)
  | _, _ => .error .typeError

/-- `Number(bound)`. -/
def toNumber : Json → Raw Float
  | .string bound => .ok (R.number bound)
  | bound => if bound.primitive then .ok (R.numberOf bound) else .error .typeError

def numericMatches (comparison : Comparison) (expected : List Json) : Candidate → Raw Bool
  | .inherited _ => .ok false
  | .text value => do
      let actual := R.number value
      if !actual.isFinite then return false
      let bounds := (← expected.mapM (toNumber R)).filter (·.isFinite)
      return !bounds.isEmpty && comparison.holds actual bounds

def toTimestamp : Json → Raw (Option Float)
  | .string bound => .ok (PoliciesService.toTimestamp R.toStrings bound)
  | bound =>
      if bound.primitive then .ok (PoliciesService.toTimestamp R.toStrings (R.textOf bound))
      else .error .typeError

def dateMatches (comparison : Comparison) (expected : List Json) : Candidate → Raw Bool
  | .inherited _ => .ok false
  | .text value =>
      match PoliciesService.toTimestamp R.toStrings value with
      | none => .ok false
      | some actual => do
          let bounds := (← expected.mapM (toTimestamp R)).filterMap id
          return !bounds.isEmpty && comparison.holds actual bounds

/-- `expected.includes(candidate)`. -/
def expects (expected : List Json) : Candidate → Bool
  | .text value => expected.any (·.isText value)
  | .inherited _ => false

def Operator.holds (operator : Operator) (expected : List Json) (values : List Candidate) :
    Raw Bool :=
  match operator with
  | .equals => .ok (values.any (expects expected))
  | .notEquals => .ok (values.all (!expects expected ·))
  | .equalsIgnoreCase => values.anyM fun candidate => expected.anyM (sameFolded R · candidate)
  | .notEqualsIgnoreCase => values.allM fun candidate =>
      (!·) <$> expected.anyM (sameFolded R · candidate)
  | .like => values.anyM fun candidate => expected.anyM (wildcardMatch · (textOf R candidate))
  | .notLike => values.allM fun candidate =>
      (!·) <$> expected.anyM (wildcardMatch · (textOf R candidate))
  | .ipAddress => values.anyM fun candidate => expected.anyM (ipMatches · candidate)
  | .notIpAddress => values.allM fun candidate => (!·) <$> expected.anyM (ipMatches · candidate)
  | .numeric comparison => values.anyM (numericMatches R comparison expected)
  | .date comparison => values.anyM (dateMatches R comparison expected)

def matchesCondition (operator : Text) (expected : List Json) (value : ContextValue) : Raw Bool :=
  let ifExists := ifExistsSuffix.isSuffixOf operator
  let base := if ifExists then operator.take (operator.length - ifExistsSuffix.length) else operator
  if base = "Null".toList then
    let isMissing : Bool := value = .missing || value = .given (.one [])
    .ok (expected.any fun flag => flag.isText "true".toList == isMissing)
  else
    let values := (candidatesOf value).filter (· ≠ .text [])
    if values = [] then .ok (ifExists || negatedOperators.contains base)
    else
      match operators.lookup base with
      | some operator => Operator.holds R operator expected values
      | none => .ok false

/-! ## Statements -/

/-- Is a name there, and is it in a principal? -/
def isNamed (principal : Json) : Option Text → Raw Bool
  | none | some [] => .ok false
  | some identity => includes principal identity

def matchesPrincipal (statement : Json) (request : EvaluationRequest) : Raw Bool :=
  match statement.get "Principal".toList with
  | none => .ok true
  | some principal =>
      if !principal.truthy || principal.isText "*".toList then .ok true
      else
        let principals := toArray (principal.get "AWS".toList)
        if principals.any (·.isText "*".toList) then .ok true
        else principals.anyM fun principal =>
          [request.principalUserGuid, request.accessKeyId].anyM (isNamed principal)

/-- `x && y`: the second test is made if the first one passes. -/
def andThen (x y : Raw Bool) : Raw Bool := x >>= fun passed => if passed then y else .ok false

/-- One of the patterns matches, and none of the excluded ones, which are tried first. -/
def matchesPatterns (patterns excluded : Option Json) (value : Text) : Raw Bool :=
  (if excluded.any Json.truthy then (toArray excluded).anyM (wildcardMatch · value) else .ok false)
    >>= fun isExcluded =>
      if isExcluded then .ok false else (toArray patterns).anyM (wildcardMatch · value)

def matchesAction (statement : Json) (action : Text) : Raw Bool :=
  matchesPatterns (statement.get "Action".toList) (statement.get "NotAction".toList) action

def matchesResource (statement : Json) (resource : Text) : Raw Bool :=
  matchesPatterns (statement.get "Resource".toList) (statement.get "NotResource".toList) resource

/-- Every key of an operator has to hold. -/
def matchesOperator (request : EvaluationRequest) (operator : Text × Json) : Raw Bool :=
  entriesOf operator.2 >>= fun entries => entries.allM fun entry =>
    matchesCondition R operator.1 (toArray (some entry.2)) (contextValue request.context entry.1)

/-- Every key of every operator has to hold. -/
def matchesConditions (statement : Json) (request : EvaluationRequest) : Raw Bool :=
  match statement.get "Condition".toList with
  | none => .ok true
  | some condition =>
      if !condition.truthy then .ok true
      else entriesOf condition >>= fun operators => operators.allM (matchesOperator R request)

/-- The four tests of a statement, in order. -/
def applies (statement : Json) (request : EvaluationRequest) : Raw Bool :=
  andThen (matchesPrincipal statement request) <|
  andThen (matchesAction statement request.action) <|
  andThen (matchesResource statement request.resource) <|
  matchesConditions R statement request

/-- The loop over the statements: `allowed` if one applied that allows. -/
def evaluateFrom (request : EvaluationRequest) : Bool → List Json → Raw Decision
  | allowed, [] => .ok (if allowed then .allow else .notApplicable)
  | _, .null :: _ => .error .typeError
  | allowed, statement :: rest => do
      let passed ← applies R statement request
      if !passed then evaluateFrom request allowed rest
      else if (statement.get "Effect".toList).any (·.isText "Deny".toList) then .ok .deny
      else evaluateFrom request true rest

def evaluate (document : Json) (request : EvaluationRequest) : Raw Decision :=
  match document.get "Statement".toList with
  | some (.array statements) => evaluateFrom R request false statements
  | some (.object fields) =>
      if ((Json.object fields).get "length".toList).any Json.truthy then .error .typeError
      else .ok .notApplicable
  | _ => .ok .notApplicable

end RawPolicies
end SimpleStorage
