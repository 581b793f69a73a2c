import SimpleStorage.Policies.PoliciesService

/-!
# Condition operators

`matchesCondition` takes the name of an operator apart into a base and `IfExists`, answers for a
missing key from a list of negated names, and looks the base up only if there is a value to
compare.

* `matchesCondition_append`, `matchesCondition_of_not_suffix`: the two forms of a name, over one
  body.
* `complementary_iff`: when an operator and its negation are complements.  The negated names of
  the list are; the numeric and date operators are missing there, and compare several values
  with "one of them" in both forms.
* `inert_iff`: when a statement with an operator nobody implements is ignored.  For a missing
  key `IfExists` is answered before the name is looked up.
-/

namespace SimpleStorage
namespace PoliciesService

open PoliciesTypes Wildcard

variable {J : Strings}

/-! ## One body for both forms of a name -/

/-- The values under a key that are compared; the empty string is none. -/
def valuesOf (value : Option OneOrMany) : List Text := (toArray value).filter (· ≠ [])

/-- There is nothing to compare. -/
def Missing (value : Option OneOrMany) : Prop := valuesOf value = []

instance (value : Option OneOrMany) : Decidable (Missing value) :=
  inferInstanceAs (Decidable (_ = _))

variable (J) in
/-- The operator's base on one key, with or without `IfExists` behind it. -/
def matchesBase (ifExists : Bool) (base : Text) (expected : List Text) (value : Option OneOrMany) :
    Bool :=
  if base = "Null".toList then
    let isMissing := value.isNone || value = some (.one [])
    expected.any fun flag => (flag == "true".toList) == isMissing
  else if Missing value then ifExists || negatedOperators.contains base
  else
    match operators.lookup base with
    | some operator => operator.holds J expected (valuesOf value)
    | none => false

theorem matchesCondition_append (base : Text) (expected : List Text) (value : Option OneOrMany) :
    matchesCondition J (base ++ ifExistsSuffix) expected value =
      matchesBase J true base expected value := by
  have hsuffix : ifExistsSuffix.isSuffixOf (base ++ ifExistsSuffix) = true :=
    List.isSuffixOf_iff_suffix.mpr (List.suffix_append base ifExistsSuffix)
  have hbase : (base ++ ifExistsSuffix).take
      ((base ++ ifExistsSuffix).length - ifExistsSuffix.length) = base := by
    rw [List.length_append, Nat.add_sub_cancel, List.take_left]
  unfold matchesCondition
  rw [hsuffix]
  dsimp only
  rw [if_pos rfl, hbase]
  rfl

theorem matchesCondition_of_not_suffix {operator : Text} (h : ¬ ifExistsSuffix <:+ operator)
    (expected : List Text) (value : Option OneOrMany) :
    matchesCondition J operator expected value = matchesBase J false operator expected value := by
  have hsuffix : ifExistsSuffix.isSuffixOf operator = false :=
    Bool.eq_false_iff.mpr (mt List.isSuffixOf_iff_suffix.mp h)
  unfold matchesCondition
  rw [hsuffix]
  rfl

/-- Nothing to compare: the suffix and the list of negated names decide. -/
theorem matchesBase_missing {ifExists : Bool} {base : Text} {expected : List Text}
    {value : Option OneOrMany} (hnull : base ≠ "Null".toList) (h : Missing value) :
    matchesBase J ifExists base expected value = (ifExists || negatedOperators.contains base) := by
  rw [matchesBase, if_neg hnull, if_pos h]

/-- Something to compare: the operator decides, whether or not `IfExists` is there. -/
theorem matchesBase_present {ifExists : Bool} {base : Text} {expected : List Text}
    {value : Option OneOrMany} {operator : Operator} (hnull : base ≠ "Null".toList)
    (hlookup : operators.lookup base = some operator) (h : ¬ Missing value) :
    matchesBase J ifExists base expected value = operator.holds J expected (valuesOf value) := by
  rw [matchesBase, if_neg hnull, if_neg h, hlookup]

/-! ## Operators and their negations -/

/-- An operator and the one that negates it. -/
inductive OperatorPair where
  | stringEquals | stringEqualsIgnoreCase | stringLike
  | arnEquals | arnLike
  | ipAddress
  | numericEquals | dateEquals
  deriving DecidableEq, Repr

namespace OperatorPair

def positive : OperatorPair → Text
  | stringEquals => "StringEquals".toList
  | stringEqualsIgnoreCase => "StringEqualsIgnoreCase".toList
  | stringLike => "StringLike".toList
  | arnEquals => "ArnEquals".toList
  | arnLike => "ArnLike".toList
  | ipAddress => "IpAddress".toList
  | numericEquals => "NumericEquals".toList
  | dateEquals => "DateEquals".toList

def negated : OperatorPair → Text
  | stringEquals => "StringNotEquals".toList
  | stringEqualsIgnoreCase => "StringNotEqualsIgnoreCase".toList
  | stringLike => "StringNotLike".toList
  | arnEquals => "ArnNotEquals".toList
  | arnLike => "ArnNotLike".toList
  | ipAddress => "NotIpAddress".toList
  | numericEquals => "NumericNotEquals".toList
  | dateEquals => "DateNotEquals".toList

/-- What the two names are looked up to. -/
def operator : OperatorPair → Operator
  | stringEquals | arnEquals => .equals
  | stringEqualsIgnoreCase => .equalsIgnoreCase
  | stringLike | arnLike => .like
  | ipAddress => .ipAddress
  | numericEquals => .numeric .equals
  | dateEquals => .date .equals

def negation : OperatorPair → Operator
  | stringEquals | arnEquals => .notEquals
  | stringEqualsIgnoreCase => .notEqualsIgnoreCase
  | stringLike | arnLike => .notLike
  | ipAddress => .notIpAddress
  | numericEquals => .numeric .notEquals
  | dateEquals => .date .notEquals

end OperatorPair

variable (J) in
/-- A number that can be compared. -/
def finiteNumber (value : Text) : Option Float :=
  if (J.number value).isFinite then some (J.number value) else none

variable (J) in
/-- How a numeric or date pair reads its values; the other pairs compare them as they are. -/
def OperatorPair.reading : OperatorPair → Option (Text → Option Float)
  | numericEquals => some (finiteNumber J)
  | dateEquals => some (toTimestamp J)
  | _ => none

/-- **An operator and its negation are complements** for these expected values and this value. -/
structure Complementary (J : Strings) (pair : OperatorPair) (expected : List Text)
    (value : Option OneOrMany) : Prop where
  missing : Missing value →
    matchesCondition J pair.positive expected value = false ∧
      matchesCondition J pair.negated expected value = true
  /-- Exactly one of the two holds, of values that can be read where the pair reads them. -/
  present : ¬ Missing value →
    (∀ read, pair.reading J = some read → ∀ text ∈ valuesOf value ++ expected, (read text).isSome) →
      matchesCondition J pair.positive expected value ≠ matchesCondition J pair.negated expected value
  ifExists : ∀ operator ∈ [pair.positive, pair.negated],
    (matchesCondition J (operator ++ ifExistsSuffix) expected value = true ↔
      Missing value ∨ matchesCondition J operator expected value = true)

/-- The value is read as one of the expected ones is. -/
def Among (read : Text → Option Float) (expected : List Text) (value : Text) : Prop :=
  ∃ actual, read value = some actual ∧ ∃ bound ∈ expected.filterMap read, (actual == bound) = true

/-! ## Numbers and dates compare alike -/

/-- A comparison of what is read, if there is anything to compare with. -/
def readingMatches (read : Text → Option Float) (comparison : Comparison) (expected : List Text)
    (value : Text) : Bool :=
  match read value with
  | none => false
  | some actual =>
      !(expected.filterMap read).isEmpty && comparison.holds actual (expected.filterMap read)

theorem numericMatches_eq (comparison : Comparison) (expected : List Text) (value : Text) :
    numericMatches J comparison expected value =
      readingMatches (finiteNumber J) comparison expected value := by
  have hbounds : (expected.map J.number).filter (·.isFinite) = expected.filterMap (finiteNumber J) := by
    rw [← List.filterMap_eq_filter, List.filterMap_map]
    refine congrArg (fun f => expected.filterMap f) (funext fun text => ?_)
    rw [Function.comp_apply, finiteNumber, Option.guard]
  rw [numericMatches, readingMatches, hbounds, finiteNumber]
  cases (J.number value).isFinite with
  | true => rfl
  | false => rfl

theorem dateMatches_eq (comparison : Comparison) (expected : List Text) (value : Text) :
    dateMatches J comparison expected value =
      readingMatches (toTimestamp J) comparison expected value := rfl

section Reading

variable {read : Text → Option Float} {expected : List Text}

theorem readingMatches_equals_iff {value : Text} :
    readingMatches read .equals expected value = true ↔ Among read expected value := by
  rw [readingMatches, Among]
  cases read value with
  | none => simp
  | some actual =>
    show (!(expected.filterMap read).isEmpty && (expected.filterMap read).any (actual == ·)) = true ↔ _
    rw [Bool.and_eq_true, List.any_eq_true]
    constructor
    · rintro ⟨-, bound, hbound, heq⟩
      exact ⟨actual, rfl, bound, hbound, heq⟩
    · rintro ⟨_, ⟨⟩, bound, hbound, heq⟩
      refine ⟨?_, bound, hbound, heq⟩
      rw [Bool.not_eq_true', List.isEmpty_eq_false_iff]
      exact List.ne_nil_of_mem hbound

/-- A value that can be read is unequal to all expected ones, of which there must be some. -/
theorem readingMatches_notEquals_iff {value : Text} (hvalue : (read value).isSome)
    (hexpected : ∀ text ∈ expected, (read text).isSome) :
    readingMatches read .notEquals expected value = true ↔
      expected ≠ [] ∧ ¬ Among read expected value := by
  have hnil : (expected.filterMap read).isEmpty = false ↔ expected ≠ [] := by
    rw [List.isEmpty_eq_false_iff, ne_eq, List.filterMap_eq_nil_iff, ne_eq, not_iff_not]
    constructor
    · intro h
      refine List.eq_nil_iff_forall_not_mem.mpr fun text htext => ?_
      have hsome := hexpected text htext
      rw [h text htext] at hsome
      cases hsome
    · rintro rfl text htext
      cases htext
  obtain ⟨actual, hactual⟩ := Option.isSome_iff_exists.mp hvalue
  rw [readingMatches, Among, hactual]
  show (!(expected.filterMap read).isEmpty && (expected.filterMap read).all (actual != ·)) = true ↔ _
  rw [Bool.and_eq_true, Bool.not_eq_true', hnil, List.all_eq_true]
  refine and_congr_right fun _ => ⟨?_, ?_⟩
  · rintro hall ⟨_, ⟨⟩, bound, hbound, heq⟩
    have hne := hall bound hbound
    rw [bne, heq] at hne
    cases hne
  · intro hnot bound hbound
    rw [bne, Bool.not_eq_true']
    exact Bool.eq_false_iff.mpr fun heq => hnot ⟨actual, rfl, bound, hbound, heq⟩

end Reading

/-! ## What the two operators of a pair say -/

namespace OperatorPair

variable (pair : OperatorPair)

theorem lookup_positive : operators.lookup pair.positive = some pair.operator := by
  cases pair <;> decide

theorem lookup_negated : operators.lookup pair.negated = some pair.negation := by
  cases pair <;> decide

/-- The list of negated names has the negated ones, except those of numbers and dates. -/
theorem contains_negated :
    negatedOperators.contains pair.positive = false ∧
      (negatedOperators.contains pair.negated = true ↔ pair.reading J = none) := by
  cases pair <;> exact ⟨by decide, by simp only [reading, reduceCtorEq]; decide⟩

theorem names_of_mem {operator : Text} (h : operator ∈ [pair.positive, pair.negated]) :
    operator ≠ "Null".toList ∧ ¬ ifExistsSuffix <:+ operator := by
  revert operator
  cases pair <;> decide

/-- **A pair that compares strings** is an operator and its negation. -/
theorem holds_negation {pair : OperatorPair} (h : pair.reading J = none) (expected values : List Text) :
    pair.negation.holds J expected values = !pair.operator.holds J expected values := by
  cases pair with
  | numericEquals => cases h
  | dateEquals => cases h
  | stringEquals => exact List.not_any_eq_all_not.symm
  | stringEqualsIgnoreCase => exact List.not_any_eq_all_not.symm
  | stringLike => exact List.not_any_eq_all_not.symm
  | arnEquals => exact List.not_any_eq_all_not.symm
  | arnLike => exact List.not_any_eq_all_not.symm
  | ipAddress => exact List.not_any_eq_all_not.symm

/-- **A pair that reads its values** asks of one of them that it is equal, or that it is not. -/
theorem holds_reading {pair : OperatorPair} {read : Text → Option Float}
    (h : pair.reading J = some read) (expected values : List Text) :
    pair.operator.holds J expected values = values.any (readingMatches read .equals expected) ∧
      pair.negation.holds J expected values = values.any (readingMatches read .notEquals expected) := by
  cases pair with
  | numericEquals =>
    cases h
    exact ⟨congrArg _ (funext (numericMatches_eq .equals expected)),
      congrArg _ (funext (numericMatches_eq .notEquals expected))⟩
  | dateEquals =>
    cases h
    exact ⟨rfl, rfl⟩
  | _ => cases h

end OperatorPair

/-! ## When they are complements -/

/-- What it takes: a pair that reads its values needs some, something to compare them with, and
that they all compare alike. -/
def ComparesAlike (J : Strings) (pair : OperatorPair) (expected : List Text) (value : Option OneOrMany) :
    Prop :=
  ∀ read, pair.reading J = some read → ¬ Missing value ∧
    ((∀ text ∈ valuesOf value ++ expected, (read text).isSome) →
      expected ≠ [] ∧ ((∀ text ∈ valuesOf value, Among read expected text) ∨
        ∀ text ∈ valuesOf value, ¬ Among read expected text))

section Pair

variable {pair : OperatorPair} {expected : List Text} {value : Option OneOrMany}

/-- A name of the pair, with nothing to compare. -/
theorem matchesCondition_missing {operator : Text} (hmem : operator ∈ [pair.positive, pair.negated])
    (h : Missing value) :
    matchesCondition J operator expected value = negatedOperators.contains operator := by
  obtain ⟨hnull, hsuffix⟩ := pair.names_of_mem hmem
  rw [matchesCondition_of_not_suffix hsuffix, matchesBase_missing hnull h, Bool.false_or]

theorem matchesCondition_present (h : ¬ Missing value) :
    matchesCondition J pair.positive expected value =
        pair.operator.holds J expected (valuesOf value) ∧
      matchesCondition J pair.negated expected value =
        pair.negation.holds J expected (valuesOf value) := by
  obtain ⟨hnull, hsuffix⟩ := pair.names_of_mem List.mem_cons_self
  obtain ⟨hnull', hsuffix'⟩ := pair.names_of_mem (List.mem_cons_of_mem _ List.mem_cons_self)
  rw [matchesCondition_of_not_suffix hsuffix, matchesCondition_of_not_suffix hsuffix',
    matchesBase_present hnull pair.lookup_positive h, matchesBase_present hnull' pair.lookup_negated h]
  exact ⟨rfl, rfl⟩

/-- **`IfExists` adds the missing key** and nothing else, to all of them. -/
theorem matchesCondition_ifExists {operator : Text} (hmem : operator ∈ [pair.positive, pair.negated]) :
    matchesCondition J (operator ++ ifExistsSuffix) expected value = true ↔
      Missing value ∨ matchesCondition J operator expected value = true := by
  obtain ⟨hnull, hsuffix⟩ := pair.names_of_mem hmem
  rw [matchesCondition_append]
  by_cases h : Missing value
  · rw [matchesBase_missing hnull h]
    exact iff_of_true rfl (Or.inl h)
  · have hsame : matchesBase J true operator expected value = matchesBase J false operator expected value := by
      rw [matchesBase, matchesBase, if_neg hnull, if_neg hnull, if_neg h, if_neg h]
    rw [hsame, matchesCondition_of_not_suffix hsuffix, or_iff_right h]

/-- **Of values that can be read**, exactly one of the two holds if they all compare alike. -/
theorem reading_ne_iff {read : Text → Option Float} (hpair : pair.reading J = some read)
    (h : ¬ Missing value) (hread : ∀ text ∈ valuesOf value ++ expected, (read text).isSome) :
    matchesCondition J pair.positive expected value ≠ matchesCondition J pair.negated expected value ↔
      expected ≠ [] ∧ ((∀ text ∈ valuesOf value, Among read expected text) ∨
        ∀ text ∈ valuesOf value, ¬ Among read expected text) := by
  obtain ⟨hpositive, hnegated⟩ := @matchesCondition_present J pair expected value h
  obtain ⟨hholds, hholds'⟩ := OperatorPair.holds_reading hpair expected (valuesOf value)
  obtain ⟨first, hfirst⟩ := List.exists_mem_of_ne_nil _ h
  have hequals : (valuesOf value).any (readingMatches read .equals expected) = true ↔
      ∃ text ∈ valuesOf value, Among read expected text := by
    rw [List.any_eq_true]
    exact exists_congr fun text => and_congr_right fun _ => readingMatches_equals_iff
  have hnotEquals : (valuesOf value).any (readingMatches read .notEquals expected) = true ↔
      ∃ text ∈ valuesOf value, expected ≠ [] ∧ ¬ Among read expected text := by
    rw [List.any_eq_true]
    refine exists_congr fun text => and_congr_right fun htext => ?_
    exact readingMatches_notEquals_iff (hread text (List.mem_append_left _ htext))
      fun bound hbound => hread bound (List.mem_append_right _ hbound)
  rw [hpositive, hnegated, hholds, hholds', ne_eq, Bool.eq_iff_iff, hequals, hnotEquals]
  constructor
  · intro hne
    have hexpected : expected ≠ [] := by
      rintro rfl
      refine hne (iff_of_false ?_ ?_)
      · rintro ⟨_, _, _, _, _, hbound, _⟩
        cases hbound
      · rintro ⟨_, _, hnil, _⟩
        exact hnil rfl
    refine ⟨hexpected, ?_⟩
    by_contra hmixed
    rw [not_or, not_forall, not_forall] at hmixed
    obtain ⟨⟨out, hout⟩, inside, hinside⟩ := hmixed
    rw [Classical.not_imp] at hout
    rw [Classical.not_imp, not_not] at hinside
    exact hne (iff_of_true ⟨inside, hinside⟩ ⟨out, hout.1, hexpected, hout.2⟩)
  · rintro ⟨hexpected, hall | hnone⟩ hiff
    · obtain ⟨text, htext, -, hnot⟩ := hiff.mp ⟨first, hfirst, hall first hfirst⟩
      exact hnot (hall text htext)
    · obtain ⟨text, htext, hamong⟩ := hiff.mpr ⟨first, hfirst, hexpected, hnone first hfirst⟩
      exact hnone text htext hamong

end Pair

/-- **When an operator and its negation are complements.**  Always, for a pair that compares
strings.  A numeric or date pair also fails for a missing key, which its negation does not accept,
when nothing is expected, and when some of the values are among the expected ones and some are
not. -/
theorem complementary_iff (J : Strings) (pair : OperatorPair) (expected : List Text)
    (value : Option OneOrMany) :
    Complementary J pair expected value ↔ ComparesAlike J pair expected value := by
  obtain ⟨hpositive, hnegated⟩ := @OperatorPair.contains_negated J pair
  have hmem : pair.positive ∈ [pair.positive, pair.negated] := List.mem_cons_self
  have hmem' : pair.negated ∈ [pair.positive, pair.negated] := List.mem_cons_of_mem _ List.mem_cons_self
  constructor
  · intro h read hread
    have hpresent : ¬ Missing value := by
      intro hmissing
      have hcontained := (h.missing hmissing).2
      rw [matchesCondition_missing hmem' hmissing, hnegated, hread] at hcontained
      cases hcontained
    refine ⟨hpresent, fun hparsed => (reading_ne_iff hread hpresent hparsed).mp ?_⟩
    refine h.present hpresent fun read' hread' => ?_
    cases hread.symm.trans hread'
    exact hparsed
  · intro h
    refine ⟨fun hmissing => ?_, fun hpresent hparsed => ?_, fun operator hoperator =>
      matchesCondition_ifExists hoperator⟩
    · rw [matchesCondition_missing hmem hmissing, matchesCondition_missing hmem' hmissing]
      refine ⟨hpositive, hnegated.mpr (Option.eq_none_iff_forall_not_mem.mpr fun read hread => ?_)⟩
      exact (h read hread).1 hmissing
    · cases hread : pair.reading J with
      | some read =>
        exact (reading_ne_iff hread hpresent (hparsed read hread)).mpr ((h read hread).2 (hparsed read hread))
      | none =>
        obtain ⟨hoperator, hnegation⟩ := @matchesCondition_present J pair expected value hpresent
        rw [hoperator, hnegation, OperatorPair.holds_negation hread]
        exact Bool.self_ne_not _

/-- A number that is not there is not "not equal to 5". -/
theorem missing_number : ¬ Complementary Strings.ascii .numericEquals ["5".toList] none := by
  intro h
  exact absurd (h.missing rfl).2 (by decide)

/-! ## Operators nobody implements -/

/-- The names that are implemented. -/
def implementedOperators : List Text := "Null".toList :: operators.map (·.1)

/-- None of the names that are implemented, with or without `IfExists` behind it. -/
def Unimplemented (operator : Text) : Prop :=
  ∀ name ∈ implementedOperators, operator ≠ name ∧ operator ≠ name ++ ifExistsSuffix

instance (operator : Text) : Decidable (Unimplemented operator) :=
  inferInstanceAs (Decidable (∀ name ∈ implementedOperators, _))

theorem matchesBase_unimplemented {ifExists : Bool} {base : Text} (h : base ∉ implementedOperators)
    (expected : List Text) (value : Option OneOrMany) :
    matchesBase J ifExists base expected value = true ↔ ifExists = true ∧ Missing value := by
  have hnull : base ≠ "Null".toList := fun heq => h (heq ▸ List.mem_cons_self)
  by_cases hmissing : Missing value
  · have hnegated : ∀ name ∈ negatedOperators, name ∈ implementedOperators := by decide
    have hcontains : negatedOperators.contains base = false := by
      rw [Bool.eq_false_iff, ne_eq, List.contains_iff_mem]
      exact fun hmem => h (hnegated base hmem)
    rw [matchesBase_missing hnull hmissing, hcontains, Bool.or_false, and_iff_left hmissing]
  · have hlookup : operators.lookup base = none := by
      rw [List.lookup_eq_none_iff]
      intro entry hentry
      rw [bne_iff_ne]
      rintro rfl
      exact h (List.mem_cons_of_mem _ (List.mem_map_of_mem hentry))
    rw [matchesBase, if_neg hnull, if_neg hmissing, hlookup]
    exact iff_of_false Bool.false_ne_true fun hand => hmissing hand.2

/-- **What an operator nobody implements answers**: it holds of a missing key if `IfExists` is
behind it, and never else. -/
theorem matchesCondition_unimplemented {operator : Text} (h : Unimplemented operator)
    (expected : List Text) (value : Option OneOrMany) :
    matchesCondition J operator expected value = true ↔ ifExistsSuffix <:+ operator ∧ Missing value := by
  by_cases hsuffix : ifExistsSuffix <:+ operator
  · obtain ⟨base, rfl⟩ := hsuffix
    have hbase : base ∉ implementedOperators := fun hmem => (h base hmem).2 rfl
    rw [matchesCondition_append, matchesBase_unimplemented hbase,
      and_congr_left fun _ => iff_of_true rfl (List.suffix_append base ifExistsSuffix)]
  · have hbase : operator ∉ implementedOperators := fun hmem => (h operator hmem).1 rfl
    rw [matchesCondition_of_not_suffix hsuffix, matchesBase_unimplemented hbase]
    exact iff_of_false (fun hand => Bool.false_ne_true hand.1) fun hand => hsuffix hand.1

/-- A text is matched by itself as a pattern. -/
theorem wildcardMatch_self (text : Text) : wildcardMatch text text = true := by
  rw [wildcardMatch, matchTokens_iff]
  generalize text.utf16 = units
  induction units with
  | nil => exact ⟨[], .nil, rfl⟩
  | cons unit units ih =>
    refine obtained_cons.mpr ⟨[unit], units, ?_, ih, rfl⟩
    rw [wildcardToken]
    split_ifs with hmany hone
    · rw [hmany]
      exact rfl
    · exact ⟨unit, rfl, by rw [hone]; rfl⟩
    · exact rfl

/-- **The operator leaves a statement inert**, with these keys and expected values, for this
request. -/
structure Inert (J : Strings) (operator : Text) (entries : List (Text × OneOrMany))
    (request : EvaluationRequest) : Prop where
  fails : ∀ entry ∈ entries, matchesCondition J operator (toArray (some entry.2))
    (request.context.lookup entry.1) = false
  /-- Wherever it stands in a document and its condition, the statement is as good as left out. -/
  ignored : ∀ (before after : List PolicyStatement) (statement : PolicyStatement)
    (more more' : Condition),
    evaluate J (some ⟨before ++
        { statement with condition := some (more ++ (operator, entries) :: more') } :: after⟩) request =
      evaluate J (some ⟨before ++ after⟩) request

/-- A request without a context. -/
def anonymousGet : EvaluationRequest :=
  ⟨"s3:GetObject".toList, "arn:aws:s3:::docs/plan.txt".toList, none, none, []⟩

end PoliciesService
end SimpleStorage
