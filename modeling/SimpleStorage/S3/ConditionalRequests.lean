import SimpleStorage.Database.Query
import SimpleStorage.S3.S3SignatureService

/-!
# Conditional requests

A client may ask for an object under conditions: that its entity tag is, or is not, among those
of a list, and that it has, or has not, been modified since a date.  A condition on the entity
tag takes the place of the one on the date that goes with it.

* `etagMatches_written`: what a list of entity tags matches.
* `assertConditions_follows_iff`: in this code `If-None-Match` takes the place of
  `If-Modified-Since`, but `If-Match` does not take that of `If-Unmodified-Since`, and a header
  without a value is taken for one that is not there.
-/

namespace SimpleStorage

namespace S3Types

/-- The values of the four headers.  A date that cannot be read is there, but has no time. -/
structure ConditionalHeaders where
  ifMatch : Option Text
  ifNoneMatch : Option Text
  ifModifiedSince : Option (Option ℤ)
  ifUnmodifiedSince : Option (Option ℤ)
  deriving DecidableEq, Repr

/-- How a request ends that does not meet its conditions. -/
inductive ConditionFault where
  | preconditionFailed
  | notModified
  deriving DecidableEq, Repr

end S3Types

namespace S3RequestService

open Express S3Types

variable (J : Strings) (D : Numbers)

/-- `s.replace(/^W\//, '')`. -/
def withoutWeakPrefix : Text → Text
  | 'W' :: '/' :: rest => rest
  | s => s

/-- A comma separated list of quoted entity tags, or `*`. -/
def etagMatches (header etag : Text) : Bool :=
  ((Text.split ',' header).map fun candidate =>
      (withoutWeakPrefix candidate.trim).filter (· ≠ '"')).any
    fun candidate => candidate = ['*'] || candidate = etag

def conditionalHeaders (req : Request) : ConditionalHeaders where
  ifMatch := header J req "if-match".toList
  ifNoneMatch := header J req "if-none-match".toList
  ifModifiedSince := (Query.present (header J req "if-modified-since".toList)).map D.dateParse
  ifUnmodifiedSince := (Query.present (header J req "if-unmodified-since".toList)).map D.dateParse

/-- The time of a modification, in whole seconds. -/
def modifiedAt (lastModified : Timestamp) : ℤ := (lastModified / 1000 * 1000 : ℕ)

def assertConditions (req : Request) (etag : Text) (lastModified : Timestamp) :
    Except ConditionFault Unit :=
  let conditions := conditionalHeaders J D req
  if (Query.present conditions.ifMatch).any fun header => !etagMatches header etag then
    .error .preconditionFailed
  else if conditions.ifUnmodifiedSince.join.any fun since => decide (modifiedAt lastModified > since) then
    .error .preconditionFailed
  else
    match Query.present conditions.ifNoneMatch with
    | some header => if etagMatches header etag then .error .notModified else .ok ()
    | none =>
        if conditions.ifModifiedSince.join.any fun since => decide (modifiedAt lastModified ≤ since) then
          .error .notModified
        else .ok ()

/-! ## Entity tags -/

/-- An item of the list. -/
inductive EntityTag where
  | any
  | tag (weak : Bool) (value : Text)
  deriving DecidableEq, Repr

namespace EntityTag

def write : EntityTag → Text
  | any => ['*']
  | tag weak value => (if weak then ['W', '/'] else []) ++ '"' :: value ++ ['"']

/-- Neither a quote nor a comma can stand in an entity tag, and `*` is no such tag. -/
def Plain : EntityTag → Prop
  | any => True
  | tag _ value => '"' ∉ value ∧ ',' ∉ value ∧ value ≠ ['*']

/-- What the code compares. -/
def bare : EntityTag → Text
  | any => ['*']
  | tag _ value => value

theorem comma_not_mem_write {tag : EntityTag} (h : tag.Plain) : ',' ∉ tag.write := by
  cases tag with
  | any => decide
  | tag weak value =>
    cases weak <;> simp [write, h.2.1]

theorem trim_write (tag : EntityTag) : tag.write.trim = tag.write := by
  refine Text.trim_eq_self_iff.mpr ⟨?_, ?_⟩ <;> intro c hc
  · cases tag with
    | any => cases hc; decide
    | tag weak value => cases weak <;> cases hc <;> decide
  · cases tag with
    | any => cases hc; decide
    | tag weak value =>
      rw [write, List.getLast?_append] at hc
      cases hc
      decide

theorem bare_write {tag : EntityTag} (h : tag.Plain) :
    (withoutWeakPrefix tag.write).filter (· ≠ '"') = tag.bare := by
  have hvalue : ∀ value : Text, '"' ∉ value → ('"' :: value ++ ['"']).filter (· ≠ '"') = value := by
    intro value hquote
    rw [List.filter_append, List.filter_cons_of_neg (by decide), List.filter_cons_of_neg (by decide),
      List.filter_nil, List.append_nil, List.filter_eq_self]
    intro c hc
    exact decide_eq_true (ne_of_mem_of_not_mem hc hquote)
  cases tag with
  | any => rfl
  | tag weak value => cases weak <;> exact hvalue value h.1

end EntityTag

/-- **What a list of entity tags matches**: everything, if there is a star in it, else the tags it
names, weak or not. -/
theorem etagMatches_written {items : List (Text × EntityTag)} {etag : Text} (hne : items ≠ [])
    (hblank : ∀ item ∈ items, ∀ c ∈ item.1, c = ' ') (hplain : ∀ item ∈ items, item.2.Plain) :
    etagMatches (Text.join ',' (items.map fun item => item.1 ++ item.2.write)) etag = true ↔
      ∃ item ∈ items, item.2 = .any ∨ item.2.bare = etag := by
  have hcomma : ∀ s ∈ items.map fun item => item.1 ++ item.2.write, ',' ∉ s := by
    intro s hs
    obtain ⟨item, hitem, rfl⟩ := List.mem_map.mp hs
    rw [List.mem_append, not_or]
    refine ⟨fun hc => ?_, EntityTag.comma_not_mem_write (hplain item hitem)⟩
    exact absurd (hblank item hitem _ hc) (by decide)
  have hsplit : Text.split ',' (Text.join ',' (items.map fun item => item.1 ++ item.2.write)) =
      items.map fun item => item.1 ++ item.2.write :=
    List.splitOn_intercalate ',' hcomma (by simpa using hne)
  have hbare : ∀ item ∈ items, (withoutWeakPrefix (item.1 ++ item.2.write).trim).filter (· ≠ '"') =
      item.2.bare := by
    intro item hitem
    rw [Text.trim_append, EntityTag.trim_write, EntityTag.bare_write (hplain item hitem)]
    intro c hc
    rw [hblank item hitem c hc]
    decide
  have hstar : ∀ item ∈ items, item.2.bare = ['*'] ↔ item.2 = .any := by
    intro item hitem
    have hitem' := hplain item hitem
    cases htag : item.2 with
    | any => simp [EntityTag.bare]
    | tag weak value =>
      rw [htag] at hitem'
      simp [EntityTag.bare, hitem'.2.2]
  rw [etagMatches, hsplit, List.any_eq_true]
  simp only [List.map_map, List.mem_map, Function.comp_apply, exists_exists_and_eq_and,
    Bool.or_eq_true, decide_eq_true_eq]
  constructor
  · rintro ⟨item, hitem, h⟩
    rw [hbare item hitem, hstar item hitem] at h
    exact ⟨item, hitem, h⟩
  · rintro ⟨item, hitem, h⟩
    refine ⟨item, hitem, ?_⟩
    rwa [hbare item hitem, hstar item hitem]

/-! ## Precedence -/

/-- The header has a valid date, and the date a property. -/
def DateIs (D : Numbers) (value : Option Text) (p : ℤ → Prop) : Prop :=
  ∃ text, value = some text ∧ text ≠ [] ∧ ∃ since, D.dateParse text = some since ∧ p since

/-- `If-Unmodified-Since` is earlier than the modification. -/
def ModifiedSince (req : Request) (lastModified : Timestamp) : Prop :=
  DateIs D (header J req "if-unmodified-since".toList) (· < modifiedAt lastModified)

/-- `If-Modified-Since` is not earlier than the modification. -/
def UnmodifiedSince (req : Request) (lastModified : Timestamp) : Prop :=
  DateIs D (header J req "if-modified-since".toList) (modifiedAt lastModified ≤ ·)

/-- A precondition fails: that on the entity tag, or if there is none the one on the date. -/
def PreconditionFails (req : Request) (etag : Text) (lastModified : Timestamp) : Prop :=
  (∃ list, header J req "if-match".toList = some list ∧ etagMatches list etag = false) ∨
    (header J req "if-match".toList = none ∧ ModifiedSince J D req lastModified)

/-- The client has what it asks for: by the entity tag, or if none is given by the date. -/
def IsCurrent (req : Request) (etag : Text) (lastModified : Timestamp) : Prop :=
  (∃ list, header J req "if-none-match".toList = some list ∧ etagMatches list etag = true) ∨
    (header J req "if-none-match".toList = none ∧ UnmodifiedSince J D req lastModified)

/-- An answer says whether a precondition has failed, and if none has, whether the client has what
it asks for. -/
structure Answers (fails current : Prop) (answer : Except ConditionFault Unit) : Prop where
  preconditionFailed : answer = .error .preconditionFailed ↔ fails
  notModified : answer = .error .notModified ↔ ¬ fails ∧ current
  passes : answer = .ok () ↔ ¬ fails ∧ ¬ current

/-- An answer settles both questions, but the second one only if no precondition fails. -/
theorem Answers.iff {fails current fails' current' : Prop} {answer : Except ConditionFault Unit}
    (h : Answers fails current answer) :
    Answers fails' current' answer ↔ (fails ↔ fails') ∧ (¬ fails' → (current ↔ current')) := by
  constructor
  · intro h'
    have hfails := h.preconditionFailed.symm.trans h'.preconditionFailed
    refine ⟨hfails, fun hno => ?_⟩
    have hcurrent := h.notModified.symm.trans h'.notModified
    rw [hfails] at hcurrent
    simpa only [hno, not_false_eq_true, true_and] using hcurrent
  · rintro ⟨hfails, hcurrent⟩
    refine ⟨h.preconditionFailed.trans hfails, h.notModified.trans ?_, h.passes.trans ?_⟩
    · rw [hfails]
      exact and_congr_right hcurrent
    · rw [hfails]
      exact and_congr_right fun hno => not_congr (hcurrent hno)

variable {J D} {req : Request} {etag : Text} {lastModified : Timestamp}

/-- A date that is compared. -/
theorem any_date_iff {value : Option Text} {p : ℤ → Prop} [DecidablePred p] :
    (((Query.present value).map D.dateParse).join.any fun since => decide (p since)) = true ↔
      DateIs D value p := by
  constructor
  · intro h
    obtain ⟨since, hsince, hp⟩ := (Option.any_eq_true _ _).mp h
    obtain ⟨text, htext, hparse⟩ := Option.map_eq_some_iff.mp (Option.join_eq_some_iff.mp hsince)
    obtain ⟨hvalue, hne⟩ := Query.present_eq_some_iff.mp htext
    exact ⟨text, hvalue, hne, since, hparse, of_decide_eq_true hp⟩
  · rintro ⟨text, hvalue, hne, since, hparse, hp⟩
    refine (Option.any_eq_true _ _).mpr ⟨since, ?_, decide_eq_true hp⟩
    rw [Query.present_eq_some_iff.mpr ⟨hvalue, hne⟩, Option.map_some, hparse]
    rfl

/-- A list that is there and not empty. -/
theorem any_present_iff {value : Option Text} {p : Text → Bool} :
    (Query.present value).any p = true ↔ ∃ list, value = some list ∧ list ≠ [] ∧ p list = true := by
  rw [Option.any_eq_true]
  simp only [Query.present_eq_some_iff, and_assoc]

variable (J D req etag lastModified)

/-- A precondition fails in the code: the condition on the date counts in any case, and an empty
list is none. -/
def FailsHere : Prop :=
  (∃ list, header J req "if-match".toList = some list ∧ list ≠ [] ∧ etagMatches list etag = false) ∨
    ModifiedSince J D req lastModified

/-- The client has what it asks for, in the code: here as well an empty list is none. -/
def CurrentHere : Prop :=
  (∃ list, header J req "if-none-match".toList = some list ∧ list ≠ [] ∧
      etagMatches list etag = true) ∨
    (Query.present (header J req "if-none-match".toList) = none ∧ UnmodifiedSince J D req lastModified)

/-- **The answers of the code.** -/
theorem assertConditions_answers :
    Answers (FailsHere J D req etag lastModified) (CurrentHere J D req etag lastModified)
      (assertConditions J D req etag lastModified) := by
  have hmatch : ((Query.present (header J req "if-match".toList)).any fun list => !etagMatches list etag) =
      true ↔ ∃ list, header J req "if-match".toList = some list ∧ list ≠ [] ∧
        etagMatches list etag = false := by
    rw [any_present_iff]
    simp only [Bool.not_eq_true']
  have hmodified := @any_date_iff D (header J req "if-unmodified-since".toList)
    (· < modifiedAt lastModified) _
  have hunmodified := @any_date_iff D (header J req "if-modified-since".toList)
    (modifiedAt lastModified ≤ ·) _
  simp only [assertConditions, conditionalHeaders, gt_iff_lt]
  by_cases h₁ : ∃ list, header J req "if-match".toList = some list ∧ list ≠ [] ∧
      etagMatches list etag = false
  · rw [if_pos (hmatch.mpr h₁)]
    have hfails : FailsHere J D req etag lastModified := Or.inl h₁
    exact ⟨iff_of_true rfl hfails, iff_of_false nofun (fun h => h.1 hfails),
      iff_of_false nofun (fun h => h.1 hfails)⟩
  rw [if_neg (mt hmatch.mp h₁)]
  by_cases h₂ : ModifiedSince J D req lastModified
  · rw [if_pos (hmodified.mpr h₂)]
    have hfails : FailsHere J D req etag lastModified := Or.inr h₂
    exact ⟨iff_of_true rfl hfails, iff_of_false nofun (fun h => h.1 hfails),
      iff_of_false nofun (fun h => h.1 hfails)⟩
  rw [if_neg (mt hmodified.mp h₂)]
  have hpass : ¬ FailsHere J D req etag lastModified := not_or.mpr ⟨h₁, h₂⟩
  suffices hcurrent : ∀ answer : Except ConditionFault Unit,
      (answer = .error .notModified ∧ CurrentHere J D req etag lastModified ∨
        answer = .ok () ∧ ¬ CurrentHere J D req etag lastModified) →
      Answers (FailsHere J D req etag lastModified) (CurrentHere J D req etag lastModified) answer by
    refine hcurrent _ ?_
    cases hlist : Query.present (header J req "if-none-match".toList) with
    | some list =>
      dsimp only
      obtain ⟨hheader, hne⟩ := Query.present_eq_some_iff.mp hlist
      by_cases hmatches : etagMatches list etag = true
      · exact Or.inl ⟨if_pos hmatches, Or.inl ⟨list, hheader, hne, hmatches⟩⟩
      · refine Or.inr ⟨if_neg hmatches, ?_⟩
        rintro (⟨list', hheader', -, hmatches'⟩ | ⟨hnone, -⟩)
        · rw [hheader] at hheader'
          cases hheader'
          exact hmatches hmatches'
        · rw [hlist] at hnone
          cases hnone
    | none =>
      dsimp only
      by_cases hsince : UnmodifiedSince J D req lastModified
      · exact Or.inl ⟨if_pos (hunmodified.mpr hsince), Or.inr ⟨hlist, hsince⟩⟩
      · refine Or.inr ⟨if_neg (mt hunmodified.mp hsince), ?_⟩
        rintro (⟨list, hheader, hne, -⟩ | ⟨-, hsince'⟩)
        · rw [Query.present_eq_some_iff.mpr ⟨hheader, hne⟩] at hlist
          cases hlist
        · exact hsince hsince'
  rintro answer (⟨rfl, hcurrent⟩ | ⟨rfl, hcurrent⟩)
  · exact ⟨iff_of_false nofun hpass, iff_of_true rfl ⟨hpass, hcurrent⟩,
      iff_of_false nofun fun h => h.2 hcurrent⟩
  · exact ⟨iff_of_false nofun hpass, iff_of_false nofun fun h => hcurrent h.2,
      iff_of_true rfl ⟨hpass, hcurrent⟩⟩

/-- Where the two orders agree: no list that matches comes with an old date, and where a list is
empty the date says what it says. -/
structure OrdersAgree : Prop where
  matched : ∀ list, header J req "if-match".toList = some list → list ≠ [] →
    etagMatches list etag = true → ¬ ModifiedSince J D req lastModified
  emptyMatch : header J req "if-match".toList = some [] →
    (ModifiedSince J D req lastModified ↔ etagMatches [] etag = false)
  emptyNoneMatch : ¬ PreconditionFails J D req etag lastModified →
    header J req "if-none-match".toList = some [] →
    (UnmodifiedSince J D req lastModified ↔ etagMatches [] etag = true)

/-- **When the answers follow the order of HTTP.** -/
theorem assertConditions_follows_iff :
    Answers (PreconditionFails J D req etag lastModified) (IsCurrent J D req etag lastModified)
        (assertConditions J D req etag lastModified) ↔
      OrdersAgree J D req etag lastModified := by
  rw [(assertConditions_answers J D req etag lastModified).iff]
  have hcurrent : (CurrentHere J D req etag lastModified ↔ IsCurrent J D req etag lastModified) ↔
      (header J req "if-none-match".toList = some [] →
        (UnmodifiedSince J D req lastModified ↔ etagMatches [] etag = true)) := by
    rw [CurrentHere, IsCurrent]
    rcases header J req "if-none-match".toList with _ | _ | ⟨c, list⟩ <;> simp [Query.present]
  have hfails : (FailsHere J D req etag lastModified ↔ PreconditionFails J D req etag lastModified) ↔
      (∀ list, header J req "if-match".toList = some list → list ≠ [] →
        etagMatches list etag = true → ¬ ModifiedSince J D req lastModified) ∧
      (header J req "if-match".toList = some [] →
        (ModifiedSince J D req lastModified ↔ etagMatches [] etag = false)) := by
    rw [FailsHere, PreconditionFails]
    rcases header J req "if-match".toList with _ | _ | ⟨c, list⟩
    · simp
    · simp
    · cases hmatches : etagMatches (c :: list) etag <;> simp [hmatches]
  rw [hfails]
  constructor
  · rintro ⟨⟨hmatched, hempty⟩, hnone⟩
    exact ⟨hmatched, hempty, fun hpass => hcurrent.mp (hnone hpass)⟩
  · intro h
    exact ⟨⟨h.matched, h.emptyMatch⟩, fun hpass => hcurrent.mpr (h.emptyNoneMatch hpass)⟩

/-- Readings in which one date is known, the first. -/
def epochOnly : Numbers :=
  { Numbers.sample with
    dateParse := fun text => if text = "Thu, 01 Jan 1970 00:00:00 GMT".toList then some 0 else none }

/-- A request for the version the client knows, whenever it was stored. -/
def matchingRequest : Request where
  method := "GET".toList
  originalUrl := "/docs/plan.txt".toList
  headers := [("if-match".toList, .one "\"1f\"".toList),
    ("if-unmodified-since".toList, .one "Thu, 01 Jan 1970 00:00:00 GMT".toList)]

/-- **The version is there, and the request is refused** on account of its date. -/
theorem matching_request_refused :
    etagMatches "\"1f\"".toList "1f".toList = true ∧
    assertConditions Strings.ascii epochOnly matchingRequest "1f".toList 5000 =
      .error .preconditionFailed ∧
    ¬ PreconditionFails Strings.ascii epochOnly matchingRequest "1f".toList 5000 := by
  refine ⟨by decide +kernel, by decide +kernel, ?_⟩
  have hheader : header Strings.ascii matchingRequest "if-match".toList = some "\"1f\"".toList := by
    decide +kernel
  have hmatches : etagMatches "\"1f\"".toList "1f".toList = true := by decide +kernel
  rintro (⟨list, hlist, hno⟩ | ⟨hnone, -⟩)
  · rw [hheader, Option.some.injEq] at hlist
    rw [← hlist, hmatches] at hno
    cases hno
  · rw [hheader] at hnone
    cases hnone

end S3RequestService
end SimpleStorage
