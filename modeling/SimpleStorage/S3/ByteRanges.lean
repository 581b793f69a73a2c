import SimpleStorage.S3.S3RequestService

/-!
# Byte ranges

A `Range` header asks for the bytes from one offset to another, from one on, or for the last few;
`parseRange` resolves it against the size of the object, and `copySourceRange` does so with the
header of a part copy.

* `rangeParts_iff`: the two numbers of a header are the digits before and behind the hyphen.
* `copySourceRange_bounds`: what a part copy reads is there.
* `range_resolves_iff`: what `parseRange` resolves a header to is the part of the object that is asked
  for, and something, except for the last bytes of an empty object.

A number of digits is taken for the one it writes.  The runtime rounds those from `2 ^ 53` on, which
makes no difference to how they compare with a size (`value_compares`).
-/

namespace SimpleStorage

namespace S3Types

/-- The first and the last byte, as the numbers they come out as. -/
structure ResolvedRange where
  start : ℤ
  «end» : ℤ
  deriving DecidableEq, Repr

/-- The errors of reading a range. -/
inductive RangeFault where
  | invalidRange
  | invalidArgument (resource : Text)
  deriving DecidableEq, Repr

end S3Types

namespace S3RequestService

open Express S3Types NumericLiteral

variable (J : Strings)

/-! ## The two headers -/

def bytesUnit : Text := "bytes=".toList

/-- The groups of `/^bytes=(\d*)-(\d*)$/`. -/
def rangeParts (header : Text) : Option (Text × Text) :=
  if bytesUnit.isPrefixOf header then
    let numbers := header.drop bytesUnit.length
    match numbers.dropWhile Char.isDigit with
    | '-' :: endPart =>
        if endPart.all Char.isDigit then some (numbers.takeWhile Char.isDigit, endPart) else none
    | _ => none
  else none

def parseRange (req : Request) (size : ℕ) : Except RangeFault (Option ResolvedRange) :=
  match header J req "range".toList with
  | none | some [] => .ok none
  | some header =>
      match rangeParts header.trim with
      | none => .ok none
      | some (startPart, endPart) =>
          if startPart = [] ∧ endPart = [] then .ok none
          else if startPart = [] then
            let suffix := decimal endPart
            if suffix ≤ 0 then .error .invalidRange
            else .ok (some ⟨max ((size : ℤ) - suffix) 0, (size : ℤ) - 1⟩)
          else
            let start : ℤ := decimal startPart
            let stop : ℤ := if endPart = [] then (size : ℤ) - 1 else min (decimal endPart : ℤ) (size - 1)
            if start ≥ size ∨ start > stop then .error .invalidRange else .ok (some ⟨start, stop⟩)

/-- `/^bytes=(\d+)-(\d+)$/` wants both numbers. -/
def copySourceRange (req : Request) (size : ℕ) : Except RangeFault (Option ResolvedRange) :=
  match header J req "x-amz-copy-source-range".toList with
  | none | some [] => .ok none
  | some header =>
      match rangeParts header.trim with
      | none => .error (.invalidArgument header)
      | some (startPart, endPart) =>
          if startPart = [] ∨ endPart = [] then .error (.invalidArgument header)
          else
            let start : ℤ := decimal startPart
            let stop : ℤ := min (decimal endPart : ℤ) (size - 1)
            if start ≥ size ∨ start > stop then .error .invalidRange else .ok (some ⟨start, stop⟩)

/-- **Rounding cannot be told from a size.**  What digits are converted to is below a size, or is
not, as the number they write is, and they are only rounded where they are not below any size. -/
theorem value_compares {digits : Text} (hne : digits ≠ []) (h : ∀ c ∈ digits, c.isDigit = true)
    {size : ℕ} (hsize : size < 2 ^ 52) :
    (decimal digits < 2 ^ 53 → value digits = some (decimal digits : ℚ)) ∧
      (size ≤ decimal digits → ∀ q, value digits = some q → (size : ℚ) ≤ q) := by
  rw [value_digits hne h]
  exact ⟨toDouble_natCast, fun hle q => natCast_le_of_toDouble hsize hle⟩

/-! ## What a header asks for -/

/-- The bytes asked for. -/
inductive ByteRequest where
  | firstLast (first last : ℕ)
  | «from» (first : ℕ)
  | suffix (count : ℕ)
  deriving DecidableEq, Repr

namespace ByteRequest

/-- The offsets asked for in an object of some size. -/
def Selects (size : ℕ) : ByteRequest → ℕ → Prop
  | firstLast first last, i => i < size ∧ first ≤ i ∧ i ≤ last
  | «from» first, i => i < size ∧ first ≤ i
  | suffix count, i => i < size ∧ size ≤ i + count

/-- The first byte is not behind the last one. -/
def Ordered : ByteRequest → Prop
  | firstLast first last => first ≤ last
  | _ => True

/-- The request as it is written, behind the unit. -/
structure WrittenAs (request : ByteRequest) (startPart endPart : Text) : Prop where
  digits : (∀ c ∈ startPart, c.isDigit = true) ∧ ∀ c ∈ endPart, c.isDigit = true
  numbers : match request with
    | firstLast first last =>
        startPart ≠ [] ∧ endPart ≠ [] ∧ decimal startPart = first ∧ decimal endPart = last
    | «from» first => startPart ≠ [] ∧ endPart = [] ∧ decimal startPart = first
    | suffix count => startPart = [] ∧ endPart ≠ [] ∧ decimal endPart = count

end ByteRequest

/-- The request's header asks for these bytes. -/
def Asks (req : Request) (request : ByteRequest) : Prop :=
  ∃ text startPart endPart, header J req "range".toList = some text ∧
    text.trim = bytesUnit ++ startPart ++ '-' :: endPart ∧ request.WrittenAs startPart endPart

/-- The bytes from the start to the end are bytes of the object, and there are some. -/
def Within (size : ℕ) (range : ResolvedRange) : Prop :=
  0 ≤ range.start ∧ range.start ≤ range.end ∧ range.end < size

/-- **A header is resolved to what it asks for** in an object of this size. -/
structure Resolves (req : Request) (size : ℕ) : Prop where
  within : ∀ range, parseRange J req size = .ok (some range) → Within size range
  fault : ∀ e, parseRange J req size = .error e → e = .invalidRange
  selected : ∀ range, parseRange J req size = .ok (some range) →
    ∃ request, Asks J req request ∧ ∀ i : ℕ, (range.start ≤ i ∧ i ≤ range.end ↔ request.Selects size i)
  refused : ∀ request, Asks J req request → request.Ordered → (∀ i, ¬ request.Selects size i) →
    parseRange J req size = .error .invalidRange
  /-- The bounds of the other header. -/
  copied : ∀ range, copySourceRange J req size = .ok (some range) → Within size range

/-! ## Reading the numbers -/

/-- **The digits before and behind the hyphen.** -/
theorem rangeParts_iff {header startPart endPart : Text} :
    rangeParts header = some (startPart, endPart) ↔
      header = bytesUnit ++ startPart ++ '-' :: endPart ∧
        (∀ c ∈ startPart, c.isDigit = true) ∧ ∀ c ∈ endPart, c.isDigit = true := by
  rw [rangeParts]
  constructor
  · intro h
    split_ifs at h with hunit
    obtain ⟨numbers, rfl⟩ := List.isPrefixOf_iff_prefix.mp hunit
    rw [List.drop_left] at h
    dsimp only at h
    split at h
    · next behind hbehind =>
      split_ifs at h with hdigits
      obtain ⟨rfl, rfl⟩ := Prod.mk.inj (Option.some.inj h)
      have hnumbers := List.takeWhile_append_dropWhile (p := Char.isDigit) (l := numbers)
      rw [hbehind] at hnumbers
      refine ⟨by rw [List.append_assoc, hnumbers], fun c hc => List.mem_takeWhile_imp hc,
        List.all_eq_true.mp hdigits⟩
    · cases h
  · rintro ⟨rfl, hstart, hend⟩
    have hunit : bytesUnit.isPrefixOf (bytesUnit ++ startPart ++ '-' :: endPart) = true := by
      rw [List.isPrefixOf_iff_prefix, List.append_assoc]
      exact List.prefix_append _ _
    rw [if_pos hunit, List.append_assoc, List.drop_left]
    dsimp only
    rw [List.dropWhile_append_of_pos hstart, List.takeWhile_append_of_pos hstart]
    show (if endPart.all Char.isDigit then some (startPart ++ [], endPart) else none) = _
    rw [if_pos (List.all_eq_true.mpr hend), List.append_nil]

variable {J} {req : Request}

/-- Both numbers, of a header that asks for something. -/
theorem rangeParts_of_asks {request : ByteRequest} (h : Asks J req request) :
    ∃ text startPart endPart, header J req "range".toList = some text ∧ text ≠ [] ∧
      rangeParts text.trim = some (startPart, endPart) ∧ request.WrittenAs startPart endPart := by
  obtain ⟨text, startPart, endPart, htext, htrim, hwritten⟩ := h
  refine ⟨text, startPart, endPart, htext, ?_, rangeParts_iff.mpr ⟨htrim, hwritten.digits⟩, hwritten⟩
  rintro rfl
  have hlength := congrArg List.length htrim
  rw [List.length_append, List.length_cons] at hlength
  cases hlength

/-- **What the three forms resolve to.** -/
theorem parseRange_of_asks {request : ByteRequest} (h : Asks J req request) (size : ℕ) :
    parseRange J req size =
      match request with
      | .firstLast first last =>
          if (first : ℤ) ≥ size ∨ (first : ℤ) > min (last : ℤ) (size - 1) then .error .invalidRange
          else .ok (some ⟨first, min (last : ℤ) (size - 1)⟩)
      | .«from» first =>
          if (first : ℤ) ≥ size ∨ (first : ℤ) > (size : ℤ) - 1 then .error .invalidRange
          else .ok (some ⟨first, (size : ℤ) - 1⟩)
      | .suffix count =>
          if count ≤ 0 then .error .invalidRange
          else .ok (some ⟨max ((size : ℤ) - count) 0, (size : ℤ) - 1⟩) := by
  obtain ⟨text, startPart, endPart, htext, hne, hparts, hwritten⟩ := rangeParts_of_asks h
  have hnumbers := hwritten.numbers
  rw [parseRange, htext]
  cases text with
  | nil => exact absurd rfl hne
  | cons c text =>
    dsimp only
    rw [hparts]
    cases request with
    | firstLast first last =>
      obtain ⟨hstart, hend, rfl, rfl⟩ := hnumbers
      dsimp only
      rw [if_neg fun h => hstart h.1, if_neg hstart, if_neg hend]
    | «from» first =>
      obtain ⟨hstart, rfl, rfl⟩ := hnumbers
      dsimp only
      rw [if_neg fun h => hstart h.1, if_neg hstart, if_pos rfl]
    | suffix count =>
      obtain ⟨rfl, hend, rfl⟩ := hnumbers
      dsimp only
      rw [if_neg fun h => hend h.2, if_pos rfl]

/-- A header that asks for nothing is ignored. -/
theorem parseRange_of_not_asks (h : ∀ request, ¬ Asks J req request) (size : ℕ) :
    parseRange J req size = .ok none := by
  rw [parseRange]
  rcases htext : header J req "range".toList with _ | _ | ⟨c, text⟩
  · rfl
  · rfl
  · dsimp only
    cases hparts : rangeParts (Text.trim (c :: text)) with
    | none => rfl
    | some parts =>
      obtain ⟨startPart, endPart⟩ := parts
      obtain ⟨htrim, hdigits⟩ := rangeParts_iff.mp hparts
      have hno : ∀ request : ByteRequest, ¬ request.WrittenAs startPart endPart := fun request hwritten =>
        h request ⟨_, startPart, endPart, htext, htrim, hwritten⟩
      dsimp only
      by_cases hstart : startPart = []
      · by_cases hend : endPart = []
        · rw [if_pos ⟨hstart, hend⟩]
        · exact absurd ⟨hdigits, hstart, hend, rfl⟩ (hno (.suffix (decimal endPart)))
      · by_cases hend : endPart = []
        · exact absurd ⟨hdigits, hstart, hend, rfl⟩ (hno (.«from» (decimal startPart)))
        · exact absurd ⟨hdigits, hstart, hend, rfl, rfl⟩
            (hno (.firstLast (decimal startPart) (decimal endPart)))

/-- **What a part copy reads is there.** -/
theorem copySourceRange_bounds {size : ℕ} {range : ResolvedRange}
    (h : copySourceRange J req size = .ok (some range)) : Within size range := by
  rw [copySourceRange] at h
  generalize header J req "x-amz-copy-source-range".toList = value at h
  rcases value with _ | _ | ⟨c, text⟩
  · cases h
  · cases h
  · dsimp only at h
    cases hparts : rangeParts (Text.trim (c :: text)) with
    | none =>
      rw [hparts] at h
      cases h
    | some parts =>
      rw [hparts] at h
      dsimp only at h
      split_ifs at h with hempty hrange
      cases h
      rw [not_or] at hrange
      show 0 ≤ (decimal parts.1 : ℤ) ∧ (decimal parts.1 : ℤ) ≤ min (decimal parts.2 : ℤ) (size - 1) ∧
        min (decimal parts.2 : ℤ) (size - 1) < size
      omega

/-- A request that is resolved: what it is resolved to, and where. -/
theorem resolved_of_asks {request : ByteRequest} (h : Asks J req request) {size : ℕ}
    {range : ResolvedRange} (hrange : parseRange J req size = .ok (some range)) :
    (∀ i : ℕ, (range.start ≤ i ∧ i ≤ range.end ↔ request.Selects size i)) ∧
      (Within size range ↔ ¬ (size = 0 ∧ ∃ count, 0 < count ∧ request = .suffix count)) := by
  rw [parseRange_of_asks h] at hrange
  cases request with
  | firstLast first last =>
    dsimp only at hrange
    split_ifs at hrange with hbad
    cases hrange
    refine ⟨fun i => ?_, iff_of_true ?_ (by rintro ⟨-, _, -, ⟨⟩⟩)⟩
    · show (first : ℤ) ≤ i ∧ (i : ℤ) ≤ min (last : ℤ) (size - 1) ↔ i < size ∧ first ≤ i ∧ i ≤ last
      omega
    · show 0 ≤ (first : ℤ) ∧ (first : ℤ) ≤ min (last : ℤ) (size - 1) ∧ min (last : ℤ) (size - 1) < size
      omega
  | «from» first =>
    dsimp only at hrange
    split_ifs at hrange with hbad
    cases hrange
    refine ⟨fun i => ?_, iff_of_true ?_ (by rintro ⟨-, _, -, ⟨⟩⟩)⟩
    · show (first : ℤ) ≤ i ∧ (i : ℤ) ≤ size - 1 ↔ i < size ∧ first ≤ i
      omega
    · show 0 ≤ (first : ℤ) ∧ (first : ℤ) ≤ size - 1 ∧ (size : ℤ) - 1 < size
      omega
  | suffix count =>
    dsimp only at hrange
    split_ifs at hrange with hzero
    cases hrange
    refine ⟨fun i => ?_, ?_⟩
    · show max ((size : ℤ) - count) 0 ≤ i ∧ (i : ℤ) ≤ size - 1 ↔ i < size ∧ size ≤ i + count
      omega
    · show 0 ≤ max ((size : ℤ) - count) 0 ∧ max ((size : ℤ) - count) 0 ≤ size - 1 ∧ (size : ℤ) - 1 < size ↔ _
      constructor
      · rintro hwithin ⟨rfl, -⟩
        omega
      · intro hsize
        have hpos : size ≠ 0 := fun hnil => hsize ⟨hnil, count, by omega, rfl⟩
        omega

/-- **When a header is resolved to what it asks for**: unless it asks for the last bytes of an
empty object, which come out as the bytes from 0 to -1. -/
theorem range_resolves_iff (J : Strings) (req : Request) (size : ℕ) :
    Resolves J req size ↔ ¬ (size = 0 ∧ ∃ count, 0 < count ∧ Asks J req (.suffix count)) := by
  have hasks : ∀ {range : ResolvedRange}, parseRange J req size = .ok (some range) →
      ∃ request, Asks J req request := by
    intro range hrange
    by_contra hno
    rw [parseRange_of_not_asks (not_exists.mp hno)] at hrange
    cases hrange
  constructor
  · rintro h ⟨rfl, count, hcount, hsuffix⟩
    have hrange : parseRange J req 0 = .ok (some ⟨max (((0 : ℕ) : ℤ) - count) 0, ((0 : ℕ) : ℤ) - 1⟩) := by
      rw [parseRange_of_asks hsuffix]
      dsimp only
      rw [if_neg (by omega)]
    exact ((resolved_of_asks hsuffix hrange).2.mp (h.within _ hrange)) ⟨rfl, count, hcount, rfl⟩
  · intro h
    refine ⟨fun range hrange => ?_, fun e he => ?_, fun range hrange => ?_, fun request hrequest hordered hnone => ?_,
      fun range => copySourceRange_bounds⟩
    · obtain ⟨request, hrequest⟩ := hasks hrange
      refine (resolved_of_asks hrequest hrange).2.mpr ?_
      rintro ⟨hsize, count, hcount, rfl⟩
      exact h ⟨hsize, count, hcount, hrequest⟩
    · by_cases hno : ∀ request, ¬ Asks J req request
      · rw [parseRange_of_not_asks hno] at he
        cases he
      · obtain ⟨request, hrequest⟩ := not_forall_not.mp hno
        rw [parseRange_of_asks hrequest] at he
        cases request <;> dsimp only at he <;> split_ifs at he <;> cases he <;> rfl
    · obtain ⟨request, hrequest⟩ := hasks hrange
      exact ⟨request, hrequest, (resolved_of_asks hrequest hrange).1⟩
    · rw [parseRange_of_asks hrequest]
      cases request with
      | firstLast first last =>
        dsimp only
        refine if_pos ?_
        have hfirst := hnone first
        have hle : first ≤ last := hordered
        rw [ByteRequest.Selects] at hfirst
        omega
      | «from» first =>
        dsimp only
        refine if_pos ?_
        have hfirst := hnone first
        rw [ByteRequest.Selects] at hfirst
        omega
      | suffix count =>
        dsimp only
        refine if_pos ?_
        by_contra hcount
        -- Of an object that is not empty the last byte is asked for.
        have hsize : size ≠ 0 := fun hsize => h ⟨hsize, count, by omega, hrequest⟩
        have hlast := hnone (size - 1)
        rw [ByteRequest.Selects] at hlast
        omega

/-- The last ten bytes of an object. -/
def lastTen : Request where
  method := "GET".toList
  originalUrl := "/docs/plan.txt".toList
  headers := [("range".toList, .one "bytes=-10".toList)]

/-- An empty object has no last bytes, but the request for them is not refused. -/
theorem empty_object_resolved : ¬ Resolves Strings.ascii lastTen 0 := by
  intro h
  have hrange : parseRange Strings.ascii lastTen 0 = .ok (some ⟨0, -1⟩) := by decide +kernel
  exact absurd (h.within _ hrange).2.1 (by decide)

end S3RequestService
end SimpleStorage
