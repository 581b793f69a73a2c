import Mathlib.Tactic.Ring
import SimpleStorage.S3.S3SignatureService

/-!
# Dates in signatures

A signature carries the second it was made in.  `parseAmzDate_toAmzDate` says that the
text the service writes is read as that second again, for every time from the year 100 to
the year 9999: a year before that is taken for one of the twentieth century, and a year
after that has more than four digits.
-/

namespace SimpleStorage
namespace S3SignatureService

/-! ## Digits -/

theorem length_padded (n value : ℕ) : (padded n value).length = n := by
  induction n generalizing value with
  | zero => rfl
  | succ n ih =>
    unfold padded
    rw [List.length_append, ih, List.length_singleton]

theorem isDigit_padded (n value : ℕ) : (padded n value).all Char.isDigit = true := by
  have hdigit : ∀ d < 10, (Nat.digitChar d).isDigit = true := by decide
  induction n generalizing value with
  | zero => rfl
  | succ n ih =>
    unfold padded
    rw [List.all_append, ih, List.all_cons, hdigit _ (Nat.mod_lt _ (by omega))]
    rfl

/-- **Digits that are written are read back.** -/
theorem digits_padded {n value : ℕ} (h : value < 10 ^ n) : digits (padded n value) = value := by
  have hvalue : ∀ d < 10, (Nat.digitChar d).toNat - '0'.toNat = d := by decide
  induction n generalizing value with
  | zero =>
    rw [pow_zero, Nat.lt_one_iff] at h
    subst h
    rfl
  | succ n ih =>
    have hrest : digits (padded n (value / 10)) = value / 10 := ih (by rw [pow_succ] at h; omega)
    unfold digits at hrest ⊢
    unfold padded
    rw [List.foldl_append, hrest, List.foldl_cons, List.foldl_nil, hvalue _ (Nat.mod_lt _ (by omega))]
    omega

/-! ## Days -/

/-- The year of a day in its era of 400 years, and the day in that year. -/
theorem yearOfEra_bounds {day year : ℤ} (h : 0 ≤ day) (h' : day < 146097)
    (hyear : year = (day - day / 1460 + day / 36524 - day / 146096) / 365) :
    0 ≤ year ∧ year ≤ 399 ∧ 0 ≤ day - (365 * year + year / 4 - year / 100) ∧
      day - (365 * year + year / 4 - year / 100) ≤ 365 := by
  have h0 : 0 ≤ year := by omega
  have h399 : year ≤ 399 := by omega
  refine ⟨h0, h399, ?_⟩
  -- The century decides which leap days the year has behind it.
  obtain hcentury | hcentury | hcentury | hcentury | hcentury :
      day / 36524 = 0 ∨ day / 36524 = 1 ∨ day / 36524 = 2 ∨ day / 36524 = 3 ∨
        day / 36524 = 4 := by omega
  all_goals
    rw [hcentury] at hyear
    obtain hg | hg | hg | hg :
        year / 100 = 0 ∨ year / 100 = 1 ∨ year / 100 = 2 ∨ year / 100 = 3 := by omega
    all_goals
      rw [hg]
      omega

/-- The parts of a date: the era, the year in it, the day in the year and the month.
Years and months are counted from March on. -/
theorem civilFromDays_eq (days : ℤ) : ∃ era year day month : ℤ,
    0 ≤ year ∧ year ≤ 399 ∧ 0 ≤ month ∧ month ≤ 11 ∧
    (153 * month + 2) / 5 ≤ day ∧ day ≤ (153 * month + 2) / 5 + 30 ∧ day ≤ 365 ∧
    days + 719468 = 146097 * era + (365 * year + year / 4 - year / 100) + day ∧
    civilFromDays days =
      (year + era * 400 + (if month < 10 then 0 else 1),
        if month < 10 then month + 3 else month - 9, day - (153 * month + 2) / 5 + 1) := by
  have hera : 0 ≤ (days + 719468) % 146097 := by omega
  obtain ⟨h0, h399, hday, hday'⟩ := yearOfEra_bounds hera (by omega) rfl
  unfold civilFromDays
  dsimp only
  generalize hyear : ((days + 719468) % 146097 - (days + 719468) % 146097 / 1460 +
    (days + 719468) % 146097 / 36524 - (days + 719468) % 146097 / 146096) / 365 = year at *
  generalize hdayOfYear : (days + 719468) % 146097 - (365 * year + year / 4 - year / 100) = day
    at *
  have hmonth : (if (if (5 * day + 2) / 153 < 10 then (5 * day + 2) / 153 + 3
      else (5 * day + 2) / 153 - 9) ≤ 2 then (1 : ℤ) else 0) =
      if (5 * day + 2) / 153 < 10 then 0 else 1 := by
    split_ifs <;> omega
  rw [hmonth]
  exact ⟨_, year, day, (5 * day + 2) / 153, h0, h399, by omega, by omega, by omega, by omega,
    hday', by omega, rfl⟩

/-- The day of a date whose month is counted from March on. -/
theorem dateUTC_eq {year month : ℤ} (hyear : 100 ≤ year + if month < 10 then 0 else 1)
    (h : 0 ≤ month) (h' : month ≤ 11)
    (day hours minutes seconds : ℤ) :
    dateUTC (year + (if month < 10 then 0 else 1)) ((if month < 10 then month + 3 else month - 9) - 1)
        day hours minutes seconds =
      (((((365 * year + year / 4 - year / 100 + year / 400 + (153 * month + 2) / 5 - 719468 +
        (day - 1)) * 24 + hours) * 60 + minutes) * 60 + seconds) * 1000) := by
  unfold dateUTC
  dsimp only
  by_cases hten : month < 10
  · rw [if_pos hten] at hyear
    rw [if_pos hten, if_pos hten, if_neg (by omega), if_neg (by omega),
      show (month + 3 - 1) / 12 = 0 by omega, show ((month + 3 - 1) % 12 + 10) % 12 = month by omega,
      add_zero, add_zero]
  · rw [if_neg hten] at hyear
    have hcentury : ¬ (0 ≤ year + 1 ∧ year + 1 ≤ 99) := by omega
    rw [if_neg hten, if_neg hten, if_neg hcentury, if_pos (by omega),
      show (month - 9 - 1) / 12 = 0 by omega, show ((month - 9 - 1) % 12 + 10) % 12 = month by omega,
      add_zero, add_sub_cancel_right]

/-- **A date stands for its day.** -/
theorem dateUTC_civilFromDays {days : ℤ} (h : -683003 ≤ days) (h' : days < 2932897) :
    ∃ year month day : ℤ, civilFromDays days = (year, month, day) ∧
      100 ≤ year ∧ year ≤ 9999 ∧ 1 ≤ month ∧ month ≤ 12 ∧ 1 ≤ day ∧ day ≤ 31 ∧
      ∀ hours minutes seconds, dateUTC year (month - 1) day hours minutes seconds =
        (((days * 24 + hours) * 60 + minutes) * 60 + seconds) * 1000 := by
  obtain ⟨era, year, day, month, h0, h399, hmonth, hmonth', hday, hday', h365, hdays, heq⟩ :=
    civilFromDays_eq days
  have hera : 0 ≤ era ∧ era ≤ 24 := by omega
  have hfrom : 100 ≤ year + era * 400 + if month < 10 then 0 else 1 := by split_ifs <;> omega
  refine ⟨_, _, _, heq, hfrom, ?_, ?_, ?_, by omega, by omega, ?_⟩
  · split_ifs <;> omega
  · split_ifs <;> omega
  · split_ifs <;> omega
  · intro hours minutes seconds
    rw [dateUTC_eq hfrom hmonth hmonth']
    have hday : 365 * (year + era * 400) + (year + era * 400) / 4 - (year + era * 400) / 100 +
        (year + era * 400) / 400 + (153 * month + 2) / 5 - 719468 +
        (day - (153 * month + 2) / 5 + 1 - 1) = days := by
      have h4 : (year + era * 400) / 4 = year / 4 + era * 100 := by omega
      have h100 : (year + era * 400) / 100 = year / 100 + era * 4 := by omega
      have h400 : (year + era * 400) / 400 = era := by omega
      rw [h4, h100, h400]
      omega
    rw [hday]

/-! ## The date of a signature -/

theorem toAmzDate_ne_nil (time : ℤ) : toAmzDate time ≠ [] := by
  unfold toAmzDate
  exact List.append_ne_nil_of_right_ne_nil _ (List.cons_ne_nil _ _)

/-- The characters of a date. -/
theorem mem_toAmzDate {time : ℤ} {c : Char} (h : c ∈ toAmzDate time) :
    c.isDigit = true ∨ c ∈ ['+', 'T', 'Z'] := by
  have hpadded : ∀ {n value}, c ∈ padded n value → c.isDigit = true := fun hc =>
    List.all_eq_true.mp (isDigit_padded _ _) c hc
  have hyear : ∀ {year}, c ∈ yearText year → c.isDigit = true ∨ c = '+' := by
    intro year hc
    unfold yearText at hc
    split_ifs at hc
    · exact .inl (hpadded hc)
    · exact .inl (hpadded hc)
    · rcases List.mem_cons.mp hc with hc | hc
      · exact .inr hc
      · exact .inl (hpadded hc)
  unfold toAmzDate at h
  simp only [List.mem_append, List.mem_cons, List.not_mem_nil, or_false] at h ⊢
  rcases h with (((h | h) | h) | h | (h | h) | h) | h
  · rcases hyear h with h | h
    · exact .inl h
    · exact .inr (.inl h)
  · exact .inl (hpadded h)
  · exact .inl (hpadded h)
  · exact .inr (.inr (.inl h))
  · exact .inl (hpadded h)
  · exact .inl (hpadded h)
  · exact .inl (hpadded h)
  · exact .inr (.inr (.inr h))

/-- The pieces of a date. -/
theorem parseAmzDate_append (D : Numbers) {year month day hours minutes seconds : Text}
    (hyear : year.length = 4) (hmonth : month.length = 2) (hday : day.length = 2)
    (hhours : hours.length = 2) (hminutes : minutes.length = 2) (hseconds : seconds.length = 2)
    (hdate : (year ++ (month ++ day)).all Char.isDigit)
    (htime : (hours ++ (minutes ++ seconds)).all Char.isDigit) :
    parseAmzDate D (year ++ (month ++ (day ++ (['T'] ++ (hours ++ (minutes ++ (seconds ++
        ['Z']))))))) =
      .ok (dateUTC (digits year) (digits month - 1) (digits day) (digits hours) (digits minutes)
        (digits seconds)) := by
  obtain ⟨y₀, y₁, y₂, y₃, rfl⟩ := List.length_eq_four.mp hyear
  obtain ⟨m₀, m₁, rfl⟩ := List.length_eq_two.mp hmonth
  obtain ⟨d₀, d₁, rfl⟩ := List.length_eq_two.mp hday
  obtain ⟨h₀, h₁, rfl⟩ := List.length_eq_two.mp hhours
  obtain ⟨n₀, n₁, rfl⟩ := List.length_eq_two.mp hminutes
  obtain ⟨s₀, s₁, rfl⟩ := List.length_eq_two.mp hseconds
  unfold parseAmzDate
  exact if_pos ⟨rfl, hdate, rfl, htime, rfl⟩

/-- **The second a signature was made in is read back.** -/
theorem parseAmzDate_toAmzDate (D : Numbers) {time : ℤ} (h : -59011459200000 ≤ time)
    (h' : time < 253402300800000) :
    parseAmzDate D (toAmzDate time) = .ok (time / 1000 * 1000) := by
  obtain ⟨year, month, day, heq, hyear, hyear', hmonth, hmonth', hday, hday', hdate⟩ :=
    dateUTC_civilFromDays (show -683003 ≤ time / 1000 / 86400 by omega) (by omega)
  have hpieces : toAmzDate time = padded 4 year.toNat ++ (padded 2 month.toNat ++
      (padded 2 day.toNat ++ (['T'] ++ (padded 2 (time / 1000 / 3600 % 24).toNat ++
        (padded 2 (time / 1000 / 60 % 60).toNat ++ (padded 2 (time / 1000 % 60).toNat ++
          ['Z'])))))) := by
    unfold toAmzDate
    dsimp only
    rw [heq]
    dsimp only
    unfold yearText
    rw [if_pos (by omega)]
    simp only [List.append_assoc, List.cons_append, List.nil_append]
  rw [hpieces, parseAmzDate_append D (length_padded _ _) (length_padded _ _) (length_padded _ _)
    (length_padded _ _) (length_padded _ _) (length_padded _ _) ?_ ?_]
  · rw [digits_padded (by omega), digits_padded (by omega), digits_padded (by omega),
      digits_padded (by omega), digits_padded (by omega), digits_padded (by omega),
      Int.toNat_of_nonneg (by omega), Int.toNat_of_nonneg (by omega),
      Int.toNat_of_nonneg (by omega), Int.toNat_of_nonneg (by omega),
      Int.toNat_of_nonneg (by omega), Int.toNat_of_nonneg (by omega), hdate]
    congr 1
    omega
  · rw [List.all_append, List.all_append, isDigit_padded, isDigit_padded, isDigit_padded]
    rfl
  · rw [List.all_append, List.all_append, isDigit_padded, isDigit_padded, isDigit_padded]
    rfl

end S3SignatureService
end SimpleStorage
