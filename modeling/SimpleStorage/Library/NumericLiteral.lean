import Mathlib.Algebra.Order.Floor.Semiring
import Mathlib.Algebra.Order.Round
import Mathlib.Data.Int.Log
import Mathlib.Data.List.TakeWhile
import Mathlib.Data.Rat.Floor
import Mathlib.Tactic.Linarith
import Mathlib.Tactic.NormNum
import Mathlib.Tactic.Positivity
import SimpleStorage.Library.Codec

/-!
# Texts as numbers

What a text stands for when it is converted to a number of double precision: a decimal literal
with a sign, a point and an exponent, or an integer in base 2, 8 or 16.  Nothing at all stands
for zero.

* `literal`: the exact value; `none` for what is no number, or is not finite.
* `toDouble`: the nearest number with 53 binary digits, of two the one with the even last digit.
* `toDouble_natCast`, `natCast_le_of_toDouble`: a natural number that fits is kept, and rounding
  does not bring a larger one down to it.
* `value_digits`: decimal digits stand for the number they write.
-/

namespace SimpleStorage
namespace NumericLiteral

/-! ## Reading -/

/-- A natural number in some base, not empty. -/
def natural (base : ℕ) (digits : List Char) : Option ℕ :=
  if digits ≠ [] ∧ digits.all (fun c => (Codec.hexValue c).any (· < base)) then
    some (digits.foldl (fun n c => base * n + (Codec.hexValue c).getD 0) 0)
  else none

/-- A sign before what is read. -/
def signed {α : Type*} [Neg α] (read : List Char → Option α) : List Char → Option α
  | '-' :: rest => (read rest).map (-·)
  | '+' :: rest => read rest
  | s => read s

/-- Digits with a point among them, or before or behind them. -/
def mantissa (s : List Char) : Option ℚ :=
  let whole := s.takeWhile (· ≠ '.')
  let fraction := (s.dropWhile (· ≠ '.')).tail
  (natural 10 (whole ++ fraction)).map fun n : ℕ => (n : ℚ) / 10 ^ fraction.length

/-- A mantissa, and an exponent behind an `e`. -/
def unsigned (s : List Char) : Option ℚ :=
  let isE (c : Char) : Bool := c = 'e' || c = 'E'
  match s.dropWhile (!isE ·) with
  | [] => mantissa s
  | _ :: exponent =>
      match mantissa (s.takeWhile (!isE ·)), signed (fun d => (natural 10 d).map Int.ofNat) exponent with
      | some m, some e => some (m * 10 ^ e)
      | _, _ => none

/-- What the text stands for, exactly. -/
def literal : List Char → Option ℚ
  | [] => some 0
  | '0' :: 'x' :: rest | '0' :: 'X' :: rest => (natural 16 rest).map fun n : ℕ => (n : ℚ)
  | '0' :: 'o' :: rest | '0' :: 'O' :: rest => (natural 8 rest).map fun n : ℕ => (n : ℚ)
  | '0' :: 'b' :: rest | '0' :: 'B' :: rest => (natural 2 rest).map fun n : ℕ => (n : ℚ)
  | s => signed unsigned s

/-! ## Rounding -/

/-- The nearest integer, of two the even one. -/
def halfEven (x : ℚ) : ℤ :=
  if x - ⌊x⌋ < 1 / 2 ∨ (x - ⌊x⌋ = 1 / 2 ∧ Even ⌊x⌋) then ⌊x⌋ else ⌊x⌋ + 1

/-- The weight of the last binary digit of a number of double precision. -/
def ulp (q : ℚ) : ℚ := 2 ^ max (Int.log 2 |q| - 52) (-1074)

/-- The nearest number of double precision, unless it is infinite. -/
def toDouble (q : ℚ) : Option ℚ :=
  if q = 0 then some 0
  else
    let rounded := halfEven (q / ulp q) * ulp q
    if |rounded| < 2 ^ 1024 then some rounded else none

/-- **What a text is converted to.** -/
def value (s : List Char) : Option ℚ := (literal s).bind toDouble

/-! ## Rounding keeps what fits -/

theorem halfEven_intCast (n : ℤ) : halfEven n = n := by
  rw [halfEven, Int.floor_intCast, if_pos]
  left
  norm_num

theorem le_halfEven {n : ℤ} {x : ℚ} (h : (n : ℚ) ≤ x) : n ≤ halfEven x := by
  have hfloor : n ≤ ⌊x⌋ := Int.le_floor.mpr h
  rw [halfEven]
  split_ifs
  · exact hfloor
  · omega

theorem ulp_pos (q : ℚ) : 0 < ulp q := zpow_pos (by norm_num) _

/-- The last digit of a natural number that has others before it. -/
theorem ulp_natCast (n : ℕ) : ulp n = 2 ^ ((Nat.log 2 n : ℤ) - 52) := by
  have hlog : Int.log 2 |(n : ℚ)| = Nat.log 2 n := by
    rw [Nat.abs_cast, Int.log_natCast]
  rw [ulp, hlog, max_eq_left (by omega)]

/-- **A natural number of at most 53 binary digits is a number of double precision.** -/
theorem toDouble_natCast {n : ℕ} (h : n < 2 ^ 53) : toDouble n = some (n : ℚ) := by
  rcases Nat.eq_zero_or_pos n with rfl | hpos
  · rfl
  have hlog : Nat.log 2 n < 53 := Nat.log_lt_of_lt_pow (by omega) h
  obtain ⟨k, hk⟩ : ∃ k : ℕ, Nat.log 2 n + k = 52 := ⟨52 - Nat.log 2 n, by omega⟩
  have hulp : ulp n = (2 ^ k)⁻¹ := by
    rw [ulp_natCast, ← zpow_natCast, ← zpow_neg]
    congr 1
    omega
  have hscaled : (n : ℚ) / ulp n = ((n * 2 ^ k : ℕ) : ℤ) := by
    rw [hulp, div_inv_eq_mul]
    push_cast
    rfl
  have hround : (halfEven ((n : ℚ) / ulp n) : ℚ) * ulp n = n := by
    rw [hscaled, halfEven_intCast, ← hscaled, div_mul_cancel₀ _ (ulp_pos _).ne']
  have hbound : |(n : ℚ)| < 2 ^ 1024 := by
    rw [Nat.abs_cast]
    exact_mod_cast h.trans (Nat.pow_lt_pow_right (by norm_num) (by norm_num))
  rw [toDouble, if_neg (by exact_mod_cast hpos.ne')]
  dsimp only
  rw [hround, if_pos hbound]

/-- **A larger number is not brought down.** -/
theorem natCast_le_of_toDouble {n m : ℕ} (hm : m < 2 ^ 52) (h : m ≤ n) {r : ℚ}
    (hr : toDouble n = some r) : (m : ℚ) ≤ r := by
  by_cases hn : n < 2 ^ 53
  · rw [toDouble_natCast hn, Option.some.injEq] at hr
    rw [← hr]
    exact_mod_cast h
  have hpos : 0 < n := by
    have htwo : 0 < 2 ^ 53 := by norm_num
    omega
  -- All 53 digits of the result are before the point, and there is one more behind them.
  have hlog : 53 ≤ Nat.log 2 n := Nat.le_log_of_pow_le (by norm_num) (Nat.not_lt.mp hn)
  obtain ⟨k, hk⟩ : ∃ k : ℕ, Nat.log 2 n = k + 52 := ⟨Nat.log 2 n - 52, by omega⟩
  have hulp : ulp n = 2 ^ k := by
    rw [ulp_natCast, ← zpow_natCast]
    congr 1
    omega
  have hscaled : ((2 ^ 52 : ℤ) : ℚ) ≤ (n : ℚ) / ulp n := by
    have hle : 2 ^ 52 * 2 ^ k ≤ n := by
      rw [← pow_add, Nat.add_comm, ← hk]
      exact Nat.pow_log_le_self 2 hpos.ne'
    rw [hulp, le_div_iff₀ (by positivity)]
    exact_mod_cast hle
  have hdigits : ((2 ^ 52 : ℤ) : ℚ) ≤ halfEven ((n : ℚ) / ulp n) := by
    exact_mod_cast le_halfEven hscaled
  have hone : 1 ≤ ulp n := by
    rw [hulp]
    exact one_le_pow₀ (by norm_num)
  rw [toDouble, if_neg (by exact_mod_cast hpos.ne')] at hr
  dsimp only at hr
  split_ifs at hr
  rw [Option.some.injEq] at hr
  calc (m : ℚ) ≤ ((2 ^ 52 : ℤ) : ℚ) := by exact_mod_cast hm.le
    _ ≤ halfEven ((n : ℚ) / ulp n) := hdigits
    _ ≤ halfEven ((n : ℚ) / ulp n) * ulp n :=
      le_mul_of_one_le_right (le_trans (by norm_num) hdigits) hone
    _ = r := hr

/-! ## Decimal digits -/

/-- What decimal digits write. -/
def decimal (digits : List Char) : ℕ := digits.foldl (fun n c => 10 * n + (c.toNat - '0'.toNat)) 0

theorem hexValue_of_isDigit {c : Char} (h : c.isDigit = true) :
    Codec.hexValue c = some (c.toNat - '0'.toNat) ∧ c.toNat - '0'.toNat < 10 := by
  rw [Char.isDigit, Bool.and_eq_true, decide_eq_true_iff, decide_eq_true_iff] at h
  have hlow : '0' ≤ c := h.1
  have hhigh : c ≤ '9' := h.2
  refine ⟨by rw [Codec.hexValue, if_pos ⟨hlow, hhigh⟩], ?_⟩
  have hnat : c.toNat ≤ '9'.toNat := h.2
  have hnine : '9'.toNat = '0'.toNat + 9 := rfl
  omega

theorem natural_digits {digits : List Char} (hne : digits ≠ [])
    (h : ∀ c ∈ digits, c.isDigit = true) : natural 10 digits = some (decimal digits) := by
  have hall : digits.all (fun c => (Codec.hexValue c).any (· < 10)) = true := by
    refine List.all_eq_true.mpr fun c hc => ?_
    obtain ⟨hvalue, hlt⟩ := hexValue_of_isDigit (h c hc)
    rw [hvalue]
    exact decide_eq_true hlt
  rw [natural, if_pos ⟨hne, hall⟩, decimal]
  congr 1
  refine List.foldl_ext _ _ _ fun n c hc => ?_
  rw [(hexValue_of_isDigit (h c hc)).1]
  rfl

/-- **Decimal digits are a literal** for the number they write. -/
theorem literal_digits {digits : List Char} (hne : digits ≠ [])
    (h : ∀ c ∈ digits, c.isDigit = true) : literal digits = some (decimal digits : ℚ) := by
  have hno : ∀ {c : Char}, c.isDigit = false → ∀ d ∈ digits, d ≠ c := by
    rintro c hc d hd rfl
    rw [h d hd] at hc
    cases hc
  have hmantissa : mantissa digits = some (decimal digits : ℚ) := by
    have hpoint : ∀ d ∈ digits, decide (d ≠ '.') = true := fun d hd =>
      decide_eq_true (hno (by decide) d hd)
    rw [mantissa, List.takeWhile_eq_self_iff.mpr hpoint, List.dropWhile_eq_nil_iff.mpr hpoint,
      List.tail_nil, List.append_nil, natural_digits hne h, Option.map_some, List.length_nil,
      pow_zero, div_one]
  have hunsigned : unsigned digits = some (decimal digits : ℚ) := by
    have hexponent : ∀ d ∈ digits, (!(decide (d = 'e') || decide (d = 'E'))) = true := by
      intro d hd
      rw [decide_eq_false (hno (by decide) d hd), decide_eq_false (hno (by decide) d hd)]
      rfl
    rw [unsigned]
    dsimp only
    rw [List.dropWhile_eq_nil_iff.mpr hexponent]
    exact hmantissa
  have hsigned : signed unsigned digits = some (decimal digits : ℚ) := by
    unfold signed
    split
    · exact absurd rfl (hno (c := '-') (by decide) '-' List.mem_cons_self)
    · exact absurd rfl (hno (c := '+') (by decide) '+' List.mem_cons_self)
    · exact hunsigned
  have hsecond : ∀ {c : Char} {rest : List Char}, c.isDigit = false → digits ≠ '0' :: c :: rest := by
    rintro c rest hc rfl
    exact hno hc c (List.mem_cons_of_mem _ List.mem_cons_self) rfl
  unfold literal
  split
  · exact absurd rfl hne
  · exact absurd rfl (hsecond (by decide))
  · exact absurd rfl (hsecond (by decide))
  · exact absurd rfl (hsecond (by decide))
  · exact absurd rfl (hsecond (by decide))
  · exact absurd rfl (hsecond (by decide))
  · exact absurd rfl (hsecond (by decide))
  · exact hsigned

/-- What decimal digits are converted to. -/
theorem value_digits {digits : List Char} (hne : digits ≠ [])
    (h : ∀ c ∈ digits, c.isDigit = true) : value digits = toDouble (decimal digits) := by
  rw [value, literal_digits hne h]
  rfl

end NumericLiteral
end SimpleStorage
