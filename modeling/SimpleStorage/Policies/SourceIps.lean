import SimpleStorage.Policies.PoliciesService

/-!
# Addresses and blocks of addresses

`ipMatches` reads a pattern as an IPv4 address and the length of a prefix, and compares that many
bits.

* `toIpv4Number_iff`, `masked_agree_iff`: addresses are read strictly, and the mask compares leading
  bits, at both ends of the range too.
* `ipMatches_iff`: what is compared.
* `ipMatches_exact_iff`: this is membership in the block, except that the length of the prefix is
  read by `Number`, which takes nothing at all for zero and has other ways to write an integer,
  and that what follows a second slash is dropped.
-/

namespace SimpleStorage
namespace PoliciesService

open NumericLiteral

/-! ## What is meant -/

def IsDecimal (s : Text) : Prop := s ≠ [] ∧ ∀ c ∈ s, c.isDigit = true

/-- A decimal number up to 255, of at most three digits. -/
structure IsOctet (s : Text) (n : ℕ) : Prop where
  digits : IsDecimal s
  short : s.length ≤ 3
  number : decimal s = n
  le : n ≤ 255

/-- A dotted quad, as a number of 32 bits. -/
def IsQuad (s : Text) (address : ℕ) : Prop :=
  ∃ a b c d k l m n, s = Text.join '.' [a, b, c, d] ∧
    IsOctet a k ∧ IsOctet b l ∧ IsOctet c m ∧ IsOctet d n ∧
    address = ((k * 256 + l) * 256 + m) * 256 + n

/-- A dotted quad, or one mapped into IPv6. -/
def IsAddress (s : Text) (address : ℕ) : Prop :=
  IsQuad s address ∨ ∃ mapped rest, s = mapped ++ rest ∧
    mapped.map Char.toLower = "::ffff:".toList ∧ IsQuad rest address

/-- The addresses agree on that many leading bits. -/
def Agree (length x y : ℕ) : Prop := x / 2 ^ (32 - length) = y / 2 ^ (32 - length)

/-- **The value is an address in the block** the pattern names. -/
def InBlock (pattern value : Text) : Prop :=
  ∃ network x y length, IsAddress network x ∧ IsAddress value y ∧ Agree length x y ∧
    (pattern = network ∧ length = 32 ∨ ∃ suffix, pattern = network ++ '/' :: suffix ∧
      IsDecimal suffix ∧ decimal suffix = length ∧ length ≤ 32)

/-! ## Addresses -/

theorem not_mem_of_isDecimal {s : Text} (h : IsDecimal s) {c : Char} (hc : c.isDigit = false) : c ∉ s := by
  intro hmem
  rw [h.2 c hmem] at hc
  cases hc

theorem octet_iff {s : Text} {b : UInt32} : octet s = some b ↔ IsOctet s b.toNat := by
  rw [octet, ← decimal]
  constructor
  · intro h
    split_ifs at h with hall
    obtain ⟨hpos, hshort, hdigits, hle⟩ := hall
    cases h
    have htoNat : (UInt32.ofNat (decimal s)).toNat = decimal s :=
      UInt32.toNat_ofNat_of_lt' (by show decimal s < 2 ^ 32; omega)
    rw [htoNat]
    exact ⟨⟨List.ne_nil_of_length_pos hpos, List.all_eq_true.mp hdigits⟩, hshort, rfl, hle⟩
  · intro h
    have hall : 1 ≤ s.length ∧ s.length ≤ 3 ∧ s.all Char.isDigit = true ∧ decimal s ≤ 255 :=
      ⟨List.length_pos_of_ne_nil h.digits.1, h.short, List.all_eq_true.mpr h.digits.2, by
        rw [h.number]
        exact h.le⟩
    rw [if_pos hall, h.number]
    exact congrArg some (UInt32.ofNat_toNat)

/-- Bytes put together by shifting are digits in base 256. -/
theorem shifted_bytes {a b c d : UInt32} (ha : a.toNat ≤ 255) (hb : b.toNat ≤ 255)
    (hc : c.toNat ≤ 255) (hd : d.toNat ≤ 255) :
    (a <<< 24 ||| b <<< 16 ||| c <<< 8 ||| d).toNat =
      ((a.toNat * 256 + b.toNat) * 256 + c.toNat) * 256 + d.toNat := by
  have hor : ∀ (x y i : ℕ), y < 2 ^ i → x * 2 ^ i ||| y = x * 2 ^ i + y := by
    intro x y i h
    rw [← Nat.shiftLeft_eq, Nat.shiftLeft_add_eq_or_of_lt h]
  have hshift : ∀ x : UInt32, x.toNat ≤ 255 → (x <<< 24).toNat = x.toNat * 2 ^ 24 ∧
      (x <<< 16).toNat = x.toNat * 2 ^ 16 ∧ (x <<< 8).toNat = x.toNat * 2 ^ 8 := by
    intro x hx
    refine ⟨?_, ?_, ?_⟩
    · rw [UInt32.toNat_shiftLeft, Nat.shiftLeft_eq]
      exact Nat.mod_eq_of_lt (by show x.toNat * 2 ^ 24 < 2 ^ 32; omega)
    · rw [UInt32.toNat_shiftLeft, Nat.shiftLeft_eq]
      exact Nat.mod_eq_of_lt (by show x.toNat * 2 ^ 16 < 2 ^ 32; omega)
    · rw [UInt32.toNat_shiftLeft, Nat.shiftLeft_eq]
      exact Nat.mod_eq_of_lt (by show x.toNat * 2 ^ 8 < 2 ^ 32; omega)
  have hfirst : a.toNat * 2 ^ 24 ||| b.toNat * 2 ^ 16 = (a.toNat * 256 + b.toNat) * 2 ^ 16 := by
    rw [hor _ _ _ (by omega)]
    omega
  have hsecond : (a.toNat * 256 + b.toNat) * 2 ^ 16 ||| c.toNat * 2 ^ 8 =
      ((a.toNat * 256 + b.toNat) * 256 + c.toNat) * 2 ^ 8 := by
    rw [hor _ _ _ (by omega)]
    omega
  rw [UInt32.toNat_or, UInt32.toNat_or, UInt32.toNat_or, (hshift a ha).1, (hshift b hb).2.1,
    (hshift c hc).2.2, hfirst, hsecond, hor _ _ _ (by omega)]
  omega

theorem split_quad {a b c d : Text} (ha : IsDecimal a) (hb : IsDecimal b) (hc : IsDecimal c)
    (hd : IsDecimal d) : Text.split '.' (Text.join '.' [a, b, c, d]) = [a, b, c, d] := by
  refine List.splitOn_intercalate '.' (fun s hs => ?_) (List.cons_ne_nil _ _)
  have hs' : s = a ∨ s = b ∨ s = c ∨ s = d := by simpa using hs
  rcases hs' with rfl | rfl | rfl | rfl
  · exact not_mem_of_isDecimal ha (by decide)
  · exact not_mem_of_isDecimal hb (by decide)
  · exact not_mem_of_isDecimal hc (by decide)
  · exact not_mem_of_isDecimal hd (by decide)

/-- The quad behind the prefix, if there is one. -/
theorem quad_iff {s : Text} {x : UInt32} :
    (match (Text.split '.' s).map octet with
      | [some a, some b, some c, some d] => some (a <<< 24 ||| b <<< 16 ||| c <<< 8 ||| d)
      | _ => none) = some x ↔ IsQuad s x.toNat := by
  constructor
  · intro h
    split at h
    · next a b c d hmap =>
      obtain ⟨a', _, hsplit, ha, hmap⟩ := List.map_eq_cons_iff.mp hmap
      obtain ⟨b', _, rfl, hb, hmap⟩ := List.map_eq_cons_iff.mp hmap
      obtain ⟨c', _, rfl, hc, hmap⟩ := List.map_eq_cons_iff.mp hmap
      obtain ⟨d', _, rfl, hd, hmap⟩ := List.map_eq_cons_iff.mp hmap
      rw [List.map_eq_nil_iff.mp hmap] at hsplit
      cases h
      rw [octet_iff] at ha hb hc hd
      exact ⟨a', b', c', d', _, _, _, _, by rw [← hsplit, Text.join_split], ha, hb, hc, hd,
        shifted_bytes ha.le hb.le hc.le hd.le⟩
    · cases h
  · rintro ⟨a, b, c, d, k, l, m, n, rfl, ha, hb, hc, hd, haddress⟩
    have hoctet : ∀ {s : Text} {n : ℕ}, IsOctet s n → octet s = some (UInt32.ofNat n) ∧
        (UInt32.ofNat n).toNat = n := by
      intro s n h
      have hle := h.le
      have htoNat : (UInt32.ofNat n).toNat = n := UInt32.toNat_ofNat_of_lt' (by show n < 2 ^ 32; omega)
      exact ⟨octet_iff.mpr (by rwa [htoNat]), htoNat⟩
    rw [split_quad ha.digits hb.digits hc.digits hd.digits]
    show (match [octet a, octet b, octet c, octet d] with
      | [some a, some b, some c, some d] => some (a <<< 24 ||| b <<< 16 ||| c <<< 8 ||| d)
      | _ => none) = some x
    rw [(hoctet ha).1, (hoctet hb).1, (hoctet hc).1, (hoctet hd).1]
    refine congrArg some (UInt32.toNat_inj.mp ?_)
    rw [shifted_bytes (by rw [(hoctet ha).2]; exact ha.le) (by rw [(hoctet hb).2]; exact hb.le)
      (by rw [(hoctet hc).2]; exact hc.le) (by rw [(hoctet hd).2]; exact hd.le), (hoctet ha).2,
      (hoctet hb).2, (hoctet hc).2, (hoctet hd).2, haddress]

/-- No capital letter is a colon in lower case. -/
theorem colon_of_toLower {c : Char} (h : c.toLower = ':') : c = ':' := by
  by_contra hne
  change (if h : c.val ≥ 'A'.val ∧ c.val ≤ 'Z'.val then _ else c) = ':' at h
  split_ifs at h with hupper
  · have hval : (c.val + 32).toNat = 58 := congrArg (fun d : Char => d.val.toNat) h
    have hlow : 65 ≤ c.val.toNat := hupper.1
    have hhigh : c.val.toNat ≤ 90 := hupper.2
    rw [UInt32.toNat_add] at hval
    have hthirtyTwo : (32 : UInt32).toNat = 32 := rfl
    omega
  · exact hne h

/-- A dotted quad has no colon and no slash. -/
theorem separators_not_mem_quad {s : Text} {x : ℕ} (h : IsQuad s x) : ':' ∉ s ∧ '/' ∉ s := by
  obtain ⟨a, b, c, d, k, l, m, n, rfl, ha, hb, hc, hd, -⟩ := h
  have hno : ∀ c' : Char, c'.isDigit = false → c' ≠ '.' → c' ∉ Text.join '.' [a, b, c, d] := by
    intro c' hdigit hdot hmem
    rcases Text.mem_of_mem_join hmem with h | ⟨s, hs, h⟩
    · exact hdot h
    · have hs' : s = a ∨ s = b ∨ s = c ∨ s = d := by simpa using hs
      rcases hs' with rfl | rfl | rfl | rfl
      · exact not_mem_of_isDecimal ha.digits hdigit h
      · exact not_mem_of_isDecimal hb.digits hdigit h
      · exact not_mem_of_isDecimal hc.digits hdigit h
      · exact not_mem_of_isDecimal hd.digits hdigit h
  exact ⟨hno ':' (by decide) (by decide), hno '/' (by decide) (by decide)⟩

/-- **Addresses are read strictly.** -/
theorem toIpv4Number_iff {s : Text} {x : UInt32} : toIpv4Number s = some x ↔ IsAddress s x.toNat := by
  have hquad : toIpv4Number s = some x ↔ IsQuad (stripMapped s) x.toNat := quad_iff
  rw [hquad, stripMapped, IsAddress]
  split_ifs with hmapped
  · constructor
    · intro h
      exact Or.inr ⟨s.take 7, s.drop 7, (List.take_append_drop 7 s).symm, hmapped, h⟩
    · rintro (h | ⟨mapped, rest, rfl, hlower, h⟩)
      · -- A quad has no colon, so nothing is stripped from it.
        have hcolon : ':' ∈ (s.take 7).map Char.toLower := by
          rw [hmapped]
          exact List.mem_cons_self
        obtain ⟨c, hc, hlower⟩ := List.mem_map.mp hcolon
        rw [colon_of_toLower hlower] at hc
        exact absurd (List.mem_of_mem_take hc) (separators_not_mem_quad h).1
      · have hlength : mapped.length = 7 := by
          rw [← List.length_map, hlower]
          rfl
        rwa [← hlength, List.drop_left]
  · constructor
    · exact Or.inl
    · rintro (h | ⟨mapped, rest, rfl, hlower, h⟩)
      · exact h
      · have hlength : mapped.length = 7 := by
          rw [← List.length_map, hlower]
          rfl
        rw [← hlength, List.take_left] at hmapped
        exact absurd hlower hmapped

theorem slash_not_mem_address {s : Text} {x : ℕ} (h : IsAddress s x) : '/' ∉ s := by
  rcases h with h | ⟨mapped, rest, rfl, hlower, h⟩
  · exact (separators_not_mem_quad h).2
  · intro hmem
    rcases List.mem_append.mp hmem with hmem | hmem
    · have hslash : '/' ∈ mapped.map Char.toLower := List.mem_map.mpr ⟨'/', hmem, rfl⟩
      rw [hlower] at hslash
      exact absurd hslash (by decide)
    · exact (separators_not_mem_quad h).2 hmem

/-- An address has 32 bits. -/
theorem IsAddress.lt {s : Text} {x : ℕ} (h : IsAddress s x) : x < 2 ^ 32 := by
  have hquad : ∀ {s : Text}, IsQuad s x → x < 2 ^ 32 := by
    rintro s ⟨a, b, c, d, k, l, m, n, -, ha, hb, hc, hd, rfl⟩
    have hk := ha.le
    have hl := hb.le
    have hm := hc.le
    have hn := hd.le
    omega
  rcases h with h | ⟨mapped, rest, -, -, h⟩
  · exact hquad h
  · exact hquad h

/-! ## Leading bits -/

/-- Bits from some place on, in their places. -/
theorem testBit_masked {x : ℕ} (hx : x < 2 ^ 32) (length i : ℕ) :
    (x &&& (0xffffffff <<< (32 - length)) % 2 ^ 32).testBit i =
      ((x / 2 ^ (32 - length)) * 2 ^ (32 - length)).testBit i := by
  have hones : (0xffffffff : ℕ) = 2 ^ 32 - 1 := rfl
  rw [Nat.testBit_and, Nat.testBit_mod_two_pow, hones, Nat.testBit_shiftLeft, Nat.testBit_two_pow_sub_one,
    ← Nat.shiftLeft_eq, Nat.testBit_shiftLeft, ← Nat.shiftRight_eq_div_pow, Nat.testBit_shiftRight]
  by_cases hi : i < 32
  · by_cases hplace : 32 - length ≤ i
    · have hsum : 32 - length + (i - (32 - length)) = i := by omega
      rw [hsum, decide_eq_true hi, decide_eq_true hplace, decide_eq_true (by omega : i - (32 - length) < 32)]
      exact Bool.and_comm _ _
    · rw [decide_eq_false hplace, Bool.false_and, Bool.and_false, Bool.and_false, Bool.false_and]
  · have hzero : ∀ j, 32 ≤ j → x.testBit j = false := fun j hj =>
      Nat.testBit_lt_two_pow (hx.trans_le (Nat.pow_le_pow_right (by omega) hj))
    rw [hzero i (by omega), Bool.false_and]
    by_cases hplace : 32 - length ≤ i
    · rw [hzero _ (by omega), Bool.and_false]
    · rw [decide_eq_false hplace, Bool.false_and]

/-- **The mask compares leading bits**, all of them and none of them too. -/
theorem masked_agree_iff {x y : UInt32} {length : ℕ} (h : length ≤ 32) :
    (length = 0 ∨ x &&& 0xffffffff <<< (32 - UInt32.ofNat length) =
        y &&& 0xffffffff <<< (32 - UInt32.ofNat length)) ↔ Agree length x.toNat y.toNat := by
  rcases Nat.eq_zero_or_pos length with rfl | hpos
  · refine iff_of_true (Or.inl rfl) ?_
    show x.toNat / 2 ^ 32 = y.toNat / 2 ^ 32
    rw [Nat.div_eq_of_lt x.toNat_lt, Nat.div_eq_of_lt y.toNat_lt]
  have hshift : (32 - UInt32.ofNat length).toNat % 32 = 32 - length := by
    have hlength : (UInt32.ofNat length).toNat = length :=
      UInt32.toNat_ofNat_of_lt' (by show length < 2 ^ 32; omega)
    have hle : UInt32.ofNat length ≤ 32 := UInt32.le_iff_toNat_le.mpr (by rw [hlength]; exact h)
    rw [UInt32.toNat_sub_of_le _ _ hle, hlength]
    show (32 - length) % 32 = 32 - length
    omega
  have hmasked : ∀ z : UInt32, (z &&& 0xffffffff <<< (32 - UInt32.ofNat length)).toNat =
      z.toNat / 2 ^ (32 - length) * 2 ^ (32 - length) := by
    intro z
    rw [UInt32.toNat_and, UInt32.toNat_shiftLeft, hshift]
    exact Nat.eq_of_testBit_eq (testBit_masked z.toNat_lt length)
  rw [or_iff_right hpos.ne', ← UInt32.toNat_inj, hmasked, hmasked, Agree]
  exact ⟨Nat.eq_of_mul_eq_mul_right (Nat.two_pow_pos _), fun heq => by rw [heq]⟩

/-! ## What is compared -/

/-- How the pattern is taken apart: an address, and a length that `Number` reads, up to the next
slash. -/
def TakenApart (pattern network : Text) (length : ℕ) : Prop :=
  pattern = network ∧ length = 32 ∨
    ∃ suffix rest : Text, pattern = network ++ '/' :: (suffix ++ rest) ∧ '/' ∉ suffix ∧
      (rest = [] ∨ ∃ more, rest = '/' :: more) ∧
      Text.number suffix = some (length : ℚ) ∧ length ≤ 32

/-- The two pieces of a pattern that are read. -/
theorem takenApart_iff {pattern network : Text} {length : ℕ} (h : '/' ∉ network) :
    TakenApart pattern network length ↔ (Text.split '/' pattern).headD [] = network ∧
      ((Text.split '/' pattern)[1]?).elim (some 32) Text.number = some (length : ℚ) ∧ length ≤ 32 := by
  constructor
  · rintro (⟨rfl, rfl⟩ | ⟨suffix, rest, rfl, hsuffix, hrest, hnumber, hle⟩)
    · rw [Text.split_of_not_mem h]
      exact ⟨rfl, rfl, le_rfl⟩
    · rw [Text.split_append_cons, Text.split_of_not_mem h]
      refine ⟨rfl, ?_, hle⟩
      rcases hrest with rfl | ⟨more, rfl⟩
      · rw [List.append_nil, Text.split_of_not_mem hsuffix]
        exact hnumber
      · rw [Text.split_append_cons, Text.split_of_not_mem hsuffix]
        exact hnumber
  · rintro ⟨rfl, hnumber, hle⟩
    have hjoin := Text.join_split '/' pattern
    have hpieces : ∀ piece ∈ Text.split '/' pattern, '/' ∉ piece := fun piece hpiece =>
      Text.sep_not_mem_of_mem_split hpiece
    rcases hsplit : Text.split '/' pattern with _ | ⟨network, _ | ⟨suffix, rest⟩⟩
    · exact absurd hsplit (Text.split_ne_nil _ _)
    · rw [hsplit] at hjoin hnumber
      refine Or.inl ⟨?_, ?_⟩
      · rw [← hjoin]
        exact List.intercalate_singleton
      · have hthirtyTwo : (32 : ℚ) = length := Option.some.inj hnumber
        exact_mod_cast hthirtyTwo.symm
    · rw [hsplit] at hjoin hnumber hpieces
      have hsuffix := hpieces suffix (List.mem_cons_of_mem _ List.mem_cons_self)
      rw [Text.join_cons (List.cons_ne_nil _ _)] at hjoin
      rcases rest with _ | ⟨next, rest⟩
      · refine Or.inr ⟨suffix, [], ?_, hsuffix, Or.inl rfl, hnumber, hle⟩
        rw [← hjoin, Text.join, List.intercalate_singleton, List.append_nil]
        rfl
      · refine Or.inr ⟨suffix, '/' :: Text.join '/' (next :: rest), ?_, hsuffix, Or.inr ⟨_, rfl⟩, hnumber, hle⟩
        rw [← hjoin, Text.join_cons (List.cons_ne_nil _ _)]
        rfl

variable {pattern value : Text}

/-- **What is compared.** -/
theorem ipMatches_iff : ipMatches pattern value = true ↔
    ∃ network x y length, IsAddress network x ∧ IsAddress value y ∧ Agree length x y ∧
      TakenApart pattern network length := by
  have hlengths : ∀ {bits : ℚ}, (bits.isInt && 0 ≤ bits && bits ≤ 32) = true →
      ∃ n : ℕ, bits = n ∧ n ≤ 32 := by
    intro bits h
    rw [Bool.and_eq_true, Bool.and_eq_true, decide_eq_true_iff, decide_eq_true_iff] at h
    obtain ⟨⟨hint, hpos⟩, hle⟩ := h
    have hnum : (bits.num : ℚ) = bits := Rat.den_eq_one_iff _ |>.mp (beq_iff_eq.mp hint)
    obtain ⟨n, hn⟩ := Int.eq_ofNat_of_zero_le (Rat.num_nonneg.mpr hpos)
    rw [hn] at hnum
    have hbits : bits = (n : ℚ) := by
      rw [← hnum]
      rfl
    refine ⟨n, hbits, ?_⟩
    rw [hbits] at hle
    exact_mod_cast hle
  have hcompare : ∀ {a b : UInt32} {n : ℕ}, n ≤ 32 →
      ((((n : ℚ) == 0) || a &&& 0xffffffff <<< (32 - UInt32.ofNat (n : ℚ).num.toNat) ==
        b &&& 0xffffffff <<< (32 - UInt32.ofNat (n : ℚ).num.toNat)) = true ↔
        Agree n a.toNat b.toNat) := by
    intro a b n hn
    rw [Bool.or_eq_true, beq_iff_eq, beq_iff_eq, Rat.num_natCast, Int.toNat_natCast, Nat.cast_eq_zero,
      masked_agree_iff hn]
  rw [ipMatches]
  dsimp only
  constructor
  · intro h
    cases hnetwork : toIpv4Number ((Text.split '/' pattern).headD []) with
    | none =>
      rw [hnetwork] at h
      cases h
    | some a =>
      cases hvalue : toIpv4Number value with
      | none =>
        rw [hnetwork, hvalue] at h
        cases h
      | some b =>
        rw [hnetwork, hvalue] at h
        dsimp only at h
        cases hbits : ((Text.split '/' pattern)[1]?).elim (some 32) Text.number with
        | none =>
          rw [hbits] at h
          cases h
        | some bits =>
          rw [hbits] at h
          dsimp only at h
          split_ifs at h with hrange
          obtain ⟨n, rfl, hn⟩ := hlengths hrange
          have haddress := toIpv4Number_iff.mp hnetwork
          exact ⟨_, a.toNat, b.toNat, n, haddress, toIpv4Number_iff.mp hvalue, (hcompare hn).mp h,
            (takenApart_iff (slash_not_mem_address haddress)).mpr ⟨rfl, hbits, hn⟩⟩
  · rintro ⟨network, x, y, n, hnetwork, hvalue, hagree, htaken⟩
    obtain ⟨rfl, hbits, hn⟩ := (takenApart_iff (slash_not_mem_address hnetwork)).mp htaken
    have hread : ∀ {s : Text} {z : ℕ}, IsAddress s z →
        toIpv4Number s = some (UInt32.ofNat z) ∧ (UInt32.ofNat z).toNat = z := by
      intro s z h
      have htoNat : (UInt32.ofNat z).toNat = z := UInt32.toNat_ofNat_of_lt' h.lt
      exact ⟨toIpv4Number_iff.mpr (by rwa [htoNat]), htoNat⟩
    have hrange : ((n : ℚ).isInt && decide (0 ≤ (n : ℚ)) && decide ((n : ℚ) ≤ 32)) = true := by
      rw [Bool.and_eq_true, Bool.and_eq_true, decide_eq_true_iff, decide_eq_true_iff]
      exact ⟨⟨beq_iff_eq.mpr (Rat.den_natCast n), Nat.cast_nonneg n⟩, by exact_mod_cast hn⟩
    rw [(hread hnetwork).1, (hread hvalue).1, hbits]
    dsimp only
    rw [if_pos hrange]
    refine (hcompare hn).mpr ?_
    rwa [(hread hnetwork).2, (hread hvalue).2]

/-! ## When this is membership in the block -/

theorem isSpace_of_isDigit {c : Char} (h : c.isDigit = true) : Text.isSpace c = false := by
  have hlow : 48 ≤ c.toNat := of_decide_eq_true (Bool.and_eq_true_iff.mp h).1
  have hhigh : c.toNat ≤ 57 := of_decide_eq_true (Bool.and_eq_true_iff.mp h).2
  exact Text.isSpace_of_visible (by omega) (by omega)

/-- Decimal digits are read as the number they write, if it is a length. -/
theorem number_of_isDecimal {suffix : Text} {n : ℕ} (h : IsDecimal suffix) (hn : n ≤ 32) :
    Text.number suffix = some (n : ℚ) ↔ decimal suffix = n := by
  have hspace : ∀ c ∈ suffix, Text.isSpace c = false := fun c hc => isSpace_of_isDigit (h.2 c hc)
  rw [Text.number, Text.trim_of_not_space hspace, value_digits h.1 h.2]
  constructor
  · intro hdouble
    have hlt : decimal suffix < 33 := by
      by_contra hge
      have hle := natCast_le_of_toDouble (by norm_num : 33 < 2 ^ 52) (Nat.not_lt.mp hge) hdouble
      have hle' : 33 ≤ n := by exact_mod_cast hle
      omega
    rw [toDouble_natCast (by omega)] at hdouble
    exact_mod_cast Option.some.inj hdouble
  · rintro rfl
    exact toDouble_natCast (by omega)

/-- The pattern has a length that is written in another way than as a decimal number, or has
something behind it, and is read nevertheless; and the addresses agree on so many bits. -/
def ReadLeniently (pattern value : Text) : Prop :=
  ∃ (network suffix rest : Text) (x y length : ℕ), pattern = network ++ '/' :: (suffix ++ rest) ∧
    IsAddress network x ∧ IsAddress value y ∧ '/' ∉ suffix ∧ (rest = [] ∨ ∃ more, rest = '/' :: more) ∧
    ¬ IsDecimal (suffix ++ rest) ∧ Text.number suffix = some (length : ℚ) ∧ length ≤ 32 ∧
    Agree length x y

/-- **When `ipMatches` is membership in the block**: the length, if there is one, is a decimal
number with nothing behind it, or is not read as an integer up to 32, or the addresses do not agree
on so many bits. -/
theorem ipMatches_exact_iff (pattern value : Text) :
    (ipMatches pattern value = true ↔ InBlock pattern value) ↔ ¬ ReadLeniently pattern value := by
  have hblock : InBlock pattern value → ipMatches pattern value = true := by
    rintro ⟨network, x, y, n, hnetwork, hvalue, hagree, htaken⟩
    refine ipMatches_iff.mpr ⟨network, x, y, n, hnetwork, hvalue, hagree, ?_⟩
    rcases htaken with htaken | ⟨suffix, rfl, hdecimal, hnumber, hn⟩
    · exact Or.inl htaken
    · refine Or.inr ⟨suffix, [], by rw [List.append_nil], not_mem_of_isDecimal hdecimal (by decide),
        Or.inl rfl, (number_of_isDecimal hdecimal hn).mpr hnumber, hn⟩
  constructor
  · rintro h ⟨network, suffix, rest, x, y, n, rfl, hnetwork, hvalue, hsuffix, hrest, hstray, hnumber, hn,
      hagree⟩
    obtain ⟨network', x', y', n', hnetwork', -, -, htaken⟩ := h.mp (ipMatches_iff.mpr
      ⟨network, x, y, n, hnetwork, hvalue, hagree, Or.inr ⟨suffix, rest, rfl, hsuffix, hrest, hnumber, hn⟩⟩)
    rcases htaken with ⟨rfl, -⟩ | ⟨suffix', heq, hdecimal, -, -⟩
    · exact slash_not_mem_address hnetwork' (List.mem_append_right _ List.mem_cons_self)
    · obtain ⟨-, hsame⟩ := Text.append_cons_inj (slash_not_mem_address hnetwork)
        (slash_not_mem_address hnetwork') heq
      exact hstray (hsame ▸ hdecimal)
  · intro h
    refine ⟨fun hmatches => ?_, hblock⟩
    obtain ⟨network, x, y, n, hnetwork, hvalue, hagree, htaken⟩ := ipMatches_iff.mp hmatches
    refine ⟨network, x, y, n, hnetwork, hvalue, hagree, ?_⟩
    rcases htaken with htaken | ⟨suffix, rest, hpattern, hsuffix, hrest, hnumber, hn⟩
    · exact Or.inl htaken
    · have hdecimal : IsDecimal (suffix ++ rest) := by
        by_contra hstray
        exact h ⟨network, suffix, rest, x, y, n, hpattern, hnetwork, hvalue, hsuffix, hrest, hstray,
          hnumber, hn, hagree⟩
      obtain rfl : rest = [] := by
        rcases hrest with rfl | ⟨more, rfl⟩
        · rfl
        · exact absurd (List.mem_append_right _ List.mem_cons_self)
            (not_mem_of_isDecimal hdecimal (c := '/') (by decide))
      rw [List.append_nil] at hpattern hdecimal
      exact Or.inr ⟨suffix, hpattern, hdecimal, (number_of_isDecimal hdecimal hn).mp hnumber, hn⟩

/-- A block whose length was left out has every address. -/
theorem empty_length_matches : ¬ (ipMatches "10.0.0.0/".toList "192.168.0.1".toList = true ↔
    InBlock "10.0.0.0/".toList "192.168.0.1".toList) := by
  intro h
  have hmatches : ipMatches "10.0.0.0/".toList "192.168.0.1".toList = true := by decide +kernel
  obtain ⟨network, x, y, n, hnetwork, -, -, htaken⟩ := h.mp hmatches
  have hpattern : "10.0.0.0/".toList = "10.0.0.0".toList ++ '/' :: [] := by decide
  rcases htaken with ⟨rfl, -⟩ | ⟨suffix, heq, hdecimal, -, -⟩
  · exact absurd (by decide) (slash_not_mem_address hnetwork)
  · rw [hpattern] at heq
    obtain ⟨-, rfl⟩ := Text.append_cons_inj (by decide) (slash_not_mem_address hnetwork) heq
    exact hdecimal.1 rfl

end PoliciesService
end SimpleStorage
