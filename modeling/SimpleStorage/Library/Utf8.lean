import Mathlib.Data.List.Lex
import Mathlib.Data.UInt
import Mathlib.Data.Char
import Mathlib.Tactic.IntervalCases

/-!
# UTF-8 as bytes

A text is a list of Unicode scalar values and its encoding a list of bytes.  Two
facts about the encoding are used, and they are the two that make it harmless to
reason about texts where a program compares or transports bytes.

* `encode_lt_encode_iff`: comparing the bytes of two texts is comparing the texts
  by code point.  Byte order is *not* an extra order to keep in mind.
* `decode_encode`: the decoder reads an encoding back.

The decoder is the one the encoding standard prescribes, with its replacement
character for ill-formed input: a pending sequence remembers how many bytes it
still wants and in which range the next one has to fall, and a byte outside that
range ends the sequence and is then read afresh.
-/

namespace SimpleStorage
namespace Utf8

/-! ## Encoding -/

/-- The bytes of a text. -/
def encode (s : List Char) : List UInt8 := s.flatMap String.utf8EncodeChar

@[simp] theorem encode_nil : encode [] = [] := rfl

@[simp] theorem encode_cons (c : Char) (s : List Char) :
    encode (c :: s) = String.utf8EncodeChar c ++ encode s := rfl

@[simp] theorem encode_append (s t : List Char) : encode (s ++ t) = encode s ++ encode t :=
  List.flatMap_append

/-- Every scalar value lies below the surrogates or above them. -/
theorem toNat_bounds (c : Char) :
    c.toNat < 0xD800 ∨ (0xDFFF < c.toNat ∧ c.toNat < 0x110000) := c.valid

/-- **The four shapes of an encoding.**  A scalar value is written by its digits in
base 64, the leading one carrying the length of the sequence. -/
theorem utf8EncodeChar_cases (c : Char) :
    (c.toNat < 0x80 ∧ String.utf8EncodeChar c = [UInt8.ofNat c.toNat]) ∨
    (∃ i j, 2 ≤ i ∧ i < 32 ∧ j < 64 ∧ c.toNat = 64 * i + j ∧
      String.utf8EncodeChar c = [UInt8.ofNat (i + 0xC0), UInt8.ofNat (j + 0x80)]) ∨
    (∃ i j k, i < 16 ∧ j < 64 ∧ k < 64 ∧ 0x800 ≤ c.toNat ∧
      c.toNat = 4096 * i + 64 * j + k ∧
      String.utf8EncodeChar c =
        [UInt8.ofNat (i + 0xE0), UInt8.ofNat (j + 0x80), UInt8.ofNat (k + 0x80)]) ∨
    (∃ i j k l, i < 5 ∧ j < 64 ∧ k < 64 ∧ l < 64 ∧ 0x10000 ≤ c.toNat ∧
      c.toNat = 262144 * i + 4096 * j + 64 * k + l ∧
      String.utf8EncodeChar c =
        [UInt8.ofNat (i + 0xF0), UInt8.ofNat (j + 0x80), UInt8.ofNat (k + 0x80),
          UInt8.ofNat (l + 0x80)]) := by
  have hc := toNat_bounds c
  have hval : c.val.toNat = c.toNat := rfl
  by_cases h1 : c.toNat ≤ 0x7f
  · refine Or.inl ⟨by omega, ?_⟩
    simp only [String.utf8EncodeChar, hval, if_pos h1]
  by_cases h2 : c.toNat ≤ 0x7ff
  · refine Or.inr (Or.inl ⟨c.toNat / 64, c.toNat % 64, by omega, by omega, by omega,
      by omega, ?_⟩)
    simp only [String.utf8EncodeChar, hval, if_neg h1, if_pos h2,
      Nat.mod_eq_of_lt (show c.toNat / 64 < 0x20 by omega)]
  by_cases h3 : c.toNat ≤ 0xffff
  · refine Or.inr (Or.inr (Or.inl ⟨c.toNat / 4096, c.toNat / 64 % 64, c.toNat % 64,
      by omega, by omega, by omega, by omega, by omega, ?_⟩))
    simp only [String.utf8EncodeChar, hval, if_neg h1, if_neg h2, if_pos h3,
      Nat.mod_eq_of_lt (show c.toNat / 4096 < 0x10 by omega)]
  · refine Or.inr (Or.inr (Or.inr ⟨c.toNat / 262144, c.toNat / 4096 % 64, c.toNat / 64 % 64,
      c.toNat % 64, by omega, by omega, by omega, by omega, by omega, by omega, ?_⟩))
    simp only [String.utf8EncodeChar, hval, if_neg h1, if_neg h2, if_neg h3,
      Nat.mod_eq_of_lt (show c.toNat / 262144 < 0x08 by omega)]

/-- Comparing two byte sequences by their first bytes, given as numbers. -/
theorem ofNat_cons_lt_iff {m n : ℕ} (hm : m < 256) (hn : n < 256) (s t : List UInt8) :
    UInt8.ofNat m :: s < UInt8.ofNat n :: t ↔ m < n ∨ (m = n ∧ s < t) := by
  rw [List.cons_lt_cons_iff, UInt8.lt_iff_toNat_lt, ← UInt8.toNat_inj, UInt8.toNat_ofNat',
    UInt8.toNat_ofNat', Nat.mod_eq_of_lt hm, Nat.mod_eq_of_lt hn]

/-- **A smaller scalar value has smaller bytes**, whatever follows: no encoding of
a scalar value is a prefix of another one. -/
theorem utf8EncodeChar_append_lt {c d : Char} (h : c.toNat < d.toNat) (s t : List UInt8) :
    String.utf8EncodeChar c ++ s < String.utf8EncodeChar d ++ t := by
  rcases utf8EncodeChar_cases c with ⟨hc, ec⟩ | ⟨i, j, hi, hi', hj, hv, ec⟩ |
      ⟨i, j, k, hi, hj, hk, hc, hv, ec⟩ | ⟨i, j, k, l, hi, hj, hk, hl, hc, hv, ec⟩ <;>
    rcases utf8EncodeChar_cases d with ⟨hd, ed⟩ | ⟨i', j', hi2, hi2', hj', hw, ed⟩ |
      ⟨i', j', k', hi', hj', hk', hd, hw, ed⟩ | ⟨i', j', k', l', hi', hj', hk', hl', hd, hw, ed⟩ <;>
    rw [ec, ed] <;>
    simp only [List.cons_append, List.nil_append] <;>
    repeat rw [ofNat_cons_lt_iff (by omega) (by omega)]
  all_goals omega

theorem encode_lt_encode {a b : List Char} (h : a < b) : encode a < encode b := by
  induction a generalizing b with
  | nil =>
    cases b with
    | nil => exact absurd h (lt_irrefl _)
    | cons d b =>
      rw [encode_nil, encode_cons]
      cases hd : String.utf8EncodeChar d with
      | nil => exact absurd hd String.utf8EncodeChar_ne_nil
      | cons x l => exact List.nil_lt_cons _ _
  | cons c a ih =>
    cases b with
    | nil => exact absurd h (List.not_lt_nil _)
    | cons d b =>
      rcases List.cons_lt_cons_iff.mp h with hcd | ⟨rfl, hab⟩
      · exact utf8EncodeChar_append_lt hcd _ _
      · rw [encode_cons, encode_cons]
        exact List.append_left_lt (ih hab)

/-- **Byte order is code point order.** -/
theorem encode_lt_encode_iff {a b : List Char} : encode a < encode b ↔ a < b := by
  constructor
  · intro h
    rcases lt_trichotomy a b with hab | rfl | hba
    · exact hab
    · exact absurd h (List.lt_irrefl _)
    · exact absurd h (List.lt_asymm (encode_lt_encode hba))
  · exact encode_lt_encode

theorem encode_injective : Function.Injective encode := by
  intro a b h
  rcases lt_trichotomy a b with hab | hab | hba
  · exact absurd (encode_lt_encode hab) (h ▸ List.lt_irrefl _)
  · exact hab
  · exact absurd (encode_lt_encode hba) (h ▸ List.lt_irrefl _)

/-! ## Decoding -/

/-- A sequence that has begun: the bytes still wanted, the bits read so far, and the
range the next byte has to fall in. -/
structure Pending where
  needed : ℕ
  codePoint : ℕ
  lower : ℕ
  upper : ℕ

/-- U+FFFD, what ill-formed input decodes to. -/
def replacement : Char := Char.ofNat 0xFFFD

/-- Read a byte outside any sequence: a character of its own, the beginning of a
sequence, or ill-formed. -/
def begin (b : ℕ) : List Char × Option Pending :=
  if b < 0x80 then ([Char.ofNat b], none)
  else if b < 0xC2 then ([replacement], none)
  else if b < 0xE0 then ([], some ⟨1, b % 0x20, 0x80, 0xBF⟩)
  else if b < 0xF0 then
    ([], some ⟨2, b % 0x10, if b = 0xE0 then 0xA0 else 0x80, if b = 0xED then 0x9F else 0xBF⟩)
  else if b < 0xF5 then
    ([], some ⟨3, b % 0x08, if b = 0xF0 then 0x90 else 0x80, if b = 0xF4 then 0x8F else 0xBF⟩)
  else ([replacement], none)

/-- Read one byte, inside a sequence or outside one. -/
def advance : Option Pending → ℕ → List Char × Option Pending
  | none, b => begin b
  | some p, b =>
    if p.lower ≤ b ∧ b ≤ p.upper then
      if p.needed = 1 then ([Char.ofNat (p.codePoint * 0x40 + b % 0x40)], none)
      else ([], some ⟨p.needed - 1, p.codePoint * 0x40 + b % 0x40, 0x80, 0xBF⟩)
    else (replacement :: (begin b).1, (begin b).2)

/-- Decode from a given point on. -/
def decodeFrom : Option Pending → List UInt8 → List Char
  | none, [] => []
  | some _, [] => [replacement]
  | p, b :: bs => (advance p b.toNat).1 ++ decodeFrom (advance p b.toNat).2 bs

/-- The text a byte sequence decodes to. -/
def decode (bs : List UInt8) : List Char := decodeFrom none bs

theorem decodeFrom_cons (p : Option Pending) (b : UInt8) (bs : List UInt8) :
    decodeFrom p (b :: bs) =
      (advance p b.toNat).1 ++ decodeFrom (advance p b.toNat).2 bs := by
  cases p <;> rfl

/-- A byte that begins or continues a sequence without ending it. -/
theorem decodeFrom_cons_of_advance {p : Option Pending} {n : ℕ} (hn : n < 256) {out : List Char}
    {p' : Option Pending} (h : advance p n = (out, p')) (bs : List UInt8) :
    decodeFrom p (UInt8.ofNat n :: bs) = out ++ decodeFrom p' bs := by
  rw [decodeFrom_cons, UInt8.toNat_ofNat', Nat.mod_eq_of_lt hn, h]

theorem advance_ascii {n : ℕ} (h : n < 0x80) : advance none n = ([Char.ofNat n], none) := by
  simp only [advance, begin, if_pos h]

theorem advance_lead_two {i : ℕ} (h : 2 ≤ i) (h' : i < 32) :
    advance none (i + 0xC0) = ([], some ⟨1, i, 0x80, 0xBF⟩) := by
  simp only [advance, begin]
  rw [if_neg (by omega), if_neg (by omega), if_pos (by omega), show (i + 0xC0) % 0x20 = i by omega]

theorem advance_lead_three {i : ℕ} (h : i < 16) :
    advance none (i + 0xE0) =
      ([], some ⟨2, i, if i = 0 then 0xA0 else 0x80, if i = 13 then 0x9F else 0xBF⟩) := by
  simp only [advance, begin]
  rw [if_neg (by omega), if_neg (by omega), if_neg (by omega), if_pos (by omega),
    show (i + 0xE0) % 0x10 = i by omega]
  simp only [show (i + 0xE0 = 0xE0) = (i = 0) by simp, show (i + 0xE0 = 0xED) = (i = 13) by
    rw [eq_iff_iff]; omega]

theorem advance_lead_four {i : ℕ} (h : i < 5) :
    advance none (i + 0xF0) =
      ([], some ⟨3, i, if i = 0 then 0x90 else 0x80, if i = 4 then 0x8F else 0xBF⟩) := by
  simp only [advance, begin]
  rw [if_neg (by omega), if_neg (by omega), if_neg (by omega), if_neg (by omega),
    if_pos (by omega), show (i + 0xF0) % 0x08 = i by omega]
  simp only [show (i + 0xF0 = 0xF0) = (i = 0) by simp, show (i + 0xF0 = 0xF4) = (i = 4) by
    rw [eq_iff_iff]; omega]

/-- A continuation byte that leaves the sequence open. -/
theorem advance_more {needed codePoint lower upper j : ℕ} (hj : j < 64) (hneeded : needed ≠ 1)
    (hlower : lower ≤ j + 0x80) (hupper : j + 0x80 ≤ upper) :
    advance (some ⟨needed, codePoint, lower, upper⟩) (j + 0x80) =
      ([], some ⟨needed - 1, codePoint * 0x40 + j, 0x80, 0xBF⟩) := by
  simp only [advance]
  rw [if_pos ⟨hlower, hupper⟩, if_neg hneeded, show (j + 0x80) % 0x40 = j by omega]

/-- The continuation byte that completes the sequence. -/
theorem advance_last {codePoint lower upper j : ℕ} (hj : j < 64)
    (hlower : lower ≤ j + 0x80) (hupper : j + 0x80 ≤ upper) :
    advance (some ⟨1, codePoint, lower, upper⟩) (j + 0x80) =
      ([Char.ofNat (codePoint * 0x40 + j)], none) := by
  simp only [advance]
  rw [if_pos ⟨hlower, hupper⟩, if_pos trivial, show (j + 0x80) % 0x40 = j by omega]

theorem ofNat_toNat_of_eq {c : Char} {n : ℕ} (h : n = c.toNat) : Char.ofNat n = c := by
  rw [h, Char.ofNat_toNat]

/-- **The bytes of one scalar value decode to it.** -/
theorem decodeFrom_utf8EncodeChar (c : Char) (bs : List UInt8) :
    decodeFrom none (String.utf8EncodeChar c ++ bs) = c :: decodeFrom none bs := by
  have hc := toNat_bounds c
  rcases utf8EncodeChar_cases c with ⟨h, e⟩ | ⟨i, j, hi, hi', hj, hv, e⟩ |
    ⟨i, j, k, hi, hj, hk, hlow, hv, e⟩ | ⟨i, j, k, l, hi, hj, hk, hl, hlow, hv, e⟩ <;>
    rw [e] <;> simp only [List.cons_append, List.nil_append]
  · rw [decodeFrom_cons_of_advance (by omega) (advance_ascii h), ofNat_toNat_of_eq rfl,
      List.singleton_append]
  · rw [decodeFrom_cons_of_advance (by omega) (advance_lead_two hi hi'), List.nil_append,
      decodeFrom_cons_of_advance (by omega) (advance_last hj (by omega) (by omega)),
      ofNat_toNat_of_eq (c := c) (by omega), List.singleton_append]
  · rw [decodeFrom_cons_of_advance (by omega) (advance_lead_three hi), List.nil_append,
      decodeFrom_cons_of_advance (by omega)
        (advance_more hj (by omega) (by split_ifs <;> omega) (by split_ifs <;> omega)),
      List.nil_append,
      decodeFrom_cons_of_advance (by omega) (advance_last hk (by omega) (by omega)),
      ofNat_toNat_of_eq (c := c) (by omega), List.singleton_append]
  · rw [decodeFrom_cons_of_advance (by omega) (advance_lead_four hi), List.nil_append,
      decodeFrom_cons_of_advance (by omega)
        (advance_more hj (by omega) (by split_ifs <;> omega) (by split_ifs <;> omega)),
      List.nil_append,
      decodeFrom_cons_of_advance (by omega) (advance_more hk (by omega) (by omega) (by omega)),
      List.nil_append,
      decodeFrom_cons_of_advance (by omega) (advance_last hl (by omega) (by omega)),
      ofNat_toNat_of_eq (c := c) (by omega), List.singleton_append]

/-- **Decoding reads an encoding back.** -/
@[simp] theorem decode_encode (s : List Char) : decode (encode s) = s := by
  induction s with
  | nil => rfl
  | cons c s ih => rw [decode, encode_cons, decodeFrom_utf8EncodeChar, ← decode, ih]

end Utf8
end SimpleStorage
