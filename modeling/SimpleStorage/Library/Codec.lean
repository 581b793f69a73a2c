import Mathlib.Data.UInt
import Mathlib.Data.Char
import Mathlib.Data.List.Basic

/-!
# Bytes as text

The two encodings of bytes as text a web service uses: hexadecimal, and base64 in
its padded and its URL-safe form.

The decoders are the lenient ones of the platform.  A hexadecimal reader stops at
the first pair that is not one; a base64 reader takes both alphabets at once, passes
over whatever belongs to neither, stops at the padding and drops a last group too
short to hold a byte.  Leniency costs nothing where a text was produced by the
matching encoder, and that is what the round trips say.
-/

namespace SimpleStorage
namespace Codec

/-- A byte is determined by its value. -/
theorem ofNat_eq_of_toNat {b : UInt8} {n : ℕ} (h : n = b.toNat) : UInt8.ofNat n = b := by
  rw [h, UInt8.ofNat_toNat]

/-! ## Hexadecimal -/

/-- The digit for a value below sixteen. -/
def hexDigit (n : ℕ) : Char :=
  if n < 10 then Char.ofNat ('0'.toNat + n) else Char.ofNat ('a'.toNat + (n - 10))

/-- The value of a digit, in either case. -/
def hexValue (c : Char) : Option ℕ :=
  if '0' ≤ c ∧ c ≤ '9' then some (c.toNat - '0'.toNat)
  else if 'a' ≤ c ∧ c ≤ 'f' then some (c.toNat - 'a'.toNat + 10)
  else if 'A' ≤ c ∧ c ≤ 'F' then some (c.toNat - 'A'.toNat + 10)
  else none

theorem hexValue_hexDigit : ∀ n < 16, hexValue (hexDigit n) = some n := by decide

/-- The two digits of a byte. -/
def hexPair (b : UInt8) : List Char := [hexDigit (b.toNat / 16), hexDigit (b.toNat % 16)]

/-- Bytes in hexadecimal, two lower-case digits a byte. -/
def hex (bs : List UInt8) : List Char := bs.flatMap hexPair

@[simp] theorem hex_nil : hex [] = [] := rfl

@[simp] theorem hex_cons (b : UInt8) (bs : List UInt8) :
    hex (b :: bs) = hexDigit (b.toNat / 16) :: hexDigit (b.toNat % 16) :: hex bs := rfl

theorem hexDigit_of_mem_hex {bs : List UInt8} {c : Char} (h : c ∈ hex bs) : ∃ n < 16, c = hexDigit n := by
  obtain ⟨b, -, hb⟩ := List.mem_flatMap.mp h
  have hlt := b.toNat_lt
  simp only [hexPair, List.mem_cons, List.not_mem_nil, or_false] at hb
  rcases hb with rfl | rfl
  · exact ⟨_, by omega, rfl⟩
  · exact ⟨_, by omega, rfl⟩

theorem mem_hex {bs : List UInt8} {c : Char} (h : c ∈ hex bs) : c ∈ "0123456789abcdef".toList := by
  have hdigit : ∀ n < 16, hexDigit n ∈ "0123456789abcdef".toList := by decide
  obtain ⟨n, hn, rfl⟩ := hexDigit_of_mem_hex h
  exact hdigit n hn

@[simp] theorem length_hex (bs : List UInt8) : (hex bs).length = 2 * bs.length := by
  induction bs with
  | nil => rfl
  | cons b bs ih => simp only [hex_cons, List.length_cons, ih]; omega

/-- Read pairs of digits up to the first pair that is not one. -/
def unhex : List Char → List UInt8
  | c :: d :: rest =>
      match hexValue c, hexValue d with
      | some m, some n => UInt8.ofNat (16 * m + n) :: unhex rest
      | _, _ => []
  | _ => []

@[simp] theorem unhex_hex (bs : List UInt8) : unhex (hex bs) = bs := by
  induction bs with
  | nil => rfl
  | cons b bs ih =>
    have hb := b.toNat_lt
    have hhigh := hexValue_hexDigit (b.toNat / 16) (by omega)
    have hlow := hexValue_hexDigit (b.toNat % 16) (by omega)
    simp only [hex_cons, unhex, hhigh, hlow, ih]
    rw [ofNat_eq_of_toNat (b := b) (by omega)]

theorem hex_injective : Function.Injective hex := fun a b h => by
  rw [← unhex_hex a, h, unhex_hex]

/-! ## Base64 -/

/-- The two alphabets differ in their last two letters. -/
structure Alphabet where
  c62 : Char
  c63 : Char
  /-- Whether a last, incomplete group is filled up with `=`. -/
  padded : Bool

def base64 : Alphabet := ⟨'+', '/', true⟩

def base64url : Alphabet := ⟨'-', '_', false⟩

/-- The letter for a value below sixty-four. -/
def Alphabet.letter (a : Alphabet) (n : ℕ) : Char :=
  if n < 26 then Char.ofNat ('A'.toNat + n)
  else if n < 52 then Char.ofNat ('a'.toNat + (n - 26))
  else if n < 62 then Char.ofNat ('0'.toNat + (n - 52))
  else if n = 62 then a.c62 else a.c63

/-- The value of a letter of either alphabet. -/
def sextet (c : Char) : Option ℕ :=
  if 'A' ≤ c ∧ c ≤ 'Z' then some (c.toNat - 'A'.toNat)
  else if 'a' ≤ c ∧ c ≤ 'z' then some (c.toNat - 'a'.toNat + 26)
  else if '0' ≤ c ∧ c ≤ '9' then some (c.toNat - '0'.toNat + 52)
  else if c = '+' ∨ c = '-' then some 62
  else if c = '/' ∨ c = '_' then some 63
  else none

/-- The filling of an incomplete group. -/
def Alphabet.pad (a : Alphabet) (n : ℕ) : List Char := if a.padded then List.replicate n '=' else []

/-- Bytes in base64, three bytes to four letters. -/
def Alphabet.encode (a : Alphabet) : List UInt8 → List Char
  | x :: y :: z :: rest =>
      a.letter (x.toNat / 4) :: a.letter (x.toNat % 4 * 16 + y.toNat / 16) ::
        a.letter (y.toNat % 16 * 4 + z.toNat / 64) :: a.letter (z.toNat % 64) :: a.encode rest
  | [x, y] =>
      a.letter (x.toNat / 4) :: a.letter (x.toNat % 4 * 16 + y.toNat / 16) ::
        a.letter (y.toNat % 16 * 4) :: a.pad 1
  | [x] => a.letter (x.toNat / 4) :: a.letter (x.toNat % 4 * 16) :: a.pad 2
  | [] => []

/-- Four values to three bytes; a group of two or three holds one or two bytes. -/
def regroup : List ℕ → List UInt8
  | m :: n :: o :: p :: rest =>
      UInt8.ofNat (m * 4 + n / 16) :: UInt8.ofNat (n % 16 * 16 + o / 4) ::
        UInt8.ofNat (o % 4 * 64 + p) :: regroup rest
  | [m, n, o] => [UInt8.ofNat (m * 4 + n / 16), UInt8.ofNat (n % 16 * 16 + o / 4)]
  | [m, n] => [UInt8.ofNat (m * 4 + n / 16)]
  | _ => []

/-- The letters up to the padding, those of no alphabet passed over. -/
def sextets (s : List Char) : List ℕ := (s.takeWhile (· ≠ '=')).filterMap sextet

/-- The bytes a base64 text stands for, in either alphabet. -/
def unbase64 (s : List Char) : List UInt8 := regroup (sextets s)

/-- The alphabets in use: the decoder reads each of their letters, and none is the padding. -/
structure Alphabet.Readable (a : Alphabet) : Prop where
  sextet_letter : ∀ n < 64, sextet (a.letter n) = some n
  letter_ne_pad : ∀ n < 64, a.letter n ≠ '='

theorem base64_readable : base64.Readable := ⟨by decide, by decide⟩

theorem base64url_readable : base64url.Readable := ⟨by decide, by decide⟩

theorem sextets_cons {a : Alphabet} (ha : a.Readable) {n : ℕ} (hn : n < 64) (s : List Char) :
    sextets (a.letter n :: s) = n :: sextets s := by
  have hne := ha.letter_ne_pad n hn
  simp only [sextets, List.takeWhile_cons, decide_not, decide_eq_false hne, Bool.not_false, if_true,
    List.filterMap_cons, ha.sextet_letter n hn]

@[simp] theorem sextets_pad (a : Alphabet) (n : ℕ) : sextets (a.pad n) = [] := by
  unfold Alphabet.pad
  split_ifs
  · cases n <;> rfl
  · rfl

/-- **Decoding reads an encoding back.** -/
theorem unbase64_encode {a : Alphabet} (ha : a.Readable) (bs : List UInt8) :
    unbase64 (a.encode bs) = bs := by
  unfold unbase64
  induction bs using Alphabet.encode.induct with
  | case1 x y z rest ih =>
    have hx := x.toNat_lt
    have hy := y.toNat_lt
    have hz := z.toNat_lt
    rw [Alphabet.encode, sextets_cons ha (by omega), sextets_cons ha (by omega),
      sextets_cons ha (by omega), sextets_cons ha (by omega), regroup, ih,
      ofNat_eq_of_toNat (b := x) (by omega), ofNat_eq_of_toNat (b := y) (by omega),
      ofNat_eq_of_toNat (b := z) (by omega)]
  | case2 x y =>
    have hx := x.toNat_lt
    have hy := y.toNat_lt
    rw [Alphabet.encode, sextets_cons ha (by omega), sextets_cons ha (by omega),
      sextets_cons ha (by omega), sextets_pad, regroup,
      ofNat_eq_of_toNat (b := x) (by omega), ofNat_eq_of_toNat (b := y) (by omega)]
  | case3 x =>
    have hx := x.toNat_lt
    rw [Alphabet.encode, sextets_cons ha (by omega), sextets_cons ha (by omega), sextets_pad,
      regroup, ofNat_eq_of_toNat (b := x) (by omega)]
  | case4 => rfl

/-- No letter and no padding is a `.`. -/
theorem dot_notMem_encode (bs : List UInt8) : '.' ∉ base64.encode bs := by
  have hletter : ∀ n < 64, '.' ≠ base64.letter n := by decide
  have hpad : ∀ n, '.' ∉ base64.pad n := by
    intro n
    simp [Alphabet.pad, base64, List.mem_replicate]
  induction bs using Alphabet.encode.induct with
  | case1 x y z rest ih =>
    have hx := x.toNat_lt
    have hy := y.toNat_lt
    have hz := z.toNat_lt
    simp only [Alphabet.encode, List.mem_cons, not_or]
    exact ⟨hletter _ (by omega), hletter _ (by omega), hletter _ (by omega),
      hletter _ (by omega), ih⟩
  | case2 x y =>
    have hx := x.toNat_lt
    have hy := y.toNat_lt
    simp only [Alphabet.encode, List.mem_cons, not_or]
    exact ⟨hletter _ (by omega), hletter _ (by omega), hletter _ (by omega), hpad 1⟩
  | case3 x =>
    have hx := x.toNat_lt
    simp only [Alphabet.encode, List.mem_cons, not_or]
    exact ⟨hletter _ (by omega), hletter _ (by omega), hpad 2⟩
  | case4 => simp [Alphabet.encode]

/-- Something encodes to a text that is not empty. -/
theorem encode_ne_nil (a : Alphabet) {bs : List UInt8} (h : bs ≠ []) : a.encode bs ≠ [] := by
  match bs, h with
  | [_], _ => exact List.cons_ne_nil _ _
  | [_, _], _ => exact List.cons_ne_nil _ _
  | _ :: _ :: _ :: _, _ => exact List.cons_ne_nil _ _

end Codec
end SimpleStorage
