import SimpleStorage.Library.Codec
import SimpleStorage.Library.Utf8

/-!
# Percent encoding

Texts inside a URL: a character either stands for itself or is written as its UTF-8
bytes, each a percent sign and two digits.  Which characters stand for themselves is a
parameter.

The decoder is the strict one of a JavaScript runtime.  It refuses a percent sign without
two digits, and bytes that are not UTF-8.

* `unescape_escape`: the decoder reads an encoding back.
* `unescape_append`: so it does with any other encoding of the text, whichever characters are
  escaped in it, and whatever follows.
* `not_mem_escape`: a character that has to be escaped does not occur in an encoding, so
  encodings can be put together with such characters in between and taken apart again.
-/

namespace SimpleStorage
namespace PercentCoding

/-! ## Encoding -/

/-- The upper-case digit for a value below sixteen. -/
def upperHexDigit (n : ℕ) : Char := (Codec.hexDigit n).toUpper

theorem hexValue_upperHexDigit : ∀ n < 16, Codec.hexValue (upperHexDigit n) = some n := by decide

/-- A byte, escaped. -/
def escapeByte (b : UInt8) : List Char :=
  ['%', upperHexDigit (b.toNat / 16), upperHexDigit (b.toNat % 16)]

variable (plain : Char → Bool)

def escapeChar (c : Char) : List Char :=
  if plain c then [c] else (String.utf8EncodeChar c).flatMap escapeByte

/-- The encoding of a text. -/
def escape (s : List Char) : List Char := s.flatMap (escapeChar plain)

@[simp] theorem escape_nil : escape plain [] = [] := rfl

@[simp] theorem escape_cons (c : Char) (s : List Char) :
    escape plain (c :: s) = escapeChar plain c ++ escape plain s := rfl

/-- The characters escapes are made of. -/
def escapeChars : List Char := "%0123456789ABCDEF".toList

theorem upperHexDigit_mem : ∀ n < 16, upperHexDigit n ∈ escapeChars := by decide

theorem mem_escapeChars_of_mem_escapeByte {b : UInt8} {c : Char} (h : c ∈ escapeByte b) :
    c ∈ escapeChars := by
  have hb := b.toNat_lt
  simp only [escapeByte, List.mem_cons, List.not_mem_nil, or_false] at h
  rcases h with rfl | rfl | rfl
  · decide
  · exact upperHexDigit_mem _ (by omega)
  · exact upperHexDigit_mem _ (by omega)

variable {plain}

/-- What an encoding is made of. -/
theorem mem_escape {s : List Char} {c : Char} (h : c ∈ escape plain s) :
    plain c = true ∨ c ∈ escapeChars := by
  obtain ⟨d, -, hc⟩ := List.mem_flatMap.mp h
  rw [escapeChar] at hc
  split_ifs at hc with hd
  · rw [List.mem_singleton] at hc
    exact Or.inl (hc ▸ hd)
  · obtain ⟨b, -, hb⟩ := List.mem_flatMap.mp hc
    exact Or.inr (mem_escapeChars_of_mem_escapeByte hb)

theorem not_mem_escape {c : Char} (hplain : plain c = false) (hc : c ∉ escapeChars)
    (s : List Char) : c ∉ escape plain s := by
  intro h
  rcases mem_escape h with h' | h'
  · rw [hplain] at h'
    cases h'
  · exact hc h'

/-- A text of characters that stand for themselves is its own encoding. -/
theorem escape_of_all {s : List Char} (h : ∀ c ∈ s, plain c = true) : escape plain s = s := by
  induction s with
  | nil => rfl
  | cons c s ih =>
    rw [escape_cons, escapeChar, if_pos (h c List.mem_cons_self),
      ih fun d hd => h d (List.mem_cons_of_mem _ hd), List.singleton_append]

theorem escape_append (s t : List Char) : escape plain (s ++ t) = escape plain s ++ escape plain t :=
  List.flatMap_append

/-- **Two encodings in a row are one**, if the second leaves the escapes of the first alone. -/
theorem escape_escape {plain' : Char → Bool} (h : ∀ c ∈ escapeChars, plain' c = true)
    (s : List Char) :
    escape plain' (escape plain s) = escape (fun c => plain c && plain' c) s := by
  induction s with
  | nil => rfl
  | cons c s ih =>
    rw [escape_cons, escape_append, ih, escape_cons]
    congr 1
    simp only [escapeChar]
    by_cases hc : plain c = true
    · simp only [hc, if_true, Bool.true_and, escape_cons, escape_nil, List.append_nil, escapeChar]
    · have hbytes : ∀ d ∈ (String.utf8EncodeChar c).flatMap escapeByte, plain' d = true := by
        intro d hd
        obtain ⟨b, -, hb⟩ := List.mem_flatMap.mp hd
        exact h d (mem_escapeChars_of_mem_escapeByte hb)
      simp only [Bool.eq_false_iff.mpr hc, Bool.false_and, Bool.false_eq_true, if_false,
        escape_of_all hbytes]

/-! ## Decoding -/

/-- Whether a byte may come next in well-formed UTF-8. -/
def wellFormed : Option Utf8.Pending → ℕ → Bool
  | none, b => b < 0x80 || (0xC2 ≤ b && b < 0xF5)
  | some p, b => p.lower ≤ b && b ≤ p.upper

/-- Decode from a given point on: inside a sequence of escaped bytes or outside one. -/
def unescapeFrom : Option Utf8.Pending → List Char → Option (List Char)
  | p, '%' :: d :: e :: rest =>
      match Codec.hexValue d, Codec.hexValue e with
      | some m, some n =>
          if wellFormed p (16 * m + n) then
            (unescapeFrom (Utf8.advance p (16 * m + n)).2 rest).map
              ((Utf8.advance p (16 * m + n)).1 ++ ·)
          else none
      | _, _ => none
  | none, c :: rest => if c = '%' then none else (unescapeFrom none rest).map (c :: ·)
  | none, [] => some []
  | some _, _ => none

/-- The text an encoding stands for, unless it is malformed. -/
def unescape (s : List Char) : Option (List Char) := unescapeFrom none s

/-- A byte that ends where it stands, outside a sequence or inside one, has been read. -/
theorem advance_fst_ne_nil {p : Option Utf8.Pending} {b : ℕ} (h : (Utf8.advance p b).2 = none) :
    (Utf8.advance p b).1 ≠ [] := by
  have hbegin : (Utf8.begin b).2 = none → (Utf8.begin b).1 ≠ [] := by
    unfold Utf8.begin
    split_ifs <;> simp
  cases p with
  | none => exact hbegin h
  | some p =>
    rw [Utf8.advance] at h ⊢
    split_ifs at h ⊢
    · exact List.cons_ne_nil _ _
    · exact List.cons_ne_nil _ _

/-- Only the empty encoding stands for the empty text. -/
theorem unescapeFrom_eq_nil {p : Option Utf8.Pending} {s : List Char}
    (h : unescapeFrom p s = some []) : p = none ∧ s = [] := by
  fun_induction unescapeFrom p s with
  | case1 p d e rest m n hm hn hw ih =>
    obtain ⟨out, hout, happend⟩ := Option.map_eq_some_iff.mp h
    obtain ⟨hfst, rfl⟩ := List.append_eq_nil_iff.mp happend
    exact absurd hfst (advance_fst_ne_nil (ih hout).1)
  | case2 | case3 | case4 => cases h
  | case5 c rest =>
    obtain ⟨out, -, hcons⟩ := Option.map_eq_some_iff.mp h
    cases hcons
  | case6 => exact ⟨rfl, rfl⟩
  | case7 => cases h

theorem unescape_eq_nil {s : List Char} (h : unescape s = some []) : s = [] :=
  (unescapeFrom_eq_nil h).2

theorem unescape_cons {c : Char} (h : c ≠ '%') (s : List Char) :
    unescape (c :: s) = (unescape s).map (c :: ·) := by
  rw [unescape, unescapeFrom, if_neg h, unescape]
  rintro d e rest rfl
  exact absurd rfl h

/-- An escape of a byte: its digits may be in either case. -/
def IsEscape (b : UInt8) (w : List Char) : Prop :=
  ∃ d e, w = ['%', d, e] ∧ Codec.hexValue d = some (b.toNat / 16) ∧
    Codec.hexValue e = some (b.toNat % 16)

theorem isEscape_escapeByte (b : UInt8) : IsEscape b (escapeByte b) := by
  have hb := b.toNat_lt
  exact ⟨_, _, rfl, hexValue_upperHexDigit _ (by omega), hexValue_upperHexDigit _ (by omega)⟩

/-- What stands in an escape is a percent sign or a digit. -/
theorem IsEscape.mem {b : UInt8} {w : List Char} (h : IsEscape b w) {c : Char} (hc : c ∈ w) :
    c = '%' ∨ (Codec.hexValue c).isSome := by
  obtain ⟨d, e, rfl, hd, he⟩ := h
  simp only [List.mem_cons, List.not_mem_nil, or_false] at hc
  rcases hc with rfl | rfl | rfl
  · exact Or.inl rfl
  · exact Or.inr (by rw [hd]; rfl)
  · exact Or.inr (by rw [he]; rfl)

/-- Reading an escaped byte that may come next. -/
theorem unescapeFrom_isEscape {p : Option Utf8.Pending} {n : ℕ} {w : List Char}
    (hescape : IsEscape (UInt8.ofNat n) w) (hn : n < 256)
    (hw : wellFormed p n = true) {out : List Char} {p' : Option Utf8.Pending}
    (h : Utf8.advance p n = (out, p')) (rest : List Char) :
    unescapeFrom p (w ++ rest) = (unescapeFrom p' rest).map (out ++ ·) := by
  obtain ⟨d, e, rfl, hd, he⟩ := hescape
  have hval : 16 * (n / 16) + n % 16 = n := by omega
  rw [UInt8.toNat_ofNat', Nat.mod_eq_of_lt hn] at hd he
  simp only [List.cons_append, List.nil_append, unescapeFrom, hd, he, hval, hw, if_true, h]

theorem forall₂_singleton {b : UInt8} {ws : List (List Char)} (h : List.Forall₂ IsEscape [b] ws) :
    ∃ w, IsEscape b w ∧ ws = [w] := by
  obtain ⟨w, ws', hw, hnil, rfl⟩ := List.forall₂_cons_left_iff.mp h
  rw [List.forall₂_nil_left_iff.mp hnil]
  exact ⟨w, hw, rfl⟩

/-- The characters that may stand in the escapes of some bytes. -/
theorem escapes_not_mem {bs : List UInt8} {ws : List (List Char)} (h : List.Forall₂ IsEscape bs ws)
    {c : Char} (hpercent : c ≠ '%') (hdigit : Codec.hexValue c = none) : c ∉ ws.flatten := by
  induction h with
  | nil => exact List.not_mem_nil
  | cons hw _ ih =>
    rw [List.flatten_cons, List.mem_append, not_or]
    refine ⟨fun hc => (hw.mem hc).elim hpercent fun hsome => ?_, ih⟩
    rw [hdigit] at hsome
    cases hsome

/-- **The escaped bytes of one scalar value decode to it.** -/
theorem unescapeFrom_isEscapes {c : Char} {ws : List (List Char)}
    (hws : List.Forall₂ IsEscape (String.utf8EncodeChar c) ws) (rest : List Char) :
    unescapeFrom none (ws.flatten ++ rest) = (unescapeFrom none rest).map (c :: ·) := by
  have hc := Utf8.toNat_bounds c
  have hmap : ∀ (o : Option (List Char)), Option.map (([] : List Char) ++ ·) o = o := by
    intro o
    simp only [List.nil_append, Option.map_id']
  rcases Utf8.utf8EncodeChar_cases c with ⟨h, e⟩ | ⟨i, j, hi, hi', hj, hv, e⟩ |
    ⟨i, j, k, hi, hj, hk, hlow, hv, e⟩ | ⟨i, j, k, l, hi, hj, hk, hl, hlow, hv, e⟩ <;>
    rw [e] at hws
  · obtain ⟨w, h₁, rfl⟩ := forall₂_singleton hws
    rw [List.flatten_cons, List.flatten_nil, List.append_nil,
      unescapeFrom_isEscape h₁ (by omega) (by simp [wellFormed]; omega) (Utf8.advance_ascii h),
      Utf8.ofNat_toNat_of_eq rfl]
    rfl
  · obtain ⟨w₁, ws₁, h₁, hws₁, rfl⟩ := List.forall₂_cons_left_iff.mp hws
    obtain ⟨w₂, h₂, rfl⟩ := forall₂_singleton hws₁
    simp only [List.flatten_cons, List.flatten_nil, List.append_nil, List.append_assoc]
    rw [unescapeFrom_isEscape h₁ (by omega) (by simp [wellFormed]; omega)
        (Utf8.advance_lead_two hi hi'), hmap,
      unescapeFrom_isEscape h₂ (by omega) (by simp [wellFormed]; omega)
        (Utf8.advance_last hj (by omega) (by omega)),
      Utf8.ofNat_toNat_of_eq (c := c) (by omega)]
    rfl
  · obtain ⟨w₁, ws₁, h₁, hws₁, rfl⟩ := List.forall₂_cons_left_iff.mp hws
    obtain ⟨w₂, ws₂, h₂, hws₂, rfl⟩ := List.forall₂_cons_left_iff.mp hws₁
    obtain ⟨w₃, h₃, rfl⟩ := forall₂_singleton hws₂
    simp only [List.flatten_cons, List.flatten_nil, List.append_nil, List.append_assoc]
    rw [unescapeFrom_isEscape h₁ (by omega) (by simp [wellFormed]; omega)
        (Utf8.advance_lead_three hi), hmap,
      unescapeFrom_isEscape h₂ (by omega) (by simp [wellFormed]; split_ifs <;> omega)
        (Utf8.advance_more hj (by omega) (by split_ifs <;> omega) (by split_ifs <;> omega)), hmap,
      unescapeFrom_isEscape h₃ (by omega) (by simp [wellFormed]; omega)
        (Utf8.advance_last hk (by omega) (by omega)),
      Utf8.ofNat_toNat_of_eq (c := c) (by omega)]
    rfl
  · obtain ⟨w₁, ws₁, h₁, hws₁, rfl⟩ := List.forall₂_cons_left_iff.mp hws
    obtain ⟨w₂, ws₂, h₂, hws₂, rfl⟩ := List.forall₂_cons_left_iff.mp hws₁
    obtain ⟨w₃, ws₃, h₃, hws₃, rfl⟩ := List.forall₂_cons_left_iff.mp hws₂
    obtain ⟨w₄, h₄, rfl⟩ := forall₂_singleton hws₃
    simp only [List.flatten_cons, List.flatten_nil, List.append_nil, List.append_assoc]
    rw [unescapeFrom_isEscape h₁ (by omega) (by simp [wellFormed]; omega)
        (Utf8.advance_lead_four hi), hmap,
      unescapeFrom_isEscape h₂ (by omega) (by simp [wellFormed]; split_ifs <;> omega)
        (Utf8.advance_more hj (by omega) (by split_ifs <;> omega) (by split_ifs <;> omega)), hmap,
      unescapeFrom_isEscape h₃ (by omega) (by simp [wellFormed]; omega)
        (Utf8.advance_more hk (by omega) (by omega) (by omega)), hmap,
      unescapeFrom_isEscape h₄ (by omega) (by simp [wellFormed]; omega)
        (Utf8.advance_last hl (by omega) (by omega)),
      Utf8.ofNat_toNat_of_eq (c := c) (by omega)]
    rfl

/-! ## All encodings of a text -/

/-- **What a text may be written as**: some of the characters that may stand for themselves do,
the others are escaped, with digits in either case. -/
inductive Encodes (plain : Char → Bool) : List Char → List Char → Prop
  | nil : Encodes plain [] []
  | plain {c : Char} {s e : List Char} : plain c = true → Encodes plain s e →
      Encodes plain (c :: s) (c :: e)
  | escaped {c : Char} {ws : List (List Char)} {s e : List Char} :
      List.Forall₂ IsEscape (String.utf8EncodeChar c) ws → Encodes plain s e →
      Encodes plain (c :: s) (ws.flatten ++ e)

theorem Encodes.append {s e t f : List Char} (hs : Encodes plain s e) (ht : Encodes plain t f) :
    Encodes plain (s ++ t) (e ++ f) := by
  induction hs with
  | nil => exact ht
  | plain hc _ ih => exact .plain hc ih
  | escaped hws _ ih =>
    rw [List.append_assoc]
    exact .escaped hws ih

/-- Characters that may stand for themselves. -/
theorem encodes_self {s : List Char} (h : ∀ c ∈ s, plain c = true) : Encodes plain s s := by
  induction s with
  | nil => exact .nil
  | cons c s ih => exact .plain (h c List.mem_cons_self) (ih fun d hd => h d (List.mem_cons_of_mem _ hd))

/-- `escape` is one of the encodings, also where more characters may stand for themselves. -/
theorem encodes_escape {plain' : Char → Bool} (h : ∀ c, plain' c = true → plain c = true)
    (s : List Char) : Encodes plain s (escape plain' s) := by
  induction s with
  | nil => exact .nil
  | cons c s ih =>
    rw [escape_cons, escapeChar]
    split_ifs with hc
    · exact .plain (h c hc) ih
    · rw [List.flatMap_def]
      exact .escaped (List.forall₂_map_right_iff.mpr
        (List.forall₂_same.mpr fun b _ => isEscape_escapeByte b)) ih

/-- A character that has to be escaped does not occur in an encoding, unless escapes are made
of it. -/
theorem Encodes.not_mem {s e : List Char} (h : Encodes plain s e) {c : Char}
    (hplain : plain c = false) (hpercent : c ≠ '%') (hdigit : Codec.hexValue c = none) : c ∉ e := by
  induction h with
  | nil => exact List.not_mem_nil
  | plain hd _ ih =>
    rw [List.mem_cons, not_or]
    refine ⟨?_, ih⟩
    rintro rfl
    rw [hplain] at hd
    cases hd
  | escaped hws _ ih =>
    refine fun hmem => (List.mem_append.mp hmem).elim (fun hflat => ?_) ih
    exact escapes_not_mem hws hpercent hdigit hflat

/-- **Decoding reads every encoding back**, and goes on from there. -/
theorem unescape_append (hpercent : plain '%' = false) {s e : List Char} (h : Encodes plain s e)
    (rest : List Char) : unescape (e ++ rest) = (unescape rest).map (s ++ ·) := by
  induction h with
  | nil => simp
  | @plain c s e hc _ ih =>
    have hne : c ≠ '%' := by
      rintro rfl
      rw [hpercent] at hc
      cases hc
    rw [List.cons_append, unescape_cons hne, ih, Option.map_map]
    rfl
  | escaped hws _ ih =>
    rw [List.append_assoc, unescape, unescapeFrom_isEscapes hws, ← unescape, ih, Option.map_map]
    rfl

theorem unescape_of_encodes (hpercent : plain '%' = false) {s e : List Char}
    (h : Encodes plain s e) : unescape e = some s := by
  have happend := unescape_append hpercent h []
  rwa [List.append_nil, show unescape [] = some [] from rfl, Option.map_some, List.append_nil] at happend

/-- **Decoding reads an encoding back.** -/
theorem unescape_escape (hpercent : plain '%' = false) (s : List Char) :
    unescape (escape plain s) = some s :=
  unescape_of_encodes hpercent (encodes_escape (fun _ => id) s)

theorem escape_injective (hpercent : plain '%' = false) : Function.Injective (escape plain) := by
  intro s t h
  have hs := unescape_escape hpercent s
  rw [h, unescape_escape hpercent t] at hs
  exact (Option.some.inj hs).symm

end PercentCoding
end SimpleStorage
