import Mathlib.Data.List.TakeWhile
import SimpleStorage.S3.ChunkFraming

/-!
# How a chunk names its size

A header line should begin with hexadecimal digits, behind which extensions may follow.  The
decoder reads the size with `Number.parseInt`, which passes over blanks, a sign and `0x`, and stops
where the digits end.

* `parseInt_hex`, `lineSize_of_hexField`: what is written as it should be is read so.
* `refusesOthers_iff`: of the bodies the decoder accepts, those are sequences of chunks whose
  header lines all begin as they should; a body with another header line is accepted as well, if
  its parts fit the numbers that are read.
-/

namespace SimpleStorage
namespace S3ChunkedStream

open S3Types

variable {C : Crypto}

/-! ## Hexadecimal digits -/

def IsHexDigit (c : Char) : Prop := (Codec.hexValue c).isSome = true

instance (c : Char) : Decidable (IsHexDigit c) := inferInstanceAs (Decidable (_ = true))

/-- The digits, and the letters in either case. -/
theorem IsHexDigit.bounds {c : Char} (h : IsHexDigit c) :
    48 ≤ c.toNat ∧ c.toNat ≤ 57 ∨ 65 ≤ c.toNat ∧ c.toNat ≤ 70 ∨ 97 ≤ c.toNat ∧ c.toNat ≤ 102 := by
  rw [IsHexDigit, Codec.hexValue] at h
  split_ifs at h with hdigit hlower hupper
  · exact Or.inl ⟨hdigit.1, hdigit.2⟩
  · exact Or.inr (Or.inr ⟨hlower.1, hlower.2⟩)
  · exact Or.inr (Or.inl ⟨hupper.1, hupper.2⟩)
  · cases h

/-- Signs, the letter of `0x` and the semicolon are none. -/
theorem IsHexDigit.ne {c d : Char} (h : IsHexDigit c) (hd : ¬ IsHexDigit d) : c ≠ d := by
  rintro rfl
  exact hd h

/-- **Digits are read as the number they stand for.** -/
theorem parseInt_hex {digits : Text} (hne : digits ≠ []) (h : ∀ c ∈ digits, IsHexDigit c) :
    parseInt digits = some (hexNumber digits : ℤ) := by
  rcases digits with _ | ⟨c, rest⟩
  · exact absurd rfl hne
  have hc := h c List.mem_cons_self
  have hbounds := hc.bounds
  have htrim : (c :: rest).dropWhile Text.isSpace = c :: rest := by
    refine List.dropWhile_cons_of_neg ?_
    rw [Text.isSpace_of_visible (by omega) (by omega)]
    exact Bool.false_ne_true
  have hsign : dropSign (c :: rest) = c :: rest := by
    unfold dropSign
    split
    · next heq => exact absurd (List.cons.inj heq).1 (hc.ne (by decide))
    · next heq => exact absurd (List.cons.inj heq).1 (hc.ne (by decide))
    · rfl
  have hprefix : dropHexPrefix (c :: rest) = c :: rest := by
    unfold dropHexPrefix
    split
    · next more heq =>
      obtain ⟨-, rfl⟩ := List.cons.inj heq
      exact absurd (h 'x' (List.mem_cons_of_mem _ List.mem_cons_self)) (by decide)
    · next more heq =>
      obtain ⟨-, rfl⟩ := List.cons.inj heq
      exact absurd (h 'X' (List.mem_cons_of_mem _ List.mem_cons_self)) (by decide)
    · rfl
  have htake : (c :: rest).takeWhile (fun c => (Codec.hexValue c).isSome) = c :: rest :=
    List.takeWhile_eq_self_iff.mpr h
  simp only [parseInt, htrim, hsign, hprefix, htake]
  rw [if_neg (List.cons_ne_nil _ _), if_neg]
  rw [List.head?_cons, Option.some.injEq]
  exact hc.ne (by decide)

/-! ## Size fields -/

/-- The line begins with these digits, and extensions follow, or nothing does. -/
def BeginsWith (line : Bytes) (digits : Text) : Prop :=
  digits ≠ [] ∧ (∀ c ∈ digits, IsHexDigit c) ∧
    (line = Text.bytes digits ∨ ∃ extensions, line = Text.bytes digits ++ 0x3b :: extensions)

/-- The size field of a line consists of hexadecimal digits. -/
def HexField (line : Bytes) : Prop := ∃ digits, BeginsWith line digits

theorem decode_bytes_append (s : Text) (bs : Bytes) :
    Utf8.decode (Text.bytes s ++ bs) = s ++ Utf8.decode bs := by
  induction s with
  | nil => rfl
  | cons c s ih =>
    rw [Text.bytes, Utf8.encode_cons, List.append_assoc, Utf8.decode, Utf8.decodeFrom_utf8EncodeChar,
      ← Utf8.decode, ← Text.bytes, ih, List.cons_append]

/-- The text before the first semicolon. -/
theorem BeginsWith.sizePart {line : Bytes} {digits : Text} (h : BeginsWith line digits) :
    (Text.split ';' (Utf8.decode line)).headD [] = digits := by
  obtain ⟨-, hdigits, hline⟩ := h
  have hsemicolon : ';' ∉ digits := fun hmem => absurd (hdigits _ hmem) (by decide)
  rcases hline with rfl | ⟨extensions, rfl⟩
  · rw [Text.bytes, Utf8.decode_encode, Text.split_of_not_mem hsemicolon]
    rfl
  · have hdecode : Utf8.decode (0x3b :: extensions) = ';' :: Utf8.decode extensions :=
      Utf8.decodeFrom_utf8EncodeChar ';' extensions
    rw [decode_bytes_append, hdecode, Text.split_append_cons, Text.split_of_not_mem hsemicolon]
    rfl

/-- **The size that is read** is the one the digits write, unless it is infinite. -/
theorem BeginsWith.lineSize {line : Bytes} {digits : Text} (h : BeginsWith line digits) {size : ℕ}
    (hsize : lineSize line = some size) : hexNumber digits = size := by
  rw [S3ChunkedStream.lineSize, h.sizePart, parseInt_hex h.1 h.2.1] at hsize
  dsimp only at hsize
  split_ifs at hsize
  rw [Option.some.injEq, Int.toNat_natCast] at hsize
  exact hsize

/-! ## Bodies that are sequences of chunks -/

/-- **A sequence of chunks**, up to the end of the header line of the empty one, and their data. -/
def Chunks (body out : Bytes) : Prop :=
  ∃ frames line rest, body = frames.flatMap Frame.bytes ++ (line ++ crlf ++ rest) ∧
    out = payload frames ∧
    (∀ f ∈ frames, IsLine f.line ∧ f.data ≠ [] ∧
      ∃ digits, BeginsWith f.line digits ∧ hexNumber digits = f.data.length) ∧
    IsLine line ∧ ∃ digits, BeginsWith line digits ∧ hexNumber digits = 0

/-- **In whatever pieces the body comes**, it is accepted only if it is a sequence of chunks, and
what is passed on is their data. -/
def RefusesOthers (C : Crypto) (body : Bytes) : Prop :=
  ∀ chunks out, chunks.flatten = body → decode C none chunks = .ok out → Chunks body out

/-- Frames the decoder reads, without signatures. -/
theorem Chained.fits {previous last : Text} {frames : List Frame} (h : Chained C none previous frames last) :
    ∀ f ∈ frames, IsLine f.line ∧ f.data ≠ [] ∧ lineSize f.line = some f.data.length := by
  induction h with
  | nil previous =>
    intro f hf
    cases hf
  | cons hdata hfits _ ih =>
    intro f hf
    rcases List.mem_cons.mp hf with rfl | hf
    · exact ⟨hfits.isLine, hdata, hfits.size⟩
    · exact ih f hf

/-- **A body is read in one way only**: if it is a sequence of chunks, the header lines the decoder
reads are theirs. -/
theorem hexField_of_chunks {frames frames' : List Frame} {line line' tail rest : Bytes}
    (hframes : ∀ f ∈ frames, IsLine f.line ∧ f.data ≠ [] ∧ lineSize f.line = some f.data.length)
    (hline : IsLine line) (hsize : lineSize line = some 0)
    (hframes' : ∀ f ∈ frames', IsLine f.line ∧ f.data ≠ [] ∧
      ∃ digits, BeginsWith f.line digits ∧ hexNumber digits = f.data.length)
    (hline' : IsLine line') (hsize' : ∃ digits, BeginsWith line' digits ∧ hexNumber digits = 0)
    (heq : frames.flatMap Frame.bytes ++ (line ++ crlf ++ tail) =
      frames'.flatMap Frame.bytes ++ (line' ++ crlf ++ rest)) :
    ∀ l ∈ headerLines frames line, HexField l := by
  -- Both ways begin with the same line, and what it says is how much data follows.
  induction frames generalizing frames' with
  | nil =>
    intro l hl
    rw [headerLines, List.map_nil, List.nil_append, List.mem_singleton] at hl
    subst hl
    cases frames' with
    | nil =>
      obtain ⟨rfl, -⟩ := line_inj hline hline' heq
      exact ⟨_, hsize'.choose_spec.1⟩
    | cons f' frames' =>
      obtain ⟨hisLine, hdata, digits, hbegins, hnumber⟩ := hframes' f' List.mem_cons_self
      rw [List.flatMap_nil, List.nil_append, List.flatMap_cons, Frame.bytes] at heq
      simp only [List.append_assoc] at heq
      obtain ⟨rfl, -⟩ := line_inj hline hisLine (by simpa only [List.append_assoc] using heq)
      exact ⟨digits, hbegins⟩
  | cons f frames ih =>
    obtain ⟨hisLine, hdata, hlength⟩ := hframes f List.mem_cons_self
    have hsplit : ∀ g : Frame, ∀ gs : List Frame, ∀ behind : Bytes,
        (g :: gs).flatMap Frame.bytes ++ behind =
          g.line ++ crlf ++ (g.data ++ (crlf ++ (gs.flatMap Frame.bytes ++ behind))) := by
      intro g gs behind
      rw [List.flatMap_cons, Frame.bytes]
      simp only [List.append_assoc]
    rw [hsplit] at heq
    cases frames' with
    | nil =>
      obtain ⟨digits, hbegins, hnumber⟩ := hsize'
      obtain ⟨hsame, -⟩ := line_inj hisLine hline' heq
      have hzero := hbegins.lineSize (hsame ▸ hlength)
      rw [hnumber] at hzero
      exact absurd (List.length_eq_zero_iff.mp hzero.symm) hdata
    | cons f' frames' =>
      obtain ⟨hisLine', -, digits, hbegins, hnumber⟩ := hframes' f' List.mem_cons_self
      rw [hsplit] at heq
      obtain ⟨hsame, hbehind⟩ := line_inj hisLine hisLine' heq
      rw [← hsame] at hbegins
      have hsizes : f.data.length = f'.data.length := (hbegins.lineSize hlength).symm.trans hnumber
      obtain ⟨-, hbehind⟩ := List.append_inj hbehind hsizes
      intro l hl
      rw [headerLines, List.map_cons, List.cons_append] at hl
      rcases List.mem_cons.mp hl with rfl | hl
      · exact ⟨digits, hbegins⟩
      · exact ih (fun g hg => hframes g (List.mem_cons_of_mem _ hg))
          (fun g hg => hframes' g (List.mem_cons_of_mem _ hg)) (List.append_cancel_left hbehind) l hl

/-- The body of a sequence of chunks begins with a header line. -/
theorem Chunks.first {body out line rest : Bytes} (h : Chunks body out) (hline : IsLine line)
    (heq : body = line ++ crlf ++ rest) : HexField line := by
  obtain ⟨frames, last, tail, hbody, -, hframes, hlast, digits, hbegins, -⟩ := h
  rw [heq] at hbody
  cases frames with
  | nil =>
    obtain ⟨rfl, -⟩ := line_inj hline hlast hbody
    exact ⟨digits, hbegins⟩
  | cons f frames =>
    obtain ⟨hisLine, -, digits, hbegins, -⟩ := hframes f List.mem_cons_self
    rw [List.flatMap_cons, Frame.bytes] at hbody
    obtain ⟨rfl, -⟩ := line_inj hline hisLine (by simpa only [List.append_assoc] using hbody)
    exact ⟨digits, hbegins⟩

/-- **When only sequences of chunks are accepted.**  However the decoder can read a body, all the
header lines begin with hexadecimal digits, and at once go on with extensions or end. -/
theorem refusesOthers_iff (C : Crypto) (body : Bytes) :
    RefusesOthers C body ↔ ∀ frames line, Framed C none [] body frames line →
      ∀ l ∈ headerLines frames line, HexField l := by
  constructor
  · intro h frames line hframed
    obtain ⟨frames', line', rest, hbody', -, hframes', hline', hsize'⟩ :=
      h [body] _ List.flatten_singleton (decode_singleton_of_framed hframed)
    obtain ⟨⟨tail, -, hbody⟩, last, next, hchained, hfits⟩ := hframed
    exact hexField_of_chunks hchained.fits hfits.isLine hfits.size hframes' hline' hsize'
      (hbody.symm.trans hbody')
  · intro h chunks out hchunks hout
    obtain ⟨frames, line, hframed, rfl⟩ := decode_framed hout
    rw [hchunks] at hframed
    have hfields := h frames line hframed
    obtain ⟨⟨tail, -, hbody⟩, last, next, hchained, hfits⟩ := hframed
    refine ⟨frames, line, tail, hbody, rfl, fun f hf => ?_, hfits.isLine, ?_⟩
    · obtain ⟨hisLine, hdata, hsize⟩ := hchained.fits f hf
      obtain ⟨digits, hbegins⟩ := hfields f.line
        (List.mem_append_left _ (List.mem_map_of_mem hf))
      exact ⟨hisLine, hdata, digits, hbegins, hbegins.lineSize hsize⟩
    · obtain ⟨digits, hbegins⟩ := hfields line (List.mem_append_right _ List.mem_cons_self)
      exact ⟨digits, hbegins, hbegins.lineSize hfits.size⟩

/-- A body whose first size field is `5xyz`. -/
def strayBody : Bytes := Text.bytes "5xyz\r\nhello\r\n0\r\n\r\n".toList

/-- **Letters behind the size are passed over.** -/
theorem strayBody_accepted : ¬ RefusesOthers Crypto.sample strayBody := by
  intro h
  have haccepted : decode Crypto.sample none [strayBody] = .ok (Text.bytes "hello".toList) := by
    decide +kernel
  have hchunks := h [strayBody] _ List.flatten_singleton haccepted
  have hline : IsLine (Text.bytes "5xyz".toList) := by
    rw [IsLine]
    decide
  have hbody : strayBody = Text.bytes "5xyz".toList ++ crlf ++ Text.bytes "hello\r\n0\r\n\r\n".toList := by
    decide
  obtain ⟨digits, hbegins⟩ := hchunks.first hline hbody
  have hdigits : digits = "5xyz".toList := by
    rw [← hbegins.sizePart]
    decide +kernel
  exact absurd (hbegins.2.1 'y' (by rw [hdigits]; decide)) (by decide)

end S3ChunkedStream
end SimpleStorage
