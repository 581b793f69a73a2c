import SimpleStorage.S3.ChunkSizes

/-!
# Chunked payloads on the wire

What a client sends, what a hostile one may send, and what the network makes of it.

* `decode_signed`: a signed payload that is accepted carries a signature for each of its
  chunks and for its end, and each continues the one before it.
* `decode_slices_iff`: how the network slices a payload makes no difference, unless it has
  a header line that is longer than the decoder's limit, which is only looked at while the
  line has not ended.
* `decode_wire_iff`: what a client puts on the wire is read back, unless there are trailing
  header lines, behind a last chunk after which the decoder takes nothing but an empty line.
-/

namespace SimpleStorage
namespace S3ChunkedStream

open S3Types S3SignatureService

variable {C : Crypto} {context : Option ChunkSigningContext}

/-! ## Signatures -/

/-- The signatures of chunks in a row, from the one before them on. -/
def sign (C : Crypto) (context : ChunkSigningContext) : Text → List Bytes → List Text
  | _, [] => []
  | previous, chunk :: chunks =>
      let signature := computeChunkSignature C context previous (Codec.hex (C.sha256 chunk))
      signature :: sign C context signature chunks

theorem sign_append (context : ChunkSigningContext) (previous : Text) (chunks chunks' : List Bytes) :
    sign C context previous (chunks ++ chunks') = sign C context previous chunks ++
      sign C context ((sign C context previous chunks).getLast?.getD previous) chunks' := by
  induction chunks generalizing previous with
  | nil => rfl
  | cons chunk chunks ih =>
    rw [List.cons_append, sign, sign, ih, List.cons_append]
    congr 2
    cases hrest : sign C context (computeChunkSignature C context previous (Codec.hex (C.sha256 chunk))) chunks with
    | nil => rfl
    | cons signature signatures => rw [List.getLast?_cons_cons]; rfl

/-- In a signed payload, a header line that fits carries the signature of its data. -/
theorem Fits.signature {context : ChunkSigningContext} {previous next : Text} {line data : Bytes}
    (h : Fits C (some context) previous line data next) :
    lineSignature line = some next ∧
      next = computeChunkSignature C context previous (Codec.hex (C.sha256 data)) := by
  have hchain := h.chain
  rcases hline : lineSignature line with _ | signature
  · exact absurd hline (h.signed rfl)
  · rw [hline, nextSignature] at hchain
    split_ifs at hchain with heq
    obtain rfl := Except.ok.inj hchain
    exact ⟨rfl, heq.symm⟩

theorem Chained.signatures {context : ChunkSigningContext} {previous last : Text} {frames : List Frame}
    (h : Chained C (some context) previous frames last) :
    frames.map (lineSignature ·.line) = (sign C context previous (frames.map Frame.data)).map some ∧
      last = (sign C context previous (frames.map Frame.data)).getLast?.getD previous := by
  generalize hcontext : some context = context' at h
  induction h with
  | nil previous => exact ⟨rfl, rfl⟩
  | @cons previous next last f frames _ hfits _ ih =>
    subst hcontext
    obtain ⟨hline, rfl⟩ := hfits.signature
    obtain ⟨hframes, hlast⟩ := ih
    rw [List.map_cons, List.map_cons, sign, List.map_cons, hline, hframes]
    refine ⟨rfl, ?_⟩
    rw [hlast]
    cases sign C context (computeChunkSignature C context previous (Codec.hex (C.sha256 f.data)))
      (frames.map Frame.data) with
    | nil => rfl
    | cons signature signatures => rw [List.getLast?_cons_cons]; rfl

theorem Chained.sizes {previous last : Text} {frames : List Frame}
    (h : Chained C context previous frames last) :
    ∀ f ∈ frames, f.data ≠ [] ∧ lineSize f.line = some f.data.length := by
  induction h with
  | nil => nofun
  | cons hdata hfits _ ih =>
    intro f hf
    rcases List.mem_cons.mp hf with rfl | hf
    · exact ⟨hdata, hfits.size⟩
    · exact ih f hf

/-- A context to run examples in. -/
def seedContext : ChunkSigningContext := ⟨[1], "seed".toList, "20240101T000000Z".toList, "scope".toList⟩

/-- An empty signed payload. -/
def emptySigned : Bytes :=
  Text.bytes ("0;chunk-signature=".toList ++
    computeChunkSignature Crypto.sample seedContext seedContext.seedSignature
      (Codec.hex (Crypto.sample.sha256 [])))
  ++ crlf ++ crlf

/-- The bytes below 0x80 in an encoding are characters of their own. -/
theorem mem_encode_ascii {s : Text} {b : UInt8} (hb : b.toNat < 0x80) (h : b ∈ Utf8.encode s) :
    ∃ c ∈ s, c.toNat = b.toNat := by
  obtain ⟨c, hc, hbyte⟩ := List.mem_flatMap.mp h
  refine ⟨c, hc, ?_⟩
  rcases Utf8.utf8EncodeChar_cases c with ⟨hlow, e⟩ | ⟨i, j, -, hi, hj, -, e⟩ |
    ⟨i, j, k, hi, hj, hk, -, -, e⟩ | ⟨i, j, k, l, hi, hj, hk, hl, -, -, e⟩ <;>
    rw [e] at hbyte <;> simp only [List.mem_cons, List.not_mem_nil, or_false] at hbyte
  · rw [hbyte, UInt8.toNat_ofNat', Nat.mod_eq_of_lt (by omega)]
  all_goals
    exfalso
    rcases hbyte with rfl | rfl | rfl | rfl | rfl <;> rw [UInt8.toNat_ofNat'] at hb <;> omega

theorem length_le_encode (s : Text) : s.length ≤ (Utf8.encode s).length := by
  induction s with
  | nil => exact Nat.le_refl _
  | cons c s ih =>
    have hc := List.length_pos_of_ne_nil (String.utf8EncodeChar_ne_nil (c := c))
    rw [Utf8.encode_cons, List.length_append, List.length_cons]
    omega

/-- **A long header line is refused** when its end has not arrived with it. -/
theorem decode_longLine {frames : List Frame} {last : Text} {line : Bytes}
    (hchained : Chained C context (fresh context).previousSignature frames last) (hline : IsLine line)
    (hlong : maxHeaderBytes ≤ line.length) (chunks : List Bytes) :
    decode C context ((frames.flatMap Frame.bytes ++ (line ++ [0x0d])) :: chunks) = .error .malformedBody := by
  have hfails : transform C context (fresh context) (frames.flatMap Frame.bytes ++ (line ++ [0x0d])) =
      .error .malformedBody := by
    refine consume_fails hchained rfl rfl (hline.concat (by decide)) ?_ rfl ?_
    · rw [List.length_append, List.length_singleton]
      omega
    · exact Nat.lt_succ_self _
  rw [decode, writes, hfails]
  rfl

/-- Where a body is cut behind a given header line and half of its end. -/
theorem exists_cut {previous last next : Text} {frames : List Frame} {line l : Bytes} (tail : Bytes)
    (hchained : Chained C context previous frames last) (hfits : Fits C context last line [] next)
    (hl : l ∈ headerLines frames line) :
    ∃ before middle after, Chained C context previous before middle ∧ IsLine l ∧
      frames.flatMap Frame.bytes ++ (line ++ crlf ++ tail) =
        (before.flatMap Frame.bytes ++ (l ++ [0x0d])) ++ after := by
  induction hchained with
  | nil previous =>
    rw [headerLines, List.map_nil, List.nil_append, List.mem_singleton] at hl
    subst hl
    exact ⟨[], previous, 0x0a :: tail, .nil previous, hfits.isLine, by simp [crlf]⟩
  | @cons previous next' last f frames hdata hfits' hchained' ih =>
    rw [headerLines, List.map_cons, List.cons_append, List.mem_cons] at hl
    rcases hl with rfl | hl
    · exact ⟨[], previous, 0x0a :: (f.data ++ crlf ++ (frames.flatMap Frame.bytes ++ (line ++ crlf ++ tail))),
        .nil previous, hfits'.isLine, by simp [crlf, Frame.bytes]⟩
    · obtain ⟨before, middle, after, hbefore, hline, heq⟩ := ih hfits hl
      refine ⟨f :: before, middle, after, .cons hdata hfits' hbefore, hline, ?_⟩
      rw [List.flatMap_cons, List.flatMap_cons, List.append_assoc, heq]
      simp only [List.append_assoc]

/-- **When slicing makes no difference.**  However the network slices a body, the decoder
accepts it or refuses it alike and passes on the same, if and only if each header line of
the body, where it is a body at all, is shorter than the limit. -/
theorem decode_slices_iff (C : Crypto) (context : Option ChunkSigningContext) (body : Bytes) :
    (∀ chunks chunks' : List Bytes, chunks.flatten = body → chunks'.flatten = body →
      (decode C context chunks).toOption = (decode C context chunks').toOption) ↔
    ∀ frames line, Framed C context (fresh context).previousSignature body frames line →
      ∀ l ∈ headerLines frames line, l.length < maxHeaderBytes := by
  constructor
  · intro hslices frames line hframed l hl
    by_contra hlong
    obtain ⟨⟨tail, -, hbody⟩, last, next, hchained, hfits⟩ := id hframed
    obtain ⟨before, middle, after, hbefore, hline, hcut⟩ := exists_cut tail hchained hfits hl
    have hwhole := decode_singleton_of_framed hframed
    have hparts := decode_longLine hbefore hline (Nat.le_of_not_lt hlong) [after]
    have hsame := hslices [body] [_, after] (List.flatten_singleton)
      (show [before.flatMap Frame.bytes ++ (l ++ [0x0d]), after].flatten = body by
        rw [hbody, hcut, List.flatten_cons, List.flatten_singleton])
    rw [hwhole, hparts] at hsame
    cases hsame
  · intro hshort chunks chunks' hchunks hchunks'
    have hsame : ∀ {chunks chunks' : List Bytes} {out : Bytes}, chunks.flatten = body →
        chunks'.flatten = body → decode C context chunks = .ok out →
        decode C context chunks' = .ok out := by
      intro chunks chunks' out hchunks hchunks' hout
      obtain ⟨frames, line, hframed, rfl⟩ := decode_framed hout
      rw [hchunks] at hframed
      exact decode_of_framed (hchunks' ▸ hframed) (hshort frames line hframed)
    cases hout : decode C context chunks with
    | ok out => rw [hsame hchunks hchunks' hout]
    | error e =>
      cases hout' : decode C context chunks' with
      | ok out' =>
        rw [hsame hchunks' hchunks hout'] at hout
        cases hout
      | error e' => rfl

/-- A header line of more than a thousand bytes, for the last chunk. -/
def longLine : Bytes := Text.bytes ('0' :: ';' :: List.replicate 1100 'x')

/-- **A long header line is accepted with its end, and refused without it.** -/
theorem longLine_slices :
    ¬ ∀ (body : Bytes) (chunks chunks' : List Bytes), chunks.flatten = body → chunks'.flatten = body →
      (decode Crypto.sample none chunks).toOption = (decode Crypto.sample none chunks').toOption := by
  intro h
  have hdecode : Utf8.decode longLine = '0' :: ';' :: List.replicate 1100 'x' := Utf8.decode_encode _
  have hsplit : Text.split ';' ('0' :: ';' :: List.replicate 1100 'x') =
      [['0'], List.replicate 1100 'x'] := by
    have hxs : ';' ∉ List.replicate 1100 'x' := fun hmem => absurd (List.eq_of_mem_replicate hmem) (by decide)
    rw [show '0' :: ';' :: List.replicate 1100 'x' = ['0'] ++ ';' :: List.replicate 1100 'x' from rfl,
      Text.split_append_cons, Text.split_of_not_mem hxs]
    rfl
  have hsize : lineSize longLine = some 0 := by
    rw [lineSize, hdecode, hsplit]
    decide
  have hreturn : (0x0d : UInt8) ∉ longLine := by
    intro hmem
    obtain ⟨c, hc, hvalue⟩ := mem_encode_ascii (by decide) hmem
    simp only [List.mem_cons, List.mem_replicate] at hc
    rcases hc with rfl | rfl | ⟨-, rfl⟩ <;> exact absurd hvalue (by decide)
  have hline : IsLine longLine := fun hsub => hreturn (hsub.mem List.mem_cons_self)
  have hlong : maxHeaderBytes ≤ longLine.length := by
    rw [longLine, Text.bytes, maxHeaderBytes]
    have hle := length_le_encode ('0' :: ';' :: List.replicate 1100 'x')
    rw [List.length_cons, List.length_cons, List.length_replicate] at hle
    omega
  have hwhole : decode Crypto.sample none [longLine ++ crlf ++ crlf] = .ok (payload []) :=
    decode_singleton_of_framed ⟨⟨crlf, Or.inr (List.prefix_rfl), rfl⟩, _, _, .nil _, hline, hsize, by simp, rfl⟩
  have hparts : decode Crypto.sample none
      [([] : List Frame).flatMap Frame.bytes ++ (longLine ++ [0x0d]), 0x0a :: crlf] =
      .error .malformedBody :=
    decode_longLine (.nil _) hline hlong [0x0a :: crlf]
  have hsame := h (longLine ++ crlf ++ crlf) [longLine ++ crlf ++ crlf]
    [longLine ++ [0x0d], 0x0a :: crlf] List.flatten_singleton (by simp [crlf])
  rw [hwhole] at hsame
  rw [List.flatMap_nil, List.nil_append] at hparts
  rw [hparts] at hsame
  cases hsame

/-! ## Header lines of a client -/

/-- The digits sizes and signatures are written in. -/
def hexDigits : Text := "0123456789abcdef".toList

/-- What a client puts in front of a chunk. -/
def headerText (size : ℕ) (signature : Option Text) : Text :=
  Nat.toDigits 16 size ++ match signature with
    | none => []
    | some signature => ';' :: ("chunk-signature=".toList ++ signature)

def headerLine (size : ℕ) (signature : Option Text) : Bytes := Text.bytes (headerText size signature)

/-- A signature: sixty-four hexadecimal digits. -/
structure IsSignature (signature : Text) : Prop where
  length : signature.length = 64
  digits : ∀ c ∈ signature, c ∈ hexDigits

theorem mem_toDigits {n : ℕ} {c : Char} (h : c ∈ Nat.toDigits 16 n) : c ∈ hexDigits := by
  have hdigit : ∀ d < 16, Nat.digitChar d ∈ hexDigits := by decide
  induction n using Nat.strongRecOn with
  | ind n ih =>
    rcases Nat.lt_or_ge n 16 with hn | hn
    · rw [Nat.toDigits_of_lt_base hn, List.mem_singleton] at h
      exact h ▸ hdigit n hn
    · rw [Nat.toDigits_of_base_le (by omega) hn, List.mem_append, List.mem_singleton] at h
      rcases h with h | rfl
      · exact ih (n / 16) (Nat.div_lt_self (by omega) (by omega)) h
      · exact hdigit _ (Nat.mod_lt _ (by omega))

theorem hexNumber_toDigits (n : ℕ) : hexNumber (Nat.toDigits 16 n) = n := by
  have hvalue : ∀ d < 16, Codec.hexValue (Nat.digitChar d) = some d := by decide
  induction n using Nat.strongRecOn with
  | ind n ih =>
    rcases Nat.lt_or_ge n 16 with hn | hn
    · rw [Nat.toDigits_of_lt_base hn, hexNumber, List.foldl_cons, List.foldl_nil, hvalue n hn,
        Option.getD_some]
      omega
    · have hrest := ih (n / 16) (Nat.div_lt_self (by omega) (by omega))
      rw [hexNumber] at hrest
      rw [Nat.toDigits_of_base_le (by omega) hn, hexNumber, List.foldl_append, hrest, List.foldl_cons,
        List.foldl_nil, hvalue _ (Nat.mod_lt _ (by omega)), Option.getD_some]
      omega

theorem isHexDigit_of_mem : ∀ c ∈ hexDigits, IsHexDigit c := Text.forall_mem_of_all (by decide)

theorem parseInt_toDigits (n : ℕ) : parseInt (Nat.toDigits 16 n) = some (n : ℤ) := by
  rw [parseInt_hex Nat.toDigits_ne_nil fun c hc => isHexDigit_of_mem c (mem_toDigits hc), hexNumber_toDigits]

theorem decode_headerLine (size : ℕ) (signature : Option Text) :
    Utf8.decode (headerLine size signature) = headerText size signature := Utf8.decode_encode _

theorem semicolon_not_mem {s : Text} (h : ∀ c ∈ s, c ∈ hexDigits) : ';' ∉ s := by
  intro hmem
  exact absurd (h _ hmem) (by decide)

/-- The pieces of a header line. -/
theorem split_headerText (size : ℕ) {signature : Option Text}
    (hsignature : ∀ s, signature = some s → IsSignature s) :
    Text.split ';' (headerText size signature) = Nat.toDigits 16 size ::
      match signature with
      | none => []
      | some signature => ["chunk-signature=".toList ++ signature] := by
  have hdigits : ';' ∉ Nat.toDigits 16 size := semicolon_not_mem fun _ => mem_toDigits
  cases signature with
  | none =>
    rw [headerText, List.append_nil]
    exact Text.split_of_not_mem hdigits
  | some signature =>
    have hvalue : ';' ∉ "chunk-signature=".toList ++ signature := by
      rw [List.mem_append, not_or]
      exact ⟨by decide, semicolon_not_mem (hsignature signature rfl).digits⟩
    rw [headerText, Text.split_append_cons, Text.split_of_not_mem hdigits, Text.split_of_not_mem hvalue]
    rfl

theorem lineSize_headerLine {size : ℕ} (hsize : size < 2 ^ 53) {signature : Option Text}
    (hsignature : ∀ s, signature = some s → IsSignature s) :
    lineSize (headerLine size signature) = some size := by
  have hinfinite : 2 ^ 53 ≤ infinite := by decide
  rw [lineSize, decode_headerLine, split_headerText size hsignature, List.headD_cons, parseInt_toDigits]
  dsimp only
  rw [if_pos ⟨Int.natCast_nonneg _, by rw [Int.toNat_natCast]; omega⟩, Int.toNat_natCast]

theorem extensionSignature_eq {signature : Text} (h : IsSignature signature) :
    extensionSignature ("chunk-signature=".toList ++ signature) = some signature := by
  have hspace : ∀ c ∈ "chunk-signature=".toList ++ hexDigits, Text.isSpace c = false :=
    Text.forall_mem_of_all (by decide)
  have hdot : ∀ c ∈ hexDigits, PoliciesService.dot c.toNat = true :=
    Text.forall_mem_of_all (by decide)
  have htrim : Text.trim ("chunk-signature=".toList ++ signature) = "chunk-signature=".toList ++ signature := by
    refine Text.trim_of_not_space fun c hc => hspace c ?_
    rw [List.mem_append] at hc ⊢
    exact hc.imp_right (h.digits c)
  have hne : signature ≠ [] := List.ne_nil_of_length_pos (by rw [h.length]; omega)
  simp only [extensionSignature]
  rw [htrim, List.drop_left, if_pos]
  exact ⟨List.prefix_append _ _, hne, List.all_eq_true.mpr fun c hc => hdot c (h.digits c hc)⟩

theorem lineSignature_headerLine (size : ℕ) {signature : Option Text}
    (hsignature : ∀ s, signature = some s → IsSignature s) :
    lineSignature (headerLine size signature) = signature := by
  rw [lineSignature, decode_headerLine, split_headerText size hsignature, List.tail_cons]
  cases signature with
  | none => rfl
  | some signature =>
    dsimp only
    rw [List.findSome?_cons, extensionSignature_eq (hsignature signature rfl)]

theorem mem_headerText {size : ℕ} {signature : Option Text}
    (hsignature : ∀ s, signature = some s → IsSignature s) {c : Char}
    (h : c ∈ headerText size signature) : c ∈ ";chunk-signature=".toList ++ hexDigits := by
  rw [headerText.eq_def, List.mem_append] at h
  rcases h with h | h
  · exact List.mem_append_right _ (mem_toDigits h)
  · cases signature with
    | none => cases h
    | some signature =>
      have hdigits := (hsignature signature rfl).digits c
      have hcons : (';' :: ("chunk-signature=".toList ++ signature)) =
          ";chunk-signature=".toList ++ signature := rfl
      dsimp only at h
      rw [hcons, List.mem_append] at h
      rw [List.mem_append]
      exact h.imp_right hdigits

theorem isLine_headerLine (size : ℕ) {signature : Option Text}
    (hsignature : ∀ s, signature = some s → IsSignature s) : IsLine (headerLine size signature) := by
  intro hsub
  have hmem : (0x0d : UInt8) ∈ Utf8.encode (headerText size signature) :=
    hsub.mem (List.mem_cons_self)
  obtain ⟨c, hc, hvalue⟩ := mem_encode_ascii (by decide) hmem
  have hchars : ∀ c ∈ ";chunk-signature=".toList ++ hexDigits, c.toNat ≠ 0x0d :=
    Text.forall_mem_of_all (by decide)
  exact hchars c (mem_headerText hsignature hc) hvalue

theorem length_encode_le (s : Text) : (Utf8.encode s).length ≤ 4 * s.length := by
  induction s with
  | nil => exact Nat.le_refl _
  | cons c s ih =>
    have hc : (String.utf8EncodeChar c).length ≤ 4 := by
      rcases Utf8.utf8EncodeChar_cases c with ⟨-, e⟩ | ⟨_, _, -, -, -, -, e⟩ | ⟨_, _, _, -, -, -, -, -, e⟩ |
        ⟨_, _, _, _, -, -, -, -, -, -, e⟩ <;> rw [e] <;> simp
    rw [Utf8.encode_cons, List.length_append, List.length_cons]
    omega

theorem length_headerLine {size : ℕ} (hsize : size < 2 ^ 53) {signature : Option Text}
    (hsignature : ∀ s, signature = some s → IsSignature s) :
    (headerLine size signature).length < maxHeaderBytes := by
  have hdigits : (Nat.toDigits 16 size).length ≤ 14 :=
    (Nat.length_toDigits_le_iff (by omega) (by omega)).mpr (by omega)
  have htext : (headerText size signature).length ≤ 95 := by
    rw [headerText.eq_def, List.length_append]
    cases signature with
    | none =>
      rw [List.length_nil]
      omega
    | some signature =>
      have hkey : "chunk-signature=".toList.length = 16 := by decide
      dsimp only
      rw [List.length_cons, List.length_append, hkey, (hsignature signature rfl).length]
      omega
  have hlength := length_encode_le (headerText size signature)
  rw [headerLine, Text.bytes, maxHeaderBytes]
  omega

/-! ## Payloads on the wire -/

/-- A chunk as a client sends it. -/
def wireFrame (chunk : Option Text × Bytes) : Frame := ⟨headerLine chunk.2.length chunk.1, chunk.2⟩

/-- **A payload on the wire**: its chunks, the header line of an empty one, header lines that
trail it, and an empty line. -/
def wire (chunks : List (Option Text × Bytes)) (last : Option Text) (trailers : List Bytes) : Bytes :=
  (chunks.map wireFrame).flatMap Frame.bytes ++
    (headerLine 0 last ++ crlf ++ (trailers.flatMap (· ++ crlf) ++ crlf))

/-- What the header lines carry: in a signed payload the signatures of the chunks and of the
empty one, from the seed on; in one that is not, whatever is a signature, or nothing. -/
def Carries (C : Crypto) (context : Option ChunkSigningContext) (chunks : List (Option Text × Bytes))
    (last : Option Text) : Prop :=
  match context with
  | some context =>
      chunks.map (·.1) ++ [last] =
        (sign C context context.seedSignature (chunks.map (·.2) ++ [[]])).map some
  | none => ∀ signature, some signature ∈ chunks.map (·.1) ++ [last] → IsSignature signature

theorem isSignature_hex (bs : Bytes) (h : bs.length = 32) : IsSignature (Codec.hex bs) :=
  ⟨by rw [Codec.length_hex, h], fun _ hc => Codec.mem_hex hc⟩

theorem isSignature_of_mem_sign {context : ChunkSigningContext} {previous signature : Text}
    {chunks : List Bytes} (h : signature ∈ sign C context previous chunks) : IsSignature signature := by
  induction chunks generalizing previous with
  | nil => cases h
  | cons chunk chunks ih =>
    rcases List.mem_cons.mp h with rfl | h
    · exact isSignature_hex _ (C.length_hmacSha256 _ _)
    · exact ih h

theorem Carries.isSignature {chunks : List (Option Text × Bytes)} {last : Option Text}
    (h : Carries C context chunks last) :
    ∀ signature, some signature ∈ chunks.map (·.1) ++ [last] → IsSignature signature := by
  cases context with
  | none => exact h
  | some context =>
    intro signature hmem
    rw [Carries] at h
    rw [h] at hmem
    obtain ⟨_, hsign, heq⟩ := List.mem_map.mp hmem
    exact Option.some.inj heq ▸ isSignature_of_mem_sign hsign

/-- A header line of a client fits. -/
theorem fits_headerLine {previous next : Text} {signature : Option Text} {data : Bytes}
    (hsize : data.length < 2 ^ 53) (hsignature : ∀ s, signature = some s → IsSignature s)
    (hsigned : context.isSome → signature ≠ none)
    (hchain : nextSignature C context previous signature data = .ok next) :
    Fits C context previous (headerLine data.length signature) data next where
  isLine := isLine_headerLine _ hsignature
  size := lineSize_headerLine hsize hsignature
  signed := by rwa [lineSignature_headerLine _ hsignature]
  chain := by rwa [lineSignature_headerLine _ hsignature]

theorem chained_signed {context : ChunkSigningContext} {chunks : List (Option Text × Bytes)}
    {last : Option Text} {previous : Text} (hchunks : ∀ c ∈ chunks, c.2 ≠ [] ∧ c.2.length < 2 ^ 53)
    (h : chunks.map (·.1) ++ [last] = (sign C context previous (chunks.map (·.2) ++ [[]])).map some) :
    ∃ end' next, Chained C (some context) previous (chunks.map wireFrame) end' ∧
      Fits C (some context) end' (headerLine 0 last) [] next := by
  have hnext : ∀ (previous : Text) (data : Bytes), nextSignature C (some context) previous
      (some (computeChunkSignature C context previous (Codec.hex (C.sha256 data)))) data =
        .ok (computeChunkSignature C context previous (Codec.hex (C.sha256 data))) :=
    fun _ _ => if_pos rfl
  have his : ∀ (previous : Text) (data : Bytes) (s : Text),
      some (computeChunkSignature C context previous (Codec.hex (C.sha256 data))) = some s → IsSignature s := by
    rintro previous data s ⟨⟩
    exact isSignature_hex _ (C.length_hmacSha256 _ _)
  induction chunks generalizing previous with
  | nil =>
    obtain ⟨rfl, -⟩ := List.cons.inj h
    exact ⟨previous, _, .nil previous,
      fits_headerLine (show ([] : Bytes).length < 2 ^ 53 by decide) (his previous []) (fun _ => nofun) (hnext previous [])⟩
  | cons chunk chunks ih =>
    obtain ⟨signature, data⟩ := chunk
    obtain ⟨hsignature, hrest⟩ := List.cons.inj h
    dsimp only at hsignature hrest
    subst hsignature
    obtain ⟨hne, hsize⟩ := hchunks _ List.mem_cons_self
    obtain ⟨end', next, hchained, hfits⟩ := ih (fun c hc => hchunks c (List.mem_cons_of_mem _ hc)) hrest
    exact ⟨end', next, .cons hne (fits_headerLine hsize (his previous data) (fun _ => nofun)
      (hnext previous data)) hchained, hfits⟩

theorem chained_unsigned {chunks : List (Option Text × Bytes)} {last : Option Text} (previous : Text)
    (hchunks : ∀ c ∈ chunks, c.2 ≠ [] ∧ c.2.length < 2 ^ 53)
    (h : ∀ signature, some signature ∈ chunks.map (·.1) ++ [last] → IsSignature signature) :
    Chained C none previous (chunks.map wireFrame) previous ∧
      Fits C none previous (headerLine 0 last) [] previous := by
  constructor
  · induction chunks with
    | nil => exact .nil previous
    | cons chunk chunks ih =>
      obtain ⟨hne, hsize⟩ := hchunks _ List.mem_cons_self
      refine .cons hne (fits_headerLine hsize (fun s hs => h s ?_) nofun rfl)
        (ih (fun c hc => hchunks c (List.mem_cons_of_mem _ hc)) fun s hs => h s (List.mem_cons_of_mem _ hs))
      rw [← hs]
      exact List.mem_cons_self
  · refine fits_headerLine (show ([] : Bytes).length < 2 ^ 53 by decide) (fun s hs => h s ?_) nofun rfl
    rw [← hs]
    exact List.mem_append_right _ List.mem_cons_self

theorem Carries.chained {chunks : List (Option Text × Bytes)} {last : Option Text}
    (h : Carries C context chunks last) (hchunks : ∀ c ∈ chunks, c.2 ≠ [] ∧ c.2.length < 2 ^ 53) :
    ∃ end' next, Chained C context (fresh context).previousSignature (chunks.map wireFrame) end' ∧
      Fits C context end' (headerLine 0 last) [] next := by
  cases context with
  | some context => exact chained_signed hchunks h
  | none => exact ⟨_, _, chained_unsigned _ hchunks h⟩

/-! ## A body has one reading -/

/-- The first frame of a body is determined. -/
theorem Framed.tail {previous next : Text} {f : Frame} {rest line : Bytes} {frames : List Frame}
    (h : Framed C context previous (f.bytes ++ rest) frames line) (hdata : f.data ≠ [])
    (hfits : Fits C context previous f.line f.data next) :
    ∃ frames', Framed C context next rest frames' line := by
  obtain ⟨⟨tail, htail, hbody⟩, last, next', hchained, hlast⟩ := h
  have hbytes : f.bytes ++ rest = f.line ++ crlf ++ (f.data ++ (crlf ++ rest)) := by
    rw [Frame.bytes]
    simp only [List.append_assoc]
  cases hchained with
  | nil =>
    rw [hbytes, List.flatMap_nil, List.nil_append] at hbody
    obtain ⟨hline, -⟩ := line_inj hfits.isLine hlast.isLine hbody
    have hsize := hfits.size
    rw [hline, hlast.size, Option.some.injEq, List.length_nil] at hsize
    exact absurd (List.eq_nil_of_length_eq_zero hsize.symm) hdata
  | @cons _ next'' _ g frames hdata' hfits' hchained' =>
    have hbytes' : (g :: frames).flatMap Frame.bytes ++ (line ++ crlf ++ tail) =
        g.line ++ crlf ++ (g.data ++ (crlf ++ (frames.flatMap Frame.bytes ++ (line ++ crlf ++ tail)))) := by
      rw [List.flatMap_cons, Frame.bytes]
      simp only [List.append_assoc]
    rw [hbytes, hbytes'] at hbody
    obtain ⟨hline, hrest⟩ := line_inj hfits.isLine hfits'.isLine hbody
    have hsize := hfits.size
    rw [hline, hfits'.size, Option.some.injEq] at hsize
    obtain ⟨hsame, hrest⟩ := List.append_inj hrest hsize.symm
    have hchain := hfits.chain
    rw [hline, hsame, hfits'.chain, Except.ok.injEq] at hchain
    exact ⟨frames, ⟨tail, htail, List.append_cancel_left hrest⟩, last, next', hchain ▸ hchained', hlast⟩

/-- Behind the header line of an empty chunk nothing stands but an empty line. -/
theorem Framed.last {previous : Text} {l tail line : Bytes} {frames : List Frame}
    (h : Framed C context previous (l ++ crlf ++ tail) frames line) (hl : IsLine l)
    (hsize : lineSize l = some 0) : tail = [] ∨ crlf <+: tail := by
  obtain ⟨⟨tail', htail, hbody⟩, last, next, hchained, hlast⟩ := h
  cases hchained with
  | nil =>
    rw [List.flatMap_nil, List.nil_append] at hbody
    obtain ⟨-, rfl⟩ := line_inj hl hlast.isLine hbody
    exact htail
  | @cons _ _ _ g frames hdata hfits _ =>
    rw [List.flatMap_cons, Frame.bytes] at hbody
    simp only [List.append_assoc] at hbody
    rw [← List.append_assoc, ← List.append_assoc g.line] at hbody
    obtain ⟨rfl, -⟩ := line_inj hl hfits.isLine hbody
    rw [hfits.size, Option.some.injEq] at hsize
    exact absurd (List.eq_nil_of_length_eq_zero hsize) hdata

theorem Framed.drop {previous end' next : Text} {frames frames' : List Frame} {rest line l : Bytes}
    (hchained : Chained C context previous frames' end') (hfits : Fits C context end' l [] next)
    (h : Framed C context previous (frames'.flatMap Frame.bytes ++ (l ++ crlf ++ rest)) frames line) :
    rest = [] ∨ crlf <+: rest := by
  induction hchained generalizing frames with
  | nil previous =>
    rw [List.flatMap_nil, List.nil_append] at h
    exact h.last hfits.isLine hfits.size
  | cons hdata hfits' _ ih =>
    rw [List.flatMap_cons, List.append_assoc] at h
    obtain ⟨frames', h'⟩ := h.tail hdata hfits'
    exact ih hfits h'

/-- The trailing header lines begin with an empty line only if there are none, or the first is
empty. -/
theorem crlf_prefix_trailers {trailers : List Bytes} (h : ∀ t ∈ trailers, IsLine t) :
    crlf <+: trailers.flatMap (· ++ crlf) ++ crlf ↔ trailers.head?.getD [] = [] := by
  rcases trailers with _ | ⟨t, trailers⟩
  · simp
  · have hline := h t List.mem_cons_self
    rw [List.flatMap_cons, List.head?_cons, Option.getD_some]
    constructor
    · intro hpre
      by_contra hne
      obtain ⟨rest, hrest⟩ := hpre
      have hempty : IsLine [] := by rw [IsLine, List.infix_nil]; decide
      have hsplit : [] ++ crlf ++ rest = t ++ crlf ++ (trailers.flatMap (· ++ crlf) ++ crlf) := by
        rw [List.nil_append, hrest, List.append_assoc]
      exact hne (line_inj hempty hline hsplit).1.symm
    · rintro rfl
      rw [List.nil_append, List.append_assoc]
      exact List.prefix_append _ _

/-- **When what a client sends is read back.**  Whatever the pieces a payload comes in, signed
or not, the decoder accepts it and passes on its chunks if and only if no trailing header line
follows the last chunk. -/
theorem decode_wire_iff (C : Crypto) (context : Option ChunkSigningContext)
    (chunks : List (Option Text × Bytes)) (last : Option Text) (trailers writes : List Bytes)
    (hchunks : ∀ c ∈ chunks, c.2 ≠ [] ∧ c.2.length < 2 ^ 53) (hcarries : Carries C context chunks last)
    (htrailers : ∀ t ∈ trailers, IsLine t) (hwrites : writes.flatten = wire chunks last trailers) :
    decode C context writes = .ok (chunks.map (·.2)).flatten ↔ trailers.head?.getD [] = [] := by
  obtain ⟨end', next, hchained, hfits⟩ := hcarries.chained hchunks
  rw [← crlf_prefix_trailers htrailers]
  constructor
  · intro hdecode
    obtain ⟨frames, line, hframed, -⟩ := decode_framed hdecode
    rw [hwrites, wire] at hframed
    refine (Framed.drop hchained hfits hframed).resolve_left ?_
    exact List.append_ne_nil_of_right_ne_nil _ (List.cons_ne_nil _ _)
  · intro hcrlf
    have hframed : Framed C context (fresh context).previousSignature writes.flatten
        (chunks.map wireFrame) (headerLine 0 last) :=
      ⟨⟨_, Or.inr hcrlf, hwrites⟩, end', next, hchained, hfits⟩
    have hshort : ∀ l ∈ headerLines (chunks.map wireFrame) (headerLine 0 last),
        l.length < maxHeaderBytes := by
      intro l hl
      rw [headerLines, List.map_map, List.mem_append, List.mem_map, List.mem_singleton] at hl
      rcases hl with ⟨chunk, hchunk, rfl⟩ | rfl
      · refine length_headerLine (hchunks chunk hchunk).2 fun s hs => hcarries.isSignature s ?_
        rw [← hs]
        exact List.mem_append_left _ (List.mem_map_of_mem hchunk)
      · refine length_headerLine (by decide) fun s hs => hcarries.isSignature s ?_
        rw [← hs]
        exact List.mem_append_right _ List.mem_cons_self
    rw [decode_of_framed hframed hshort, payload, List.flatMap_map]
    rfl

/-- A chunk that is not signed, and a checksum behind the last one. -/
def greeting : List (Option Text × Bytes) := [(none, Text.bytes "hello".toList)]

def checksum : Bytes := Text.bytes "x-amz-checksum-crc32:NhCmhg==".toList

theorem decode_wire_iff_greeting :
    decode Crypto.sample none [wire greeting none [checksum]] ≠ .ok (greeting.map (·.2)).flatten := by
  have hchecksum : IsLine checksum := by
    rw [IsLine]
    decide
  rw [ne_eq, decode_wire_iff Crypto.sample none greeting none [checksum] [wire greeting none [checksum]]
    (by decide) (by rintro signature hmem; simp [greeting] at hmem)
    (fun t ht => List.mem_singleton.mp ht ▸ hchecksum) List.flatten_singleton]
  decide

/-- **A trailing checksum is refused**, as the payload modes with a trailer send it. -/
theorem trailer_refused :
    ¬ ∀ (C : Crypto) (context : Option ChunkSigningContext) (chunks : List (Option Text × Bytes))
      (last : Option Text) (trailers writes : List Bytes),
      (∀ c ∈ chunks, c.2 ≠ [] ∧ c.2.length < 2 ^ 53) → Carries C context chunks last →
      (∀ t ∈ trailers, IsLine t) → writes.flatten = wire chunks last trailers →
      decode C context writes = .ok (chunks.map (·.2)).flatten := by
  intro h
  have hchecksum : IsLine checksum := by
    rw [IsLine]
    decide
  have haccepted := h Crypto.sample none greeting none [checksum] [wire greeting none [checksum]]
    (by decide) (by rintro signature hmem; simp [greeting] at hmem)
    (fun t ht => List.mem_singleton.mp ht ▸ hchecksum) List.flatten_singleton
  have hrefused : decode Crypto.sample none [wire greeting none [checksum]] = .error .malformedBody := by
    decide
  rw [hrefused] at haccepted
  cases haccepted

end S3ChunkedStream
end SimpleStorage
