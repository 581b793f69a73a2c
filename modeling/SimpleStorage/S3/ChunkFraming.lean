import SimpleStorage.S3.S3ChunkedStream

/-!
# What the decoder accepts

The decoder is a machine with four states; what it decides is a grammar.  A body is a
sequence of frames, a header line and data each, with a last header line behind them that
names the size 0 and an empty line behind that, which may be missing.  Each header line
continues the chain of signatures.

* `decode_framed`: what is accepted is such a body, and what is passed on is its data.
* `decode_of_framed`: such a body is accepted, in whatever pieces it comes, if its header
  lines are shorter than the decoder's limit, and in one piece if they are not.
* `decode_longLine`: with a longer header line, there are pieces that are refused.
-/

namespace SimpleStorage
namespace S3ChunkedStream

open S3Types

variable {C : Crypto} {context : Option ChunkSigningContext}

/-! ## Lines -/

/-- A line without a line end in it. -/
def IsLine (line : Bytes) : Prop := ¬ crlf <:+: line

theorem indexOfCrlf_eq_none {bs : Bytes} (h : IsLine bs) : indexOfCrlf bs = none := by
  induction bs with
  | nil => rfl
  | cons b bs ih =>
    rw [indexOfCrlf, if_neg fun hpre => h hpre.isInfix,
      ih fun hsub => h (hsub.trans (List.suffix_cons b bs).isInfix), Option.map_none]

/-- The end of a line is found. -/
theorem indexOfCrlf_append {line : Bytes} (h : IsLine line) (rest : Bytes) :
    indexOfCrlf (line ++ crlf ++ rest) = some line.length := by
  induction line with
  | nil =>
    rw [List.nil_append, List.length_nil]
    rfl
  | cons b line ih =>
    have htail : IsLine line := fun hsub => h (hsub.trans (List.suffix_cons b line).isInfix)
    have hhead : ¬ crlf <+: b :: (line ++ crlf ++ rest) := by
      rintro ⟨suffix, hsuffix⟩
      simp only [crlf, List.cons_append, List.nil_append, List.cons.injEq] at hsuffix
      obtain ⟨rfl, hsuffix⟩ := hsuffix
      rcases line with _ | ⟨c, line⟩
      · cases hsuffix
      · obtain ⟨rfl, -⟩ := List.cons.inj hsuffix
        exact h ⟨[], line, rfl⟩
    rw [List.cons_append, List.cons_append, indexOfCrlf, if_neg hhead, ih htail, Option.map_some,
      List.length_cons]

/-- A line end that is found ends a line. -/
theorem indexOfCrlf_eq_some {bs : Bytes} {index : ℕ} (h : indexOfCrlf bs = some index) :
    IsLine (bs.take index) ∧ bs = bs.take index ++ crlf ++ bs.drop (index + crlf.length) := by
  induction bs generalizing index with
  | nil => cases h
  | cons b bs ih =>
    rw [indexOfCrlf] at h
    split_ifs at h with hpre
    · obtain rfl := Option.some.inj h
      obtain ⟨rest, hrest⟩ := hpre
      refine ⟨fun hsub => ?_, ?_⟩
      · rw [List.take_zero, List.infix_nil] at hsub
        cases hsub
      · rw [← hrest, List.take_zero, List.nil_append, Nat.zero_add, List.drop_left]
    · obtain ⟨index, hindex, rfl⟩ := Option.map_eq_some_iff.mp h
      obtain ⟨hline, heq⟩ := ih hindex
      have htake : b :: bs = b :: bs.take index ++ crlf ++ bs.drop (index + crlf.length) := by
        rw [List.cons_append, List.cons_append, ← heq]
      refine ⟨fun hsub => ?_, ?_⟩
      · rw [List.take_succ_cons, List.infix_cons_iff] at hsub
        rcases hsub with hsub | hsub
        · refine hpre (hsub.trans ?_)
          conv_rhs => rw [htake]
          rw [List.append_assoc]
          exact List.prefix_append _ _
        · exact hline hsub
      · rw [List.take_succ_cons, Nat.add_right_comm, List.drop_succ_cons]
        exact htake

/-- What stands before the first line end, and what follows it. -/
theorem line_inj {line line' rest rest' : Bytes} (h : IsLine line) (h' : IsLine line')
    (heq : line ++ crlf ++ rest = line' ++ crlf ++ rest') : line = line' ∧ rest = rest' := by
  have hindex := indexOfCrlf_append h rest
  rw [heq, indexOfCrlf_append h' rest', Option.some.injEq] at hindex
  rw [List.append_assoc, List.append_assoc] at heq
  obtain ⟨hline, hrest⟩ := List.append_inj heq hindex.symm
  exact ⟨hline, List.append_cancel_left hrest⟩

/-- A line with half a line end is a line. -/
theorem IsLine.concat {line : Bytes} (h : IsLine line) {b : UInt8} (hb : b ≠ 0x0a) :
    IsLine (line ++ [b]) := by
  rintro ⟨pre, post, heq⟩
  rcases List.eq_nil_or_concat post with rfl | ⟨post, c, rfl⟩
  · rw [List.append_nil] at heq
    have hlast := congrArg List.getLast? heq
    simp [crlf] at hlast
    exact hb hlast.symm
  · rw [List.concat_eq_append, ← List.append_assoc] at heq
    exact h ⟨pre, post, (List.append_inj' heq rfl).1⟩

/-- **Has the first line arrived?**  What has arrived of a body either contains its first
line and the line end, or is no longer than the line with half of its end. -/
theorem line_cases {line pending rest after : Bytes} (h : IsLine line)
    (heq : pending ++ rest = line ++ crlf ++ after) :
    (∃ arrived, pending = line ++ crlf ++ arrived ∧ arrived ++ rest = after) ∨
      (IsLine pending ∧ pending.length ≤ line.length + 1 ∧ rest ≠ []) := by
  have hpending : pending <+: pending ++ rest := List.prefix_append _ _
  by_cases hlength : line.length + 2 ≤ pending.length
  · have hline : line ++ crlf <+: pending ++ rest := by
      rw [heq]
      exact List.prefix_append _ _
    obtain ⟨arrived, harrived⟩ := List.prefix_of_prefix_length_le hline hpending (by
      rw [List.length_append]
      exact hlength)
    refine Or.inl ⟨arrived, harrived.symm, ?_⟩
    rw [← harrived, List.append_assoc] at heq
    exact List.append_cancel_left heq
  · have hline : line ++ [0x0d] <+: pending ++ rest := by
      rw [heq]
      exact ⟨[0x0a] ++ after, by simp [crlf]⟩
    have hpre : pending <+: line ++ [0x0d] :=
      List.prefix_of_prefix_length_le hpending hline (by
        rw [List.length_append, List.length_singleton]
        omega)
    refine Or.inr ⟨fun hsub => ?_, by omega, ?_⟩
    · exact h.concat (by decide) (hsub.trans hpre.isInfix)
    · rintro rfl
      have hcount := congrArg List.length heq
      simp only [List.append_nil, List.length_append, crlf, List.length_cons, List.length_nil] at hcount
      omega

/-! ## The grammar -/

/-- A header line, and the data behind it. -/
structure Frame where
  line : Bytes
  data : Bytes

/-- A frame on the wire. -/
def Frame.bytes (f : Frame) : Bytes := f.line ++ crlf ++ f.data ++ crlf

/-- **A header line that fits its data** and continues the chain of signatures. -/
structure Fits (C : Crypto) (context : Option ChunkSigningContext) (previous : Text) (line data : Bytes)
    (next : Text) : Prop where
  isLine : IsLine line
  size : lineSize line = some data.length
  signed : context.isSome → lineSignature line ≠ none
  chain : nextSignature C context previous (lineSignature line) data = .ok next

/-- Frames that continue the chain of signatures from one point to another. -/
inductive Chained (C : Crypto) (context : Option ChunkSigningContext) : Text → List Frame → Text → Prop
  | nil (previous : Text) : Chained C context previous [] previous
  | cons {previous next last : Text} {f : Frame} {frames : List Frame} (hdata : f.data ≠ [])
      (hfits : Fits C context previous f.line f.data next) (htail : Chained C context next frames last) :
      Chained C context previous (f :: frames) last

/-- **A complete body**: frames, the header line of the last, empty chunk, and an empty line
that may be missing. -/
structure Framed (C : Crypto) (context : Option ChunkSigningContext) (previous : Text) (body : Bytes)
    (frames : List Frame) (line : Bytes) : Prop where
  body_eq : ∃ tail, (tail = [] ∨ crlf <+: tail) ∧
    body = frames.flatMap Frame.bytes ++ (line ++ crlf ++ tail)
  chained : ∃ last next, Chained C context previous frames last ∧ Fits C context last line [] next

/-- The header lines of a body. -/
def headerLines (frames : List Frame) (line : Bytes) : List Bytes := frames.map Frame.line ++ [line]

/-- The data of a body. -/
def payload (frames : List Frame) : Bytes := frames.flatMap Frame.data

theorem Chained.concat {previous last next : Text} {frames : List Frame} {f : Frame}
    (h : Chained C context previous frames last) (hdata : f.data ≠ [])
    (hfits : Fits C context last f.line f.data next) :
    Chained C context previous (frames ++ [f]) next := by
  induction h with
  | nil previous => exact .cons hdata hfits (.nil next)
  | cons hdata' hfits' _ ih => exact .cons hdata' hfits' (ih hfits)

/-! ## What is accepted is a body -/

/-- What the decoder knows inside a chunk: the frames before it and its header line. -/
structure InChunk (C : Crypto) (context : Option ChunkSigningContext) (seed : Text)
    (frames : List Frame) (line fed emitted : Bytes) (s : Stream) : Prop where
  chained : Chained C context seed frames s.previousSignature
  isLine : IsLine line
  signature : lineSignature line = s.chunkSignature
  signed : context.isSome → lineSignature line ≠ none
  fed_eq : fed = frames.flatMap Frame.bytes ++ (line ++ crlf ++ (s.hashed ++ s.pending))
  emitted_eq : emitted = payload frames ++ s.hashed

/-- **How the state of the decoder comes from what it was fed**, and what it has passed on. -/
inductive Decoded (C : Crypto) (context : Option ChunkSigningContext) (seed : Text) (fed emitted : Bytes)
    (s : Stream) : Prop
  | header {frames : List Frame} (hstate : s.state = .header)
      (hchained : Chained C context seed frames s.previousSignature)
      (hfed : fed = frames.flatMap Frame.bytes ++ s.pending) (hemitted : emitted = payload frames)
  | data {frames : List Frame} {line : Bytes} (hstate : s.state = .data)
      (hchunk : InChunk C context seed frames line fed emitted s)
      (hsize : lineSize line = some (s.hashed.length + s.remaining)) (hremaining : 0 < s.remaining)
      (hfinal : s.isFinalChunk = false)
  | terminator {frames : List Frame} {line : Bytes} (hstate : s.state = .terminator)
      (hchunk : InChunk C context seed frames line fed emitted s)
      (hsize : lineSize line = some s.hashed.length)
      (hfinal : s.isFinalChunk = decide (s.hashed = []))
  | done {frames : List Frame} {line tail : Bytes} {last next : Text} (hstate : s.state = .done)
      (hchained : Chained C context seed frames last) (hfits : Fits C context last line [] next)
      (htail : crlf <+: tail)
      (hfed : fed = frames.flatMap Frame.bytes ++ (line ++ crlf ++ tail))
      (hemitted : emitted = payload frames)

variable {seed : Text} {fed emitted : Bytes} {s s' : Stream} {advanced : Bool} {pushed : Bytes}

theorem payload_cons (f : Frame) (frames : List Frame) :
    payload (f :: frames) = f.data ++ payload frames := List.flatMap_cons

theorem payload_concat (frames : List Frame) (f : Frame) :
    payload (frames ++ [f]) = payload frames ++ f.data := by
  rw [payload, payload, List.flatMap_append, List.flatMap_singleton]

theorem decoded_consumeHeader (h : Decoded C context seed fed emitted s) (hstate : s.state = .header)
    (hstep : consumeHeader context s = .ok (advanced, s', pushed)) :
    Decoded C context seed fed (emitted ++ pushed) s' := by
  cases h with
  | data hstate' | terminator hstate' | done hstate' => rw [hstate] at hstate'; cases hstate'
  | header _ hchained hfed hemitted =>
    rw [consumeHeader] at hstep
    split at hstep
    · split_ifs at hstep
      cases hstep
      exact .header hstate hchained hfed (by rw [hemitted, List.append_nil])
    · next index hindex =>
      obtain ⟨hline, hpending⟩ := indexOfCrlf_eq_some hindex
      dsimp only at hstep
      split at hstep
      · cases hstep
      · next size hsize =>
        split_ifs at hstep with hsigned
        cases hstep
        have hchunk : InChunk C context seed _ (s.pending.take index) fed (emitted ++ [])
            (s.enter (s.pending.drop (index + crlf.length)) size (lineSignature (s.pending.take index))) :=
          { chained := hchained
            isLine := hline
            signature := rfl
            signed := fun hsome hnone => hsigned ⟨hsome, hnone⟩
            fed_eq := by rw [hfed, Stream.enter, List.nil_append, ← hpending]
            emitted_eq := by rw [hemitted, Stream.enter] }
        by_cases hzero : size = 0
        · subst hzero
          exact .terminator rfl hchunk hsize rfl
        · refine .data (if_neg hzero) hchunk ?_ (Nat.pos_of_ne_zero hzero) (decide_eq_false hzero)
          rw [hsize, Stream.enter, List.length_nil, Nat.zero_add]

theorem decoded_consumeData (h : Decoded C context seed fed emitted s) (hstate : s.state = .data)
    (hstep : consumeData s = (advanced, s', pushed)) :
    Decoded C context seed fed (emitted ++ pushed) s' := by
  cases h with
  | header hstate' | terminator hstate' | done hstate' => rw [hstate] at hstate'; cases hstate'
  | data _ hchunk hsize hremaining hfinal =>
    rw [consumeData] at hstep
    split_ifs at hstep with hempty
    · cases hstep
      exact .data hstate { hchunk with emitted_eq := by rw [List.append_nil, hchunk.emitted_eq] } hsize
        hremaining hfinal
    have hlength : (s.pending.take (min s.remaining s.pending.length)).length =
        min s.remaining s.pending.length := by
      rw [List.length_take]
      omega
    have hfed : s.hashed ++ s.pending =
        s.hashed ++ s.pending.take (min s.remaining s.pending.length) ++
          s.pending.drop (min s.remaining s.pending.length) := by
      rw [List.append_assoc, List.take_append_drop]
    dsimp only at hstep
    split_ifs at hstep with hmore
    · cases hstep
      refine .data hstate { hchunk with fed_eq := ?_, emitted_eq := ?_ } ?_ hmore hfinal
      · rw [hchunk.fed_eq, hfed]
      · rw [hchunk.emitted_eq, List.append_assoc]
      · rw [hsize, List.length_append, hlength]
        dsimp only
        congr 1
        omega
    · cases hstep
      have hnonempty : s.hashed ++ s.pending.take (min s.remaining s.pending.length) ≠ [] := by
        intro hnil
        have hcount := congrArg List.length hnil
        have hpos := List.length_pos_of_ne_nil hempty
        rw [List.length_append, hlength, List.length_nil] at hcount
        omega
      refine .terminator rfl { hchunk with fed_eq := ?_, emitted_eq := ?_ } ?_ ?_
      · rw [hchunk.fed_eq, hfed]
      · rw [hchunk.emitted_eq, List.append_assoc]
      · rw [hsize, List.length_append, hlength]
        congr 1
        omega
      · rw [hfinal, decide_eq_false hnonempty]

/-- **What a verified chunk is.** -/
theorem InChunk.fits {frames : List Frame} {line : Bytes}
    (h : InChunk C context seed frames line fed emitted s) (hsize : lineSize line = some s.hashed.length)
    {next : Text}
    (hnext : nextSignature C context s.previousSignature s.chunkSignature s.hashed = .ok next) :
    Fits C context s.previousSignature line s.hashed next :=
  ⟨h.isLine, hsize, h.signed, by rw [h.signature, hnext]⟩

theorem decoded_consumeTerminator (h : Decoded C context seed fed emitted s)
    (hstate : s.state = .terminator)
    (hstep : consumeTerminator C context s = .ok (advanced, s', pushed)) :
    Decoded C context seed fed (emitted ++ pushed) s' := by
  cases h with
  | header hstate' | data hstate' | done hstate' => rw [hstate] at hstate'; cases hstate'
  | @terminator frames line _ hchunk hsize hfinal =>
    rw [consumeTerminator] at hstep
    split_ifs at hstep with hshort hother
    · cases hstep
      exact .terminator hstate { hchunk with emitted_eq := by rw [List.append_nil, hchunk.emitted_eq] }
        hsize hfinal
    · rw [not_not] at hother
      have hpending : s.pending = crlf ++ s.pending.drop crlf.length := by
        conv_lhs => rw [← List.take_append_drop crlf.length s.pending, hother]
      cases hnext : nextSignature C context s.previousSignature s.chunkSignature s.hashed with
      | error e =>
        simp only [verifyChunk, hnext] at hstep
        cases hstep
      | ok next =>
        simp only [verifyChunk, hnext] at hstep
        cases hstep
        have hfits := hchunk.fits hsize hnext
        by_cases hdata : s.hashed = []
        · have hfinal' : s.isFinalChunk = true := by rw [hfinal, decide_eq_true hdata]
          refine .done (if_pos hfinal') hchunk.chained (hdata ▸ hfits)
            (List.prefix_append crlf (s.pending.drop crlf.length)) ?_ ?_
          · rw [hchunk.fed_eq, hdata, List.nil_append, ← hpending]
          · rw [hchunk.emitted_eq, hdata, List.append_nil, List.append_nil]
        · have hfinal' : s.isFinalChunk = false := by rw [hfinal, decide_eq_false hdata]
          refine .header (if_neg (by rw [hfinal']; exact Bool.false_ne_true))
            (Chained.concat (f := ⟨line, s.hashed⟩) hchunk.chained hdata hfits) ?_ ?_
          · rw [hchunk.fed_eq, List.flatMap_append, List.flatMap_singleton, Frame.bytes]
            conv_lhs => rw [hpending]
            simp only [List.append_assoc]
          · rw [hchunk.emitted_eq, payload_concat, List.append_nil]

/-- **A step keeps to the grammar.** -/
theorem decoded_advance (h : Decoded C context seed fed emitted s)
    (hstep : advance C context s = .ok (advanced, s', pushed)) :
    Decoded C context seed fed (emitted ++ pushed) s' := by
  rw [advance] at hstep
  split at hstep
  · next hstate => exact decoded_consumeHeader h hstate hstep
  · next hstate => exact decoded_consumeData h hstate (Except.ok.inj hstep)
  · next hstate => exact decoded_consumeTerminator h hstate hstep
  · next hstate =>
    cases hstep
    cases h with
    | header hstate' | data hstate' | terminator hstate' => rw [hstate] at hstate'; cases hstate'
    | done _ hchained hfits htail hfed hemitted =>
      exact .done hstate hchained hfits htail hfed (by rw [hemitted, List.append_nil])

theorem decoded_consume {fuel : ℕ} (h : Decoded C context seed fed emitted s)
    (hrun : consume C context fuel s = .ok (s', pushed)) :
    Decoded C context seed fed (emitted ++ pushed) s' := by
  induction fuel generalizing s emitted pushed with
  | zero =>
    cases hrun
    rwa [List.append_nil]
  | succ fuel ih =>
    rw [consume] at hrun
    cases hstep : advance C context s with
    | error e =>
      rw [hstep] at hrun
      cases hrun
    | ok r =>
      obtain ⟨advanced, t, first⟩ := r
      rw [hstep] at hrun
      have hnext := decoded_advance h hstep
      cases advanced with
      | false =>
        cases hrun
        exact hnext
      | true =>
        cases hrest : consume C context fuel t with
        | error e =>
          simp only [bind, Except.bind, if_true, hrest] at hrun
          cases hrun
        | ok r =>
          obtain ⟨t', more⟩ := r
          simp only [bind, Except.bind, if_true, hrest] at hrun
          cases hrun
          rw [← List.append_assoc]
          exact ih hnext hrest

/-- What arrives is fed. -/
theorem Decoded.arrive (h : Decoded C context seed fed emitted s) (chunk : Bytes) :
    Decoded C context seed (fed ++ chunk) emitted { s with pending := s.pending ++ chunk } := by
  cases h with
  | header hstate hchained hfed hemitted =>
    exact .header hstate hchained (by rw [hfed, List.append_assoc]) hemitted
  | data hstate hchunk hsize hremaining hfinal =>
    refine .data hstate { hchunk with fed_eq := ?_ } hsize hremaining hfinal
    rw [hchunk.fed_eq]
    simp only [List.append_assoc]
  | terminator hstate hchunk hsize hfinal =>
    refine .terminator hstate { hchunk with fed_eq := ?_ } hsize hfinal
    rw [hchunk.fed_eq]
    simp only [List.append_assoc]
  | done hstate hchained hfits htail hfed hemitted =>
    refine .done hstate hchained hfits (htail.trans (List.prefix_append _ chunk)) ?_ hemitted
    rw [hfed]
    simp only [List.append_assoc]

theorem decoded_writes {chunks : List Bytes} (h : Decoded C context seed fed emitted s)
    (hrun : writes C context s chunks = .ok (s', pushed)) :
    Decoded C context seed (fed ++ chunks.flatten) (emitted ++ pushed) s' := by
  induction chunks generalizing s fed emitted pushed with
  | nil =>
    cases hrun
    rwa [List.flatten_nil, List.append_nil, List.append_nil]
  | cons chunk chunks ih =>
    rw [writes] at hrun
    cases hfirst : transform C context s chunk with
    | error e =>
      rw [hfirst] at hrun
      cases hrun
    | ok r =>
      obtain ⟨t, first⟩ := r
      cases hrest : writes C context t chunks with
      | error e =>
        simp only [hfirst, bind, Except.bind, hrest] at hrun
        cases hrun
      | ok r =>
        obtain ⟨t', more⟩ := r
        simp only [hfirst, bind, Except.bind, hrest] at hrun
        cases hrun
        rw [List.flatten_cons, ← List.append_assoc, ← List.append_assoc]
        exact ih (decoded_consume (h.arrive chunk) hfirst) hrest

theorem decoded_fresh : Decoded C context (fresh context).previousSignature [] [] (fresh context) :=
  .header rfl (.nil _) rfl rfl

/-- **A payload that ends without error is a body**, and all that was passed on is its data. -/
theorem framed_of_flush (h : Decoded C context seed fed emitted s) (hend : flush C context s = .ok ()) :
    ∃ frames line, Framed C context seed fed frames line ∧ emitted = payload frames := by
  cases h with
  | header hstate | data hstate =>
    rw [flush, if_neg (by rw [hstate]; simp)] at hend
    simp [hstate, bind, Except.bind, pure, Except.pure] at hend
  | @done frames line tail last next hstate hchained hfits htail hfed hemitted =>
    exact ⟨frames, line, ⟨⟨tail, Or.inr htail, hfed⟩, last, next, hchained, hfits⟩, hemitted⟩
  | @terminator frames line hstate hchunk hsize hfinal =>
    by_cases hfinish : s.isFinalChunk = true ∧ s.pending = []
    · have hdata : s.hashed = [] := of_decide_eq_true (hfinal.symm.trans hfinish.1)
      cases hnext : nextSignature C context s.previousSignature s.chunkSignature s.hashed with
      | error e =>
        rw [flush, if_pos ⟨hstate, hfinish⟩] at hend
        simp only [verifyChunk, hnext] at hend
        cases hend
      | ok next =>
        refine ⟨frames, line, ⟨⟨[], Or.inl rfl, ?_⟩, s.previousSignature, next, hchunk.chained,
          hdata ▸ hchunk.fits hsize hnext⟩, ?_⟩
        · rw [hchunk.fed_eq, hdata, hfinish.2, List.append_nil]
        · rw [hchunk.emitted_eq, hdata, List.append_nil]
    · rw [flush, if_neg fun hall => hfinish hall.2] at hend
      simp [hstate, bind, Except.bind, pure, Except.pure] at hend

/-- **What the decoder accepts is a body**, and it passes on the body's data. -/
theorem decode_framed {chunks : List Bytes} {out : Bytes} (h : decode C context chunks = .ok out) :
    ∃ frames line, Framed C context (fresh context).previousSignature chunks.flatten frames line ∧
      out = payload frames := by
  rw [decode] at h
  cases hrun : writes C context (fresh context) chunks with
  | error e =>
    rw [hrun] at h
    cases h
  | ok r =>
    obtain ⟨s, pushed⟩ := r
    have hdecoded := decoded_writes decoded_fresh hrun
    rw [List.nil_append, List.nil_append] at hdecoded
    cases hend : flush C context s with
    | error e =>
      simp only [hrun, bind, Except.bind, hend] at h
      cases h
    | ok _ =>
      simp only [hrun, bind, Except.bind, hend] at h
      cases h
      exact framed_of_flush hdecoded hend

/-! ## A body is accepted -/

theorem advance_header {line arrived : Bytes} {size : ℕ} (hstate : s.state = .header) (hline : IsLine line)
    (hpending : s.pending = line ++ crlf ++ arrived) (hsize : lineSize line = some size)
    (hsigned : context.isSome → lineSignature line ≠ none) :
    advance C context s = .ok (true, s.enter arrived size (lineSignature line), []) := by
  have htake : s.pending.take line.length = line := by
    rw [hpending, List.append_assoc, List.take_left]
  have hdrop : s.pending.drop (line.length + crlf.length) = arrived := by
    rw [hpending, ← List.length_append, List.drop_left]
  have hindex : indexOfCrlf s.pending = some line.length := by
    rw [hpending, indexOfCrlf_append hline]
  simp only [advance, hstate, consumeHeader, hindex, htake, hdrop, hsize]
  rw [if_neg fun h => hsigned h.1 h.2]

theorem advance_header_waits (hstate : s.state = .header) (hline : IsLine s.pending)
    (hlimit : s.pending.length ≤ maxHeaderBytes) : advance C context s = .ok (false, s, []) := by
  simp only [advance, hstate, consumeHeader, indexOfCrlf_eq_none hline]
  rw [if_neg (by omega)]

theorem advance_header_fails (hstate : s.state = .header) (hline : IsLine s.pending)
    (hlimit : maxHeaderBytes < s.pending.length) : advance C context s = .error .malformedBody := by
  simp only [advance, hstate, consumeHeader, indexOfCrlf_eq_none hline]
  rw [if_pos hlimit]

theorem advance_data {data arrived : Bytes} (hstate : s.state = .data) (hremaining : 0 < s.remaining)
    (hpending : s.pending = data ++ arrived) (hlength : data.length = s.remaining) :
    advance C context s = .ok (true, { s with
      pending := arrived
      remaining := 0
      hashed := s.hashed ++ data
      state := .terminator }, data) := by
  have hempty : s.pending ≠ [] := by
    rw [hpending]
    exact List.append_ne_nil_of_left_ne_nil (List.ne_nil_of_length_pos (by omega)) _
  have hmin : min s.remaining s.pending.length = data.length := by
    rw [hpending, List.length_append]
    omega
  have htake : s.pending.take data.length = data := by rw [hpending, List.take_left]
  have hdrop : s.pending.drop data.length = arrived := by rw [hpending, List.drop_left]
  have hnone : s.remaining - data.length = 0 := by omega
  simp only [advance, hstate, consumeData, if_neg hempty, hmin, htake, hdrop, hnone, Nat.lt_irrefl,
    if_false]

theorem advance_terminator {arrived : Bytes} {next : Text} (hstate : s.state = .terminator)
    (hpending : s.pending = crlf ++ arrived)
    (hnext : nextSignature C context s.previousSignature s.chunkSignature s.hashed = .ok next) :
    advance C context s = .ok (true, { s with
      pending := arrived
      previousSignature := next
      state := if s.isFinalChunk then .done else .header }, []) := by
  have htake : s.pending.take crlf.length = crlf := by rw [hpending, List.take_left]
  have hdrop : s.pending.drop crlf.length = arrived := by rw [hpending, List.drop_left]
  have hlength : ¬ s.pending.length < crlf.length := by
    rw [hpending, List.length_append]
    omega
  simp only [advance, hstate, consumeTerminator, if_neg hlength, htake, ne_eq, not_true_eq_false,
    if_false, verifyChunk, hnext, hdrop]
  rfl

theorem advance_terminator_waits (hstate : s.state = .terminator) (hlength : s.pending.length < crlf.length) :
    advance C context s = .ok (false, s, []) := by
  simp only [advance, hstate, consumeTerminator, if_pos hlength]

/-- **What is still to come** for a decoder to accept, and to pass on: the state and the rest
of the body fit. -/
inductive Expected (C : Crypto) (context : Option ChunkSigningContext) (s : Stream) (rest out : Bytes)
    (lines : List Bytes) : Prop
  | header {frames : List Frame} {line : Bytes} (hstate : s.state = .header)
      (hframed : Framed C context s.previousSignature (s.pending ++ rest) frames line)
      (hout : out = payload frames) (hlines : lines = headerLines frames line)
  | data {data after line : Bytes} {frames : List Frame} {next : Text} (hstate : s.state = .data)
      (hfinal : s.isFinalChunk = false) (hlength : data.length = s.remaining) (hremaining : 0 < s.remaining)
      (hbytes : s.pending ++ rest = data ++ (crlf ++ after))
      (hnext : nextSignature C context s.previousSignature s.chunkSignature (s.hashed ++ data) = .ok next)
      (hframed : Framed C context next after frames line) (hout : out = data ++ payload frames)
      (hlines : lines = headerLines frames line)
  | terminator {after line : Bytes} {frames : List Frame} {next : Text} (hstate : s.state = .terminator)
      (hfinal : s.isFinalChunk = false) (hbytes : s.pending ++ rest = crlf ++ after)
      (hnext : nextSignature C context s.previousSignature s.chunkSignature s.hashed = .ok next)
      (hframed : Framed C context next after frames line) (hout : out = payload frames)
      (hlines : lines = headerLines frames line)
  | last {next : Text} (hstate : s.state = .terminator) (hfinal : s.isFinalChunk = true)
      (hbytes : s.pending ++ rest = [] ∨ crlf <+: s.pending ++ rest)
      (hnext : nextSignature C context s.previousSignature s.chunkSignature s.hashed = .ok next)
      (hout : out = [])
  | done (hstate : s.state = .done) (hout : out = [])

/-- Nothing more can be done with what has arrived. -/
def Settled (s : Stream) : Prop :=
  match s.state with
  | .header => IsLine s.pending
  | .data => s.pending = []
  | .terminator => s.pending.length < crlf.length
  | .done => True

/-- A step towards the end of a body. -/
structure Step (C : Crypto) (context : Option ChunkSigningContext) (s : Stream) (rest out : Bytes)
    (lines : List Bytes) (advanced : Bool) (s' : Stream) (pushed : Bytes) : Prop where
  expected : ∃ out' lines', out = pushed ++ out' ∧ Expected C context s' rest out' lines' ∧
    ∀ line ∈ lines', line ∈ lines
  shorter : advanced = true → s'.pending.length < s.pending.length
  settled : advanced = false → Settled s'

variable {rest out : Bytes} {lines : List Bytes}

theorem expected_header {frames : List Frame} {line : Bytes} (hstate : s.state = .header)
    (hframed : Framed C context s.previousSignature (s.pending ++ rest) frames line)
    (hlimit : rest = [] ∨ ∀ l ∈ headerLines frames line, l.length < maxHeaderBytes) :
    ∃ advanced s' pushed, advance C context s = .ok (advanced, s', pushed) ∧
      Step C context s rest (payload frames) (headerLines frames line) advanced s' pushed := by
  obtain ⟨⟨tail, htail, hbody⟩, last, next, hchained, hfits⟩ := hframed
  have hwait : ∀ first ∈ headerLines frames line,
      IsLine s.pending ∧ s.pending.length ≤ first.length + 1 ∧ rest ≠ [] →
      ∃ advanced s' pushed, advance C context s = .ok (advanced, s', pushed) ∧
        Step C context s rest (payload frames) (headerLines frames line) advanced s' pushed := by
    rintro first hfirst ⟨hline, hlength, hrest⟩
    have hshort := (hlimit.resolve_left hrest) first hfirst
    refine ⟨false, s, [], advance_header_waits hstate hline (by omega), ⟨?_, nofun, fun _ => ?_⟩⟩
    · exact ⟨_, _, rfl, .header hstate ⟨⟨tail, htail, hbody⟩, last, next, hchained, hfits⟩ rfl rfl,
        fun _ h => h⟩
    · simp only [Settled, hstate]
      exact hline
  cases hchained with
  | nil =>
    rw [List.flatMap_nil, List.nil_append] at hbody
    rcases line_cases hfits.isLine hbody with ⟨arrived, hpending, harrived⟩ | hshort
    · refine ⟨true, _, [], advance_header hstate hfits.isLine hpending hfits.size hfits.signed, ⟨?_, ?_, nofun⟩⟩
      · refine ⟨[], [], rfl, .last rfl rfl ?_ hfits.chain rfl, nofun⟩
        rw [← harrived] at htail
        exact htail
      · intro _
        rw [hpending, Stream.enter, List.length_append, List.length_append]
        exact Nat.lt_add_of_pos_left (by simp [crlf])
    · exact hwait _ (by simp [headerLines]) hshort
  | @cons _ next' _ f frames hdata hfits' hchained' =>
    have hbody' : s.pending ++ rest =
        f.line ++ crlf ++ (f.data ++ (crlf ++ (frames.flatMap Frame.bytes ++ (line ++ crlf ++ tail)))) := by
      rw [hbody, List.flatMap_cons, Frame.bytes]
      simp only [List.append_assoc]
    rcases line_cases hfits'.isLine hbody' with ⟨arrived, hpending, harrived⟩ | hshort
    · have hpos := List.length_pos_of_ne_nil hdata
      refine ⟨true, _, [], advance_header hstate hfits'.isLine hpending hfits'.size hfits'.signed,
        ⟨?_, ?_, nofun⟩⟩
      · refine ⟨_, headerLines frames line, rfl, .data ?_ ?_ rfl hpos harrived ?_
          ⟨⟨tail, htail, rfl⟩, last, next, hchained', hfits⟩ ?_ rfl, fun l hl => List.mem_cons_of_mem _ hl⟩
        · exact if_neg hpos.ne'
        · exact decide_eq_false hpos.ne'
        · rw [Stream.enter, List.nil_append]
          exact hfits'.chain
        · exact payload_cons f frames
      · intro _
        rw [hpending, Stream.enter, List.length_append, List.length_append]
        exact Nat.lt_add_of_pos_left (by simp [crlf])
    · exact hwait _ (by simp [headerLines]) hshort

theorem expected_data {data after line : Bytes} {frames : List Frame} {next : Text}
    (hstate : s.state = .data) (hfinal : s.isFinalChunk = false) (hlength : data.length = s.remaining)
    (hremaining : 0 < s.remaining) (hbytes : s.pending ++ rest = data ++ (crlf ++ after))
    (hnext : nextSignature C context s.previousSignature s.chunkSignature (s.hashed ++ data) = .ok next)
    (hframed : Framed C context next after frames line) :
    ∃ advanced s' pushed, advance C context s = .ok (advanced, s', pushed) ∧
      Step C context s rest (data ++ payload frames) (headerLines frames line) advanced s' pushed := by
  by_cases hempty : s.pending = []
  · refine ⟨false, s, [], ?_, ⟨⟨_, _, rfl, .data hstate hfinal hlength hremaining hbytes hnext hframed rfl rfl,
      fun _ h => h⟩, nofun, fun _ => ?_⟩⟩
    · simp only [advance, hstate, consumeData, if_pos hempty]
    · simp only [Settled, hstate]
      exact hempty
  by_cases hall : s.remaining ≤ s.pending.length
  · -- The rest of the chunk has arrived.
    obtain ⟨arrived, harrived⟩ : data <+: s.pending := by
      refine List.prefix_of_prefix_length_le ⟨crlf ++ after, rfl⟩ ?_ (by omega)
      rw [← hbytes]
      exact List.prefix_append _ _
    have hrest : arrived ++ rest = crlf ++ after := by
      rw [← harrived, List.append_assoc] at hbytes
      exact List.append_cancel_left hbytes
    refine ⟨true, _, data, advance_data hstate hremaining harrived.symm hlength, ⟨?_, fun _ => ?_, nofun⟩⟩
    · exact ⟨_, _, rfl, .terminator rfl hfinal hrest hnext hframed rfl rfl, fun _ h => h⟩
    · dsimp only
      rw [← harrived, List.length_append]
      omega
  · -- All that has arrived belongs to the chunk.
    have hmin : min s.remaining s.pending.length = s.pending.length := Nat.min_eq_right (by omega)
    obtain ⟨more, hmore⟩ : s.pending <+: data := by
      refine List.prefix_of_prefix_length_le ⟨rest, hbytes⟩ (List.prefix_append _ _) (by omega)
    have hrest : rest = more ++ (crlf ++ after) := by
      rw [← hmore, List.append_assoc] at hbytes
      exact List.append_cancel_left hbytes
    have hcount : s.pending.length + more.length = s.remaining := by
      rw [← List.length_append, hmore, hlength]
    refine ⟨false, { s with
      pending := []
      remaining := s.remaining - s.pending.length
      hashed := s.hashed ++ s.pending }, s.pending, ?_, ⟨?_, nofun, fun _ => ?_⟩⟩
    · simp only [advance, hstate, consumeData, if_neg hempty, hmin, List.take_length, List.drop_length]
      rw [if_pos (by omega)]
    · refine ⟨more ++ payload frames, _, by rw [← hmore, List.append_assoc],
        .data hstate hfinal ?_ ?_ (by rw [List.nil_append, hrest]) ?_ hframed rfl rfl, fun _ h => h⟩
      · dsimp only
        omega
      · dsimp only
        omega
      · dsimp only
        rw [List.append_assoc, hmore]
        exact hnext
    · simp only [Settled, hstate]

theorem expected_terminator {after line : Bytes} {frames : List Frame} {next : Text}
    (hstate : s.state = .terminator) (hfinal : s.isFinalChunk = false)
    (hbytes : s.pending ++ rest = crlf ++ after)
    (hnext : nextSignature C context s.previousSignature s.chunkSignature s.hashed = .ok next)
    (hframed : Framed C context next after frames line) :
    ∃ advanced s' pushed, advance C context s = .ok (advanced, s', pushed) ∧
      Step C context s rest (payload frames) (headerLines frames line) advanced s' pushed := by
  by_cases hlength : s.pending.length < crlf.length
  · refine ⟨false, s, [], advance_terminator_waits hstate hlength, ⟨⟨_, _, rfl,
      .terminator hstate hfinal hbytes hnext hframed rfl rfl, fun _ h => h⟩, nofun, fun _ => ?_⟩⟩
    simp only [Settled, hstate]
    exact hlength
  · obtain ⟨arrived, harrived⟩ : crlf <+: s.pending := by
      refine List.prefix_of_prefix_length_le ⟨after, rfl⟩ ?_ (by omega)
      rw [← hbytes]
      exact List.prefix_append _ _
    have hafter : arrived ++ rest = after := by
      rw [← harrived, List.append_assoc] at hbytes
      exact List.append_cancel_left hbytes
    refine ⟨true, _, [], advance_terminator hstate harrived.symm hnext, ⟨?_, fun _ => ?_, nofun⟩⟩
    · rw [← hafter] at hframed
      refine ⟨_, _, rfl, .header ?_ hframed rfl rfl, fun _ h => h⟩
      exact if_neg (by rw [hfinal]; exact Bool.false_ne_true)
    · rw [← harrived, List.length_append]
      exact Nat.lt_add_of_pos_left (by simp [crlf])

theorem expected_last {next : Text} (hstate : s.state = .terminator) (hfinal : s.isFinalChunk = true)
    (hbytes : s.pending ++ rest = [] ∨ crlf <+: s.pending ++ rest)
    (hnext : nextSignature C context s.previousSignature s.chunkSignature s.hashed = .ok next) :
    ∃ advanced s' pushed, advance C context s = .ok (advanced, s', pushed) ∧
      Step C context s rest [] [] advanced s' pushed := by
  by_cases hlength : s.pending.length < crlf.length
  · refine ⟨false, s, [], advance_terminator_waits hstate hlength, ⟨⟨_, _, rfl,
      .last hstate hfinal hbytes hnext rfl, fun _ h => h⟩, nofun, fun _ => ?_⟩⟩
    simp only [Settled, hstate]
    exact hlength
  · have hcrlf : crlf <+: s.pending ++ rest := by
      refine hbytes.resolve_left fun hnil => hlength ?_
      rw [(List.append_eq_nil_iff.mp hnil).1]
      decide
    obtain ⟨arrived, harrived⟩ : crlf <+: s.pending :=
      List.prefix_of_prefix_length_le hcrlf (List.prefix_append _ _) (by omega)
    refine ⟨true, _, [], advance_terminator hstate harrived.symm hnext, ⟨?_, fun _ => ?_, nofun⟩⟩
    · exact ⟨[], [], rfl, .done (if_pos hfinal) rfl, nofun⟩
    · rw [← harrived, List.length_append]
      exact Nat.lt_add_of_pos_left (by simp [crlf])

/-- **A step goes on with what is expected.** -/
theorem Expected.advance (h : Expected C context s rest out lines)
    (hlimit : rest = [] ∨ ∀ line ∈ lines, line.length < maxHeaderBytes) :
    ∃ advanced s' pushed, advance C context s = .ok (advanced, s', pushed) ∧
      Step C context s rest out lines advanced s' pushed := by
  cases h with
  | header hstate hframed hout hlines =>
    subst hout hlines
    exact expected_header hstate hframed hlimit
  | data hstate hfinal hlength hremaining hbytes hnext hframed hout hlines =>
    subst hout hlines
    exact expected_data hstate hfinal hlength hremaining hbytes hnext hframed
  | terminator hstate hfinal hbytes hnext hframed hout hlines =>
    subst hout hlines
    exact expected_terminator hstate hfinal hbytes hnext hframed
  | last hstate hfinal hbytes hnext hout =>
    subst hout
    obtain ⟨advanced, s', pushed, hstep, hrest, hshorter, hsettled⟩ :=
      expected_last hstate hfinal hbytes hnext
    obtain ⟨out', lines', hout, hexpected, hlines⟩ := hrest
    exact ⟨advanced, s', pushed, hstep,
      ⟨out', lines', hout, hexpected, fun line hline => absurd (hlines line hline) List.not_mem_nil⟩,
      hshorter, hsettled⟩
  | done hstate hout =>
    subst hout
    refine ⟨false, { s with pending := [] }, [], ?_, ⟨⟨[], [], rfl, .done hstate rfl, nofun⟩, nofun,
      fun _ => ?_⟩⟩
    · simp only [S3ChunkedStream.advance, hstate]
    · simp only [Settled, hstate]

theorem Expected.consume {fuel : ℕ} (h : Expected C context s rest out lines)
    (hlimit : rest = [] ∨ ∀ line ∈ lines, line.length < maxHeaderBytes)
    (hfuel : s.pending.length < fuel) :
    ∃ s' pushed out' lines', consume C context fuel s = .ok (s', pushed) ∧ out = pushed ++ out' ∧
      Expected C context s' rest out' lines' ∧ (∀ line ∈ lines', line ∈ lines) ∧ Settled s' := by
  induction fuel generalizing s out lines with
  | zero => omega
  | succ fuel ih =>
    obtain ⟨advanced, t, pushed, hstep, ⟨out', lines', rfl, hexpected, hlines⟩, hshorter, hsettled⟩ :=
      h.advance hlimit
    cases advanced with
    | false =>
      refine ⟨t, pushed, out', lines', ?_, rfl, hexpected, hlines, hsettled rfl⟩
      rw [S3ChunkedStream.consume, hstep]
      rfl
    | true =>
      have hless := hshorter rfl
      obtain ⟨s', more, out'', lines'', hrun, rfl, hexpected', hlines', hsettled'⟩ :=
        ih hexpected (hlimit.imp_right fun hall line hline => hall line (hlines line hline)) (by omega)
      refine ⟨s', pushed ++ more, out'', lines'', ?_, by rw [List.append_assoc], hexpected',
        fun line hline => hlines line (hlines' line hline), hsettled'⟩
      rw [S3ChunkedStream.consume, hstep]
      simp only [bind, Except.bind, if_true, hrun]
      rfl

theorem Expected.arrive {chunk : Bytes} (h : Expected C context s (chunk ++ rest) out lines) :
    Expected C context { s with pending := s.pending ++ chunk } rest out lines := by
  cases h with
  | header hstate hframed hout hlines =>
    exact .header hstate (by rw [List.append_assoc]; exact hframed) hout hlines
  | data hstate hfinal hlength hremaining hbytes hnext hframed hout hlines =>
    exact .data hstate hfinal hlength hremaining (by rw [List.append_assoc]; exact hbytes) hnext hframed
      hout hlines
  | terminator hstate hfinal hbytes hnext hframed hout hlines =>
    exact .terminator hstate hfinal (by rw [List.append_assoc]; exact hbytes) hnext hframed hout hlines
  | last hstate hfinal hbytes hnext hout =>
    exact .last hstate hfinal (by rw [List.append_assoc]; exact hbytes) hnext hout
  | done hstate hout => exact .done hstate hout

theorem Expected.transform {chunk : Bytes} (h : Expected C context s (chunk ++ rest) out lines)
    (hlimit : rest = [] ∨ ∀ line ∈ lines, line.length < maxHeaderBytes) :
    ∃ s' pushed out' lines', transform C context s chunk = .ok (s', pushed) ∧ out = pushed ++ out' ∧
      Expected C context s' rest out' lines' ∧ (∀ line ∈ lines', line ∈ lines) ∧ Settled s' :=
  h.arrive.consume hlimit (Nat.lt_succ_self _)

theorem Expected.writes {chunks : List Bytes} (h : Expected C context s chunks.flatten out lines)
    (hlimit : ∀ line ∈ lines, line.length < maxHeaderBytes) (hsettled : Settled s) :
    ∃ s' pushed out' lines', writes C context s chunks = .ok (s', pushed) ∧ out = pushed ++ out' ∧
      Expected C context s' [] out' lines' ∧ Settled s' := by
  induction chunks generalizing s out lines with
  | nil => exact ⟨s, [], out, lines, rfl, rfl, h, hsettled⟩
  | cons chunk chunks ih =>
    rw [List.flatten_cons] at h
    obtain ⟨t, pushed, out', lines', hrun, rfl, hexpected, hlines, hsettled'⟩ := h.transform (Or.inr hlimit)
    obtain ⟨s', more, out'', lines'', hrest, rfl, hexpected', hsettled''⟩ :=
      ih hexpected (fun line hline => hlimit line (hlines line hline)) hsettled'
    refine ⟨s', pushed ++ more, out'', lines'', ?_, by rw [List.append_assoc], hexpected', hsettled''⟩
    rw [S3ChunkedStream.writes, hrun]
    simp only [bind, Except.bind, hrest]
    rfl

/-- At the end of a body nothing is missing. -/
theorem Expected.flush (h : Expected C context s [] out lines) (hsettled : Settled s) :
    flush C context s = .ok () ∧ out = [] := by
  cases h with
  | header hstate hframed =>
    exfalso
    simp only [Settled, hstate] at hsettled
    obtain ⟨⟨tail, -, hbody⟩, -⟩ := hframed
    refine hsettled ?_
    rw [List.append_nil] at hbody
    rw [hbody]
    refine List.IsInfix.trans ?_ (List.suffix_append _ _).isInfix
    exact ⟨_, _, rfl⟩
  | data hstate hfinal hlength hremaining hbytes =>
    exfalso
    simp only [Settled, hstate] at hsettled
    have hcount := congrArg List.length hbytes
    rw [hsettled, List.append_nil, List.length_nil, List.length_append, hlength] at hcount
    omega
  | terminator hstate hfinal hbytes =>
    exfalso
    simp only [Settled, hstate] at hsettled
    have hcount := congrArg List.length hbytes
    rw [List.append_nil, List.length_append] at hcount
    omega
  | last hstate hfinal hbytes hnext hout =>
    simp only [Settled, hstate] at hsettled
    rw [List.append_nil] at hbytes
    have hempty : s.pending = [] := by
      refine hbytes.resolve_right fun hcrlf => ?_
      have hlength := hcrlf.length_le
      omega
    refine ⟨?_, hout⟩
    rw [S3ChunkedStream.flush, if_pos ⟨hstate, hfinal, hempty⟩]
    simp only [verifyChunk, hnext]
    rfl
  | done hstate hout =>
    refine ⟨?_, hout⟩
    rw [S3ChunkedStream.flush, if_neg (by rw [hstate]; simp)]
    simp only [pure_bind, hstate]
    rfl

theorem expected_fresh {body line : Bytes} {frames : List Frame}
    (h : Framed C context (fresh context).previousSignature body frames line) :
    Expected C context (fresh context) body (payload frames) (headerLines frames line) :=
  .header rfl h rfl rfl

theorem settled_fresh : Settled (fresh context) := by
  change IsLine []
  rw [IsLine, List.infix_nil]
  decide

/-- **A body is accepted in whatever pieces it comes**, if its header lines are short. -/
theorem decode_of_framed {chunks : List Bytes} {frames : List Frame} {line : Bytes}
    (h : Framed C context (fresh context).previousSignature chunks.flatten frames line)
    (hlimit : ∀ l ∈ headerLines frames line, l.length < maxHeaderBytes) :
    decode C context chunks = .ok (payload frames) := by
  obtain ⟨s, pushed, out, lines, hrun, hout, hexpected, hsettled⟩ :=
    (expected_fresh h).writes hlimit settled_fresh
  obtain ⟨hflush, rfl⟩ := hexpected.flush hsettled
  rw [decode, hrun]
  simp only [bind, Except.bind, hflush]
  rw [hout, List.append_nil]
  rfl

/-- **A body is accepted in one piece.** -/
theorem decode_singleton_of_framed {body line : Bytes} {frames : List Frame}
    (h : Framed C context (fresh context).previousSignature body frames line) :
    decode C context [body] = .ok (payload frames) := by
  have hexpected := expected_fresh h
  rw [← List.append_nil body] at hexpected
  obtain ⟨s, pushed, out, lines, hrun, hout, hend, -, hsettled⟩ := hexpected.transform (Or.inl rfl)
  obtain ⟨hflush, rfl⟩ := hend.flush hsettled
  have hwrites : writes C context (fresh context) [body] = .ok (s, pushed) := by
    simp only [writes, hrun, bind, Except.bind, pure, Except.pure, List.append_nil]
  rw [decode, hwrites]
  simp only [bind, Except.bind, hflush]
  rw [hout, List.append_nil]
  rfl

/-! ## A long header line -/

theorem consume_advance {fuel : ℕ} (h : advance C context s = .ok (true, s', pushed)) :
    consume C context (fuel + 1) s = (consume C context fuel s').map fun r => (r.1, pushed ++ r.2) := by
  rw [consume, h]
  simp only [bind, Except.bind, if_true]
  cases consume C context fuel s' <;> rfl

theorem consume_fails_of_advance {fuel : ℕ} {e : BodyFault} (h : advance C context s = .error e) :
    consume C context (fuel + 1) s = .error e := by
  rw [consume, h]
  rfl

/-- A whole frame that has arrived is used up. -/
theorem consume_frame {fuel : ℕ} {f : Frame} {next : Text} {arrived : Bytes} (hstate : s.state = .header)
    (hdata : f.data ≠ []) (hfits : Fits C context s.previousSignature f.line f.data next)
    (hpending : s.pending = f.bytes ++ arrived) :
    ∃ t : Stream, t.state = .header ∧ t.previousSignature = next ∧ t.pending = arrived ∧
      consume C context (fuel + 3) s = (consume C context fuel t).map fun r => (r.1, f.data ++ r.2) := by
  have hpos := List.length_pos_of_ne_nil hdata
  let t₁ := s.enter (f.data ++ (crlf ++ arrived)) f.data.length (lineSignature f.line)
  let t₂ : Stream :=
    { t₁ with pending := crlf ++ arrived, remaining := 0, hashed := [] ++ f.data, state := .terminator }
  let t₃ : Stream := { t₂ with
    pending := arrived
    previousSignature := next
    state := if t₂.isFinalChunk then .done else .header }
  have hheader : advance C context s = .ok (true, t₁, []) :=
    advance_header hstate hfits.isLine
      (show s.pending = f.line ++ crlf ++ (f.data ++ (crlf ++ arrived)) by
        rw [hpending, Frame.bytes]
        simp only [List.append_assoc]) hfits.size hfits.signed
  have hdata' : advance C context t₁ = .ok (true, t₂, f.data) :=
    advance_data (if_neg hpos.ne') hpos rfl rfl
  have hterminator : advance C context t₂ = .ok (true, t₃, []) := advance_terminator rfl rfl hfits.chain
  have hfinal : t₂.isFinalChunk = false := decide_eq_false hpos.ne'
  refine ⟨t₃, if_neg (by rw [hfinal]; exact Bool.false_ne_true), rfl, rfl, ?_⟩
  rw [consume_advance hheader, consume_advance hdata', consume_advance hterminator]
  cases consume C context fuel t₃ <;> rfl

/-- **Behind whole frames, a line that is too long is refused** as long as its end is missing. -/
theorem consume_fails {fuel : ℕ} {frames : List Frame} {previous last : Text} {line : Bytes}
    (hchained : Chained C context previous frames last) (hprevious : s.previousSignature = previous)
    (hstate : s.state = .header) (hline : IsLine line) (hlong : maxHeaderBytes < line.length)
    (hpending : s.pending = frames.flatMap Frame.bytes ++ line) (hfuel : s.pending.length < fuel) :
    consume C context fuel s = .error .malformedBody := by
  induction hchained generalizing s fuel with
  | nil previous =>
    rw [List.flatMap_nil, List.nil_append] at hpending
    obtain ⟨fuel, rfl⟩ := Nat.exists_eq_succ_of_ne_zero (by omega : fuel ≠ 0)
    rw [← hpending] at hline hlong
    exact consume_fails_of_advance (advance_header_fails hstate hline hlong)
  | @cons previous next last f frames hdata hfits _ ih =>
    subst hprevious
    rw [List.flatMap_cons, List.append_assoc] at hpending
    have hlength : s.pending.length =
        f.line.length + f.data.length + 4 + (frames.flatMap Frame.bytes ++ line).length := by
      rw [hpending, List.length_append, Frame.bytes]
      simp only [List.length_append, crlf, List.length_cons, List.length_nil]
      omega
    obtain ⟨fuel, rfl⟩ : ∃ n, fuel = n + 3 := ⟨fuel - 3, by omega⟩
    obtain ⟨t, htstate, htprevious, htpending, hrun⟩ :=
      @consume_frame C context s fuel f next _ hstate hdata hfits hpending
    rw [hrun, ih htprevious htstate htpending (by rw [htpending]; omega)]
    rfl

end S3ChunkedStream
end SimpleStorage
