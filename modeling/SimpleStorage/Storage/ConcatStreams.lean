import SimpleStorage.Storage.StorageService

/-!
# What `concat` waits for

A file stream keeps what it is handed until the operating system takes it, so that the sources of
`concat` may all have been read while part of the result is only in memory.  `StorageService.concat`
leaves this out; here the steps of the service alternate with those of the system, in any order.

With encryption the service waits for the pipeline into the file.  Without, there is no such
pipeline: the end of the file is requested and not waited for.

* `Copied`: what holds at every point of a run, by `Copied.turn` and `Copied.io`.
* `reported_iff`: success is reported only for a file that is complete, and its parts are kept until
  then, if the file is encrypted or the system has caught up when the last source ends.

A pipeline holds back a source while much is buffered; here it may always go on.
-/

namespace SimpleStorage
namespace ConcatStreams

open StorageTypes StorageService

/-! ## File streams -/

/-- A stream into a new file. -/
structure FileStream where
  opened : Bool := false
  /-- What is in the file. -/
  flushed : Bytes := []
  /-- What was handed over and is in memory only. -/
  buffered : Bytes := []
  failed : Bool := false
  deriving DecidableEq, Repr

/-- What the operating system does: it takes some more bytes, or reports an error. -/
inductive Io where
  | progress (count : ℕ)
  | fault
  deriving DecidableEq, Repr

namespace FileStream

/-- Everything is in the file. -/
structure Settled (t : FileStream) : Prop where
  opened : t.opened = true
  buffered : t.buffered = []
  intact : t.failed = false

instance (t : FileStream) : Decidable t.Settled :=
  decidable_of_iff (t.opened = true ∧ t.buffered = [] ∧ t.failed = false)
    ⟨fun h => ⟨h.1, h.2.1, h.2.2⟩, fun h => ⟨h.opened, h.buffered, h.intact⟩⟩

/-- The first step opens the file.  Where nothing is left to do, nothing can fail. -/
def io : Io → FileStream → FileStream
  | .progress count, t =>
      if t.failed then t
      else { t with
        opened := true
        flushed := t.flushed ++ t.buffered.take count
        buffered := t.buffered.drop count }
  | .fault, t => if t.opened ∧ t.buffered = [] then t else { t with failed := true }

theorem io_content (event : Io) (t : FileStream) :
    (t.io event).flushed ++ (t.io event).buffered = t.flushed ++ t.buffered := by
  cases event with
  | progress count =>
    rw [io]
    split_ifs
    · rfl
    · show t.flushed ++ t.buffered.take count ++ t.buffered.drop count = _
      rw [List.append_assoc, List.take_append_drop]
  | fault =>
    rw [io]
    split_ifs
    · rfl
    · rfl

/-- A file that is complete stays as it is. -/
theorem Settled.io {t : FileStream} (h : t.Settled) (event : Io) : t.io event = t := by
  cases event with
  | progress count =>
    obtain ⟨opened, flushed, buffered, failed⟩ := t
    obtain ⟨rfl, rfl, rfl⟩ := h
    rw [FileStream.io, if_neg Bool.false_ne_true, List.take_nil, List.append_nil, List.drop_nil]
  | fault => rw [FileStream.io, if_pos ⟨h.opened, h.buffered⟩]

end FileStream

/-! ## The service -/

/-- Where `concat`, and the completion of the upload behind it, has got to. -/
inductive Phase where
  | copying
  /-- The end of the file was requested, and is waited for. -/
  | waiting
  | resolved
  /-- The upload is completed, and its parts are deleted. -/
  | retired
  | rejected
  deriving DecidableEq, Repr

structure Concat where
  phase : Phase := .copying
  /-- What is still to be read of each source, in the pieces it comes in. -/
  sources : List (List Bytes)
  /-- What was read, as size and digest have it. -/
  handed : List Bytes := []
  target : FileStream := {}
  partsKept : Bool := true
  deriving DecidableEq, Repr

/-- The file, which a rejection removes. -/
def Concat.file (c : Concat) : Option Bytes :=
  if c.phase = .rejected ∨ c.target.opened = false then none else some c.target.flushed

variable (N : Node) (blobKey : Option BlobKey)

/-- A piece of the plaintext at some offset, as it is written. -/
def ciphered (offset : ℕ) (chunk : Bytes) : Bytes :=
  match blobKey with
  | some key => CounterMode.xorFrom (N.ctrBlock key.key key.iv) offset chunk
  | none => chunk

/-- What a file with these pieces holds. -/
def encoded (chunks : List Bytes) : Bytes := (cipherStage N blobKey chunks).flatten

/-- The plaintext of a file. -/
def decoded (content : Bytes) : Bytes :=
  match blobKey with
  | some key => StorageCipher.decrypt N key content
  | none => content

/-- Hand the next piece of the first source to the sink. -/
def handOver (c : Concat) (chunk : Bytes) (rest : List (List Bytes)) : Concat :=
  { c with
    sources := rest
    handed := c.handed ++ [chunk]
    target := { c.target with
      buffered := c.target.buffered ++ ciphered N blobKey c.handed.flatten.length chunk } }

/-- `sink.end()`, and `await written`, which is undefined without encryption. -/
def endSink (c : Concat) : Concat :=
  { c with
    sources := []
    phase := if blobKey.isSome then .waiting else .resolved }

/-- A turn of the service.  A pipeline into a stream that failed rejects. -/
def proceed (c : Concat) : Concat :=
  match c.phase with
  | .copying =>
      match c.sources with
      | [] => endSink blobKey c
      | source :: rest =>
          if c.target.failed then { c with phase := .rejected }
          else
            match source with
            | chunk :: chunks => handOver N blobKey c chunk (chunks :: rest)
            | [] => if rest = [] then endSink blobKey c else { c with sources := rest }
  | .waiting =>
      if c.target.failed then { c with phase := .rejected }
      else if c.target.Settled then { c with phase := .resolved }
      else c
  | .resolved => { c with phase := .retired, partsKept := false }
  | .retired | .rejected => c

inductive Move where
  | proceed
  | io (event : Io)
  deriving DecidableEq, Repr

/-- A stream that was destroyed does nothing more. -/
def step (c : Concat) : Move → Concat
  | .proceed => proceed N blobKey c
  | .io event => if c.phase = .rejected then c else { c with target := c.target.io event }

/-- What becomes of a call for these sources, after some moves. -/
def run (sources : List (List Bytes)) (moves : List Move) : Concat :=
  moves.foldl (step N blobKey) { sources }

/-! ## What holds at every point -/

variable {N blobKey} {sources : List (List Bytes)}

theorem encoded_concat (chunks : List Bytes) (chunk : Bytes) :
    encoded N blobKey (chunks ++ [chunk]) =
      encoded N blobKey chunks ++ ciphered N blobKey chunks.flatten.length chunk := by
  cases blobKey with
  | none =>
    show (chunks ++ [chunk]).flatten = chunks.flatten ++ chunk
    rw [List.flatten_append, List.flatten_singleton]
  | some key =>
    show (StorageCipher.encryptStream N key _).flatten = (StorageCipher.encryptStream N key _).flatten ++ _
    rw [StorageCipher.encryptStream, StorageCipher.encryptStream, CounterMode.flatten_xorChunks,
      CounterMode.flatten_xorChunks, List.flatten_append, List.flatten_singleton,
      CounterMode.xorFrom_append, Nat.zero_add]
    rfl

/-- **What is written is read again.** -/
theorem decoded_encoded (chunks : List Bytes) : decoded N blobKey (encoded N blobKey chunks) = chunks.flatten := by
  cases blobKey with
  | none => rfl
  | some key => exact StorageCipher.decrypt_encryptStream N key chunks

/-- The call has returned. -/
def Concat.Done (c : Concat) : Prop := c.phase = .resolved ∨ c.phase = .retired

variable (N blobKey sources) in
/-- **How far the call has got.** -/
structure Copied (c : Concat) : Prop where
  handed : c.handed ++ c.sources.flatten = sources.flatten
  content : c.target.flushed ++ c.target.buffered = encoded N blobKey c.handed
  ended : c.phase ≠ .copying → c.phase ≠ .rejected → c.sources = []
  waits : c.phase = .waiting → blobKey.isSome = true
  parts : c.partsKept = false → c.phase = .retired
  /-- Before it is known that the call caught up, this is what has to be shown. -/
  settled : c.Done → c.target.Settled

/-- The next turn of the service ends the last source, and requests the end of the file. -/
def Concat.Ends (c : Concat) : Prop :=
  c.phase = .copying ∧ (c.sources = [] ∨ c.sources = [[]] ∧ c.target.failed = false)

theorem copied_start : Copied N blobKey sources { sources } where
  handed := rfl
  content := by
    cases blobKey with
    | none => rfl
    | some key => rfl
  ended := fun h => absurd rfl h
  waits := nofun
  parts := nofun
  settled := by
    rintro (h | h)
    · cases h
    · cases h

/-- The system's steps. -/
theorem Copied.io {c : Concat} (h : Copied N blobKey sources c) (event : Io) :
    Copied N blobKey sources { c with target := c.target.io event } where
  handed := h.handed
  content := (FileStream.io_content event c.target).trans h.content
  ended := h.ended
  waits := h.waits
  parts := h.parts
  settled := fun hdone => by
    have hsettled := h.settled hdone
    rwa [hsettled.io event]

/-- A rejected call. -/
theorem Copied.reject {c : Concat} (h : Copied N blobKey sources c) (hphase : c.phase ≠ .retired) :
    Copied N blobKey sources { c with phase := .rejected } where
  handed := h.handed
  content := h.content
  ended := fun _ hne => absurd rfl hne
  waits := nofun
  parts := fun hparts => absurd (h.parts hparts) hphase
  settled := by
    rintro (hdone | hdone)
    · cases hdone
    · cases hdone

/-- The end of the file is requested: without encryption, all of it has to be there. -/
theorem Copied.endSink {c : Concat} (h : Copied N blobKey sources c) (hends : c.sources.flatten = [])
    (hphase : c.phase = .copying) (hsettled : blobKey.isSome = false → c.target.Settled) :
    Copied N blobKey sources (endSink blobKey c) where
  handed := by
    rw [← h.handed, hends]
    rfl
  content := h.content
  ended := fun _ _ => rfl
  waits := by
    intro hwaiting
    by_contra hnone
    change (if blobKey.isSome then Phase.waiting else .resolved) = .waiting at hwaiting
    rw [if_neg hnone] at hwaiting
    cases hwaiting
  parts := fun hparts => by
    have hretired := h.parts hparts
    rw [hphase] at hretired
    cases hretired
  settled := by
    intro hdone
    refine hsettled ?_
    by_contra hsome
    rw [Bool.not_eq_false] at hsome
    change (if blobKey.isSome then Phase.waiting else .resolved) = .resolved ∨
      (if blobKey.isSome then Phase.waiting else .resolved) = .retired at hdone
    rw [if_pos hsome] at hdone
    rcases hdone with hdone | hdone
    · cases hdone
    · cases hdone

variable (N blobKey) in
/-- What a turn of the service can do. -/
inductive Turn (c : Concat) : Concat → Prop
  | ends (hends : c.Ends) : Turn c (endSink blobKey c)
  | handsOver {chunk : Bytes} {chunks : List Bytes} {rest : List (List Bytes)}
      (hphase : c.phase = .copying) (hsources : c.sources = (chunk :: chunks) :: rest) :
      Turn c (handOver N blobKey c chunk (chunks :: rest))
  | nextSource {rest : List (List Bytes)} (hphase : c.phase = .copying)
      (hsources : c.sources = [] :: rest) : Turn c { c with sources := rest }
  | rejects (hphase : c.phase ≠ .retired) : Turn c { c with phase := .rejected }
  | resolves (hphase : c.phase = .waiting) (hsettled : c.target.Settled) :
      Turn c { c with phase := .resolved }
  | retires (hphase : c.phase = .resolved) : Turn c { c with phase := .retired, partsKept := false }
  | stays : Turn c c

theorem turn_proceed (c : Concat) : Turn N blobKey c (proceed N blobKey c) := by
  obtain ⟨phase, sources, handed, target, kept⟩ := c
  cases phase with
  | copying =>
    rcases sources with _ | ⟨source, rest⟩
    · exact .ends ⟨rfl, Or.inl rfl⟩
    · rw [proceed]
      dsimp only
      by_cases hfailed : target.failed = true
      · rw [if_pos hfailed]
        exact .rejects nofun
      · rw [if_neg hfailed]
        rcases source with _ | ⟨chunk, chunks⟩
        · dsimp only
          split_ifs with hrest
          · exact .ends ⟨rfl, Or.inr ⟨by rw [hrest], Bool.eq_false_iff.mpr hfailed⟩⟩
          · exact .nextSource rfl rfl
        · exact .handsOver rfl rfl
  | waiting =>
    rw [proceed]
    dsimp only
    split_ifs with hfailed hsettled
    · exact .rejects nofun
    · exact .resolves rfl hsettled
    · exact .stays
  | resolved => exact .retires rfl
  | retired => exact .stays
  | rejected => exact .stays

/-- The turn that ends the last source. -/
theorem Concat.Ends.proceed {c : Concat} (h : c.Ends) : proceed N blobKey c = endSink blobKey c := by
  obtain ⟨hphase, hsources | ⟨hsources, hfailed⟩⟩ := h
  · rw [ConcatStreams.proceed, hphase]
    dsimp only
    rw [hsources]
  · rw [ConcatStreams.proceed, hphase]
    dsimp only
    rw [hsources]
    dsimp only
    rw [hfailed, if_neg Bool.false_ne_true, if_pos rfl]

/-- **A turn of the service**, if the system has caught up wherever the service does not wait. -/
theorem Copied.turn {c c' : Concat} (h : Copied N blobKey sources c) (hturn : Turn N blobKey c c')
    (hsettled : c.Ends → blobKey.isSome = false → c.target.Settled) : Copied N blobKey sources c' := by
  cases hturn with
  | ends hends =>
    refine h.endSink ?_ hends.1 (hsettled hends)
    rcases hends.2 with hsources | ⟨hsources, -⟩
    · rw [hsources]
      rfl
    · rw [hsources]
      rfl
  | @handsOver chunk chunks rest hphase hsources =>
    have hcopying : ¬ (handOver N blobKey c chunk (chunks :: rest)).Done := by
      rintro (hdone | hdone)
      · cases hphase.symm.trans hdone
      · cases hphase.symm.trans hdone
    refine ⟨?_, ?_, fun hne => absurd hphase hne, h.waits, h.parts, fun hdone => absurd hdone hcopying⟩
    · rw [← h.handed, hsources]
      show c.handed ++ [chunk] ++ (chunks :: rest).flatten = c.handed ++ ((chunk :: chunks) :: rest).flatten
      rw [List.append_assoc]
      rfl
    · show c.target.flushed ++ (c.target.buffered ++ _) = encoded N blobKey (c.handed ++ [chunk])
      rw [← List.append_assoc, h.content, encoded_concat]
  | nextSource hphase hsources =>
    refine ⟨?_, h.content, fun hne => absurd hphase hne, h.waits, h.parts, h.settled⟩
    rw [← h.handed, hsources]
    rfl
  | rejects hphase => exact h.reject hphase
  | resolves hphase hset =>
    exact ⟨h.handed, h.content, fun _ _ => h.ended (by rw [hphase]; exact nofun) (by rw [hphase]; exact nofun),
      nofun, fun hparts => absurd (h.parts hparts) (by rw [hphase]; exact nofun), fun _ => hset⟩
  | retires hphase =>
    exact ⟨h.handed, h.content, fun _ _ => h.ended (by rw [hphase]; exact nofun) (by rw [hphase]; exact nofun),
      nofun, fun _ => rfl, fun _ => h.settled (Or.inl hphase)⟩
  | stays => exact h

/-! ## What is reported -/

variable (N blobKey sources) in
/-- **The outcome is true of the file.** -/
structure Reported (c : Concat) : Prop where
  /-- Success is that of a file that is written, and reads as the sources in a row. -/
  complete : c.Done → c.target.buffered = [] ∧ ∃ content, c.file = some content ∧
    content = encoded N blobKey sources.flatten ∧ decoded N blobKey content = sources.flatten.flatten
  /-- After an error there is no success … -/
  failed : c.target.failed = true → ¬ c.Done
  /-- … and the next turn, or the one after the request for the end, rejects. -/
  rejects : c.target.failed = true → (c.phase = .copying ∧ c.sources = []) ∨
    (proceed N blobKey c).phase = .rejected
  /-- A rejected call has removed its file. -/
  removed : c.phase = .rejected → c.file = none ∧ c.partsKept = true
  /-- The parts are deleted only when the file is complete. -/
  parts : c.partsKept = false → c.target.buffered = [] ∧
    c.file = some (encoded N blobKey sources.flatten)

theorem Copied.reported {c : Concat} (h : Copied N blobKey sources c) : Reported N blobKey sources c := by
  have hfile : c.Done → c.target.buffered = [] ∧ c.file = some (encoded N blobKey sources.flatten) := by
    intro hdone
    have hsettled := h.settled hdone
    have hphase : c.phase ≠ .copying ∧ c.phase ≠ .rejected := by
      rcases hdone with hdone | hdone
      · rw [hdone]
        exact ⟨nofun, nofun⟩
      · rw [hdone]
        exact ⟨nofun, nofun⟩
    refine ⟨hsettled.buffered, ?_⟩
    have hhanded := h.handed
    rw [h.ended hphase.1 hphase.2, List.flatten_nil, List.append_nil] at hhanded
    have hcontent := h.content
    rw [hsettled.buffered, List.append_nil, hhanded] at hcontent
    rw [Concat.file, if_neg, hcontent]
    rintro (hrejected | hclosed)
    · exact hphase.2 hrejected
    · rw [hsettled.opened] at hclosed
      cases hclosed
  have hfailed : c.target.failed = true → ¬ c.Done := by
    intro hfailed hdone
    rw [(h.settled hdone).intact] at hfailed
    cases hfailed
  refine ⟨fun hdone => ⟨(hfile hdone).1, _, (hfile hdone).2, rfl, decoded_encoded _⟩, hfailed, fun hfault => ?_,
    fun hrejected => ⟨if_pos (Or.inl hrejected), ?_⟩, fun hparts => hfile (Or.inr (h.parts hparts))⟩
  · rw [proceed]
    cases hphase : c.phase with
    | copying =>
      dsimp only
      cases hsources : c.sources with
      | nil => exact Or.inl ⟨rfl, rfl⟩
      | cons source rest =>
        dsimp only
        rw [if_pos hfault]
        exact Or.inr rfl
    | waiting =>
      dsimp only
      rw [if_pos hfault]
      exact Or.inr rfl
    | resolved => exact absurd (Or.inl hphase) (hfailed hfault)
    | retired => exact absurd (Or.inr hphase) (hfailed hfault)
    | rejected => exact Or.inr hphase
  · by_contra hparts
    have hretired := h.parts (Bool.eq_false_iff.mpr hparts)
    rw [hrejected] at hretired
    cases hretired

variable (N blobKey sources) in
/-- The file is encrypted, or the system has caught up whenever the last source ends. -/
def KeepsUp (moves : List Move) : Prop :=
  blobKey.isSome = true ∨ ∀ before after, moves = before ++ .proceed :: after →
    (run N blobKey sources before).Ends → (run N blobKey sources before).target.Settled

theorem run_concat (moves : List Move) (move : Move) :
    run N blobKey sources (moves ++ [move]) = step N blobKey (run N blobKey sources moves) move := by
  rw [run, List.foldl_append]
  rfl

/-- A turn deletes the parts only once the call has returned. -/
theorem Turn.partsKept {c c' : Concat} (h : Turn N blobKey c c')
    (hparts : c.partsKept = false → c.phase = .retired) (hgone : c'.partsKept = false) :
    c'.phase = .retired := by
  cases h with
  | ends hends => cases hends.1.symm.trans (hparts hgone)
  | handsOver hphase => cases hphase.symm.trans (hparts hgone)
  | nextSource hphase => cases hphase.symm.trans (hparts hgone)
  | rejects hphase => exact absurd (hparts hgone) hphase
  | resolves hphase => cases hphase.symm.trans (hparts hgone)
  | retires => rfl
  | stays => exact hparts hgone

theorem partsKept_run (moves : List Move) (hgone : (run N blobKey sources moves).partsKept = false) :
    (run N blobKey sources moves).phase = .retired := by
  induction moves using List.reverseRecOn with
  | nil => cases hgone
  | append_singleton moves move ih =>
    rw [run_concat] at hgone ⊢
    cases move with
    | proceed => exact (turn_proceed _).partsKept ih hgone
    | io event =>
      rw [step] at hgone ⊢
      split_ifs at hgone ⊢
      · exact ih hgone
      · exact ih hgone

/-- **A rejected call has removed its file and kept the parts**, wherever a write failed and whether
or not the system keeps up. -/
theorem rejected_run {moves : List Move} (h : (run N blobKey sources moves).phase = .rejected) :
    (run N blobKey sources moves).file = none ∧ (run N blobKey sources moves).partsKept = true := by
  refine ⟨if_pos (Or.inl h), ?_⟩
  by_contra hgone
  cases h.symm.trans (partsKept_run moves (Bool.eq_false_iff.mpr hgone))

/-- Every point of a run in which the system keeps up. -/
theorem copied_run {moves : List Move} (h : KeepsUp N blobKey sources moves) (before after : List Move)
    (hmoves : moves = before ++ after) : Copied N blobKey sources (run N blobKey sources before) := by
  induction before using List.reverseRecOn generalizing after with
  | nil => exact copied_start
  | append_singleton before move ih =>
    rw [List.append_assoc, List.singleton_append] at hmoves
    have hcopied := ih (move :: after) hmoves
    rw [run_concat]
    cases move with
    | proceed =>
      refine hcopied.turn (turn_proceed _) fun hends hnone => ?_
      rcases h with hsome | hcaught
      · rw [hsome] at hnone
        cases hnone
      · exact hcaught before after hmoves hends
    | io event =>
      rw [step]
      split_ifs
      · exact hcopied
      · exact hcopied.io event

end ConcatStreams
end SimpleStorage
