import SimpleStorage.S3.S3SignatureService

/-!
# The decoder of chunked payloads

A payload that is sent in chunks: each chunk has a header line with its size and, where
chunks are signed, its signature; an empty chunk comes last.  The decoder is fed whatever
pieces the network delivers.  It keeps what it cannot use yet, and passes on the bytes of
a chunk as they come.

Only the size of a body that does not end could tell the numbers here from those of the
runtime: a size is a natural number, and too large a one is infinite.
-/

namespace SimpleStorage

namespace S3Types

/-- What is wrong with a chunked payload. -/
inductive BodyFault where
  | malformedBody
  | signatureMismatch
  deriving DecidableEq, Repr

end S3Types

namespace S3ChunkedStream

open S3Types

/-- What the decoder expects next. -/
inductive State where
  | header
  | data
  /-- The line end behind the data of a chunk. -/
  | terminator
  | done
  deriving DecidableEq, Repr

structure Stream where
  state : State := .header
  pending : Bytes := []
  remaining : ℕ := 0
  isFinalChunk : Bool := false
  previousSignature : Text
  chunkSignature : Option Text := none
  /-- What the hash of the chunk has been fed. -/
  hashed : Bytes := []
  deriving DecidableEq, Repr

def crlf : Bytes := [0x0d, 0x0a]

def maxHeaderBytes : ℕ := 1024

/-! ## Header lines -/

/-- Where the first line end is. -/
def indexOfCrlf : Bytes → Option ℕ
  | [] => none
  | b :: rest => if crlf <+: b :: rest then some 0 else (indexOfCrlf rest).map (· + 1)

/-- The number hexadecimal digits stand for. -/
def hexNumber (s : Text) : ℕ := s.foldl (fun n c => 16 * n + (Codec.hexValue c).getD 0) 0

def dropSign : Text → Text
  | '-' :: rest | '+' :: rest => rest
  | s => s

def dropHexPrefix : Text → Text
  | '0' :: 'x' :: rest | '0' :: 'X' :: rest => rest
  | s => s

/-- `Number.parseInt(s, 16)`: as many digits as there are, behind a sign and `0x`. -/
def parseInt (s : Text) : Option ℤ :=
  let trimmed := s.dropWhile Text.isSpace
  let digits := (dropHexPrefix (dropSign trimmed)).takeWhile fun c => (Codec.hexValue c).isSome
  if digits = [] then none
  else some (if trimmed.head? = some '-' then -hexNumber digits else hexNumber digits)

/-- From here on a number is rounded to infinity: `2 ^ 1024 - 2 ^ 970`. -/
def infinite : ℕ := 2 ^ 202 * 2 ^ 256 * 2 ^ 256 * 2 ^ 256 * (2 ^ 54 - 1)

/-- The size a header line names. -/
def lineSize (line : Bytes) : Option ℕ :=
  match parseInt ((Text.split ';' (Utf8.decode line)).headD []) with
  | some size => if 0 ≤ size ∧ size.toNat < infinite then some size.toNat else none
  | none => none

/-- `/^chunk-signature=(.+)$/`. -/
def extensionSignature (extension : Text) : Option Text :=
  let trimmed := extension.trim
  let value := trimmed.drop "chunk-signature=".toList.length
  if "chunk-signature=".toList <+: trimmed ∧ value ≠ [] ∧ value.all fun c => PoliciesService.dot c.toNat
  then some value else none

/-- The signature a header line carries. -/
def lineSignature (line : Bytes) : Option Text :=
  (Text.split ';' (Utf8.decode line)).tail.findSome? extensionSignature

/-! ## The machine -/

variable (C : Crypto) (context : Option ChunkSigningContext)

/-- Chain the signature of a chunk onto the previous one. -/
def nextSignature (previousSignature : Text) (chunkSignature : Option Text) (data : Bytes) :
    Except BodyFault Text :=
  match context, chunkSignature with
  | some context, some chunkSignature =>
      if S3SignatureService.computeChunkSignature C context previousSignature
          (Codec.hex (C.sha256 data)) = chunkSignature then .ok chunkSignature
      else .error .signatureMismatch
  | _, _ => .ok previousSignature

def verifyChunk (s : Stream) : Except BodyFault Stream := do
  let next ← nextSignature C context s.previousSignature s.chunkSignature s.hashed
  return { s with previousSignature := next }

/-- The stream when a chunk of a given size begins. -/
def Stream.enter (s : Stream) (pending : Bytes) (size : ℕ) (signature : Option Text) : Stream :=
  { s with
    pending := pending
    chunkSignature := signature
    remaining := size
    isFinalChunk := size = 0
    hashed := []
    state := if size = 0 then .terminator else .data }

/-- The steps below say whether they got any further, and what they pass on. -/
def consumeHeader (s : Stream) : Except BodyFault (Bool × Stream × Bytes) :=
  match indexOfCrlf s.pending with
  | none => if maxHeaderBytes < s.pending.length then .error .malformedBody else .ok (false, s, [])
  | some index =>
      let line := s.pending.take index
      match lineSize line with
      | none => .error .malformedBody
      | some size =>
          if context.isSome ∧ lineSignature line = none then .error .malformedBody
          else .ok (true, s.enter (s.pending.drop (index + crlf.length)) size (lineSignature line), [])

def consumeData (s : Stream) : Bool × Stream × Bytes :=
  if s.pending = [] then (false, s, [])
  else
    let count := min s.remaining s.pending.length
    let data := s.pending.take count
    let s := { s with
      pending := s.pending.drop count
      remaining := s.remaining - count
      hashed := s.hashed ++ data }
    if 0 < s.remaining then (false, s, data) else (true, { s with state := .terminator }, data)

def consumeTerminator (s : Stream) : Except BodyFault (Bool × Stream × Bytes) :=
  if s.pending.length < crlf.length then .ok (false, s, [])
  else if s.pending.take crlf.length ≠ crlf then .error .malformedBody
  else do
    let s ← verifyChunk C context { s with pending := s.pending.drop crlf.length }
    return (true, { s with state := if s.isFinalChunk then .done else .header }, [])

/-- One step of the frame parser, on whatever has arrived so far. -/
def advance (s : Stream) : Except BodyFault (Bool × Stream × Bytes) :=
  match s.state with
  | .header => consumeHeader context s
  | .data => .ok (consumeData s)
  | .terminator => consumeTerminator C context s
  | .done => .ok (false, { s with pending := [] }, [])

/-- Steps, until one gets no further. -/
def consume : ℕ → Stream → Except BodyFault (Stream × Bytes)
  | 0, s => .ok (s, [])
  | fuel + 1, s => do
      let (advanced, s, pushed) ← advance C context s
      if advanced then
        let (s, more) ← consume fuel s
        return (s, pushed ++ more)
      else return (s, pushed)

/-- A write.  Every step but the last one uses up something of what has arrived. -/
def transform (s : Stream) (chunk : Bytes) : Except BodyFault (Stream × Bytes) :=
  consume C context ((s.pending ++ chunk).length + 1) { s with pending := s.pending ++ chunk }

/-- The end of the payload, which may come right after the header of the last chunk. -/
def flush (s : Stream) : Except BodyFault Unit := do
  let s ← if s.state = .terminator ∧ s.isFinalChunk ∧ s.pending = [] then do
      let s ← verifyChunk C context s
      pure { s with state := .done }
    else pure s
  if s.state ≠ .done then throw .malformedBody

/-- A number of writes. -/
def writes : Stream → List Bytes → Except BodyFault (Stream × Bytes)
  | s, [] => .ok (s, [])
  | s, chunk :: chunks => do
      let (s, pushed) ← transform C context s chunk
      let (s, more) ← writes s chunks
      return (s, pushed ++ more)

/-- A decoder before the first write. -/
def fresh : Stream := { previousSignature := (context.map (·.seedSignature)).getD [] }

/-- What the decoder makes of a payload that comes in pieces. -/
def decode (chunks : List Bytes) : Except BodyFault Bytes := do
  let (s, pushed) ← writes C context (fresh context) chunks
  flush C context s
  return pushed

end S3ChunkedStream
end SimpleStorage
