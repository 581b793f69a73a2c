import SimpleStorage.Database.Types
import SimpleStorage.Library.Program

/-!
# Rate limits

Calls are counted in Valkey, under a key for the caller and the time window the clock is in.  The
first call under a key sets the key's deadline, a window's length from then; later calls only count.
All instances of the application share the counters and, so it is assumed, the clock.

* `windowIndex_eq_iff`: when a window lasts.
* `windowIndex_retryAfterSeconds`: a caller who waits as told comes back in the next window.
* `keyOf_window`: a key names its window.
-/

namespace SimpleStorage

namespace RateLimitTypes

structure Config where
  enabled : Bool
  /-- Length of the fixed counting window, in seconds. -/
  windowSeconds : ℕ
  /-- Requests one caller may make inside a window. -/
  max : ℕ
  deriving DecidableEq, Repr

structure Subject where
  kind : Text
  id : Text
  deriving DecidableEq, Repr

structure Decision where
  allowed : Bool
  limit : ℕ
  remaining : ℕ
  retryAfterSeconds : ℕ
  deriving DecidableEq, Repr

/-- What is on record: a call that was counted, and under what number, and a call that was decided
on, and when. -/
inductive RateEvent where
  | counted (subject : Subject) (window count : ℕ)
  | decided (time : ℕ) (decision : Decision)
  deriving DecidableEq, Repr

/-- A command to Valkey that does not get through. -/
inductive RateFault where
  | unreachable
  deriving DecidableEq, Repr

end RateLimitTypes

/-- A counter, with its deadline if it has one. -/
structure Counter where
  key : Text
  count : ℕ
  expiresAt : Option ℕ := none
  deriving DecidableEq, Repr

/-- The clock, the counters, and whether the instances are connected to where these are kept. -/
structure Valkey where
  now : ℕ := 0
  counters : List Counter := []
  available : Bool := true
  deriving DecidableEq, Repr

namespace Valkey

/-- The counter of a key, unless its deadline has passed. -/
def live (key : Text) (s : Valkey) (c : Counter) : Bool := c.key = key && c.expiresAt.all (s.now < ·)

/-- `INCR`. -/
def incr (key : Text) (s : Valkey) : ℕ × Valkey :=
  match s.counters.find? (live key s) with
  | some found =>
      (found.count + 1, { s with
        counters := s.counters.map fun c => if live key s c then { c with count := c.count + 1 } else c })
  | none => (1, { s with counters := s.counters ++ [{ key, count := 1 }] })

/-- `EXPIRE`. -/
def expire (key : Text) (seconds : ℕ) (s : Valkey) : Valkey :=
  { s with
    counters := s.counters.map fun c =>
      if live key s c then { c with expiresAt := some (s.now + 1000 * seconds) } else c }

end Valkey

namespace RateLimitService

open RateLimitTypes Program

abbrev Limiter (α : Type) : Type := Program RateEvent RateFault Valkey α

variable (config : Config)

/-- The window a moment belongs to. -/
def windowIndex (now : ℕ) : ℕ := now / 1000 / config.windowSeconds

def retryAfterSeconds (now : ℕ) : ℕ :=
  max (config.windowSeconds - now / 1000 % config.windowSeconds) 1

def allowAll : Decision :=
  { allowed := true, limit := config.max, remaining := config.max, retryAfterSeconds := 0 }

def keyOf (subject : Subject) (window : ℕ) : Text :=
  "ratelimit:".toList ++ subject.kind ++ ':' :: subject.id ++ ':' :: Nat.toDigits 10 window

/-- The answer to the call that was counted under a number. -/
def decision (count : ℕ) (now : ℕ) : Decision where
  allowed := count ≤ config.max
  limit := config.max
  remaining := config.max - count
  retryAfterSeconds := retryAfterSeconds config now

/-- Count one more call, if the command gets through. -/
def incr (subject : Subject) (window : ℕ) : Limiter ℕ := do
  let count ← Program.perform
    (fun s => if s.available then some (.counted subject window (s.incr (keyOf subject window)).1) else none)
    fun s =>
      if s.available then
        (some (s.incr (keyOf subject window)).1, (s.incr (keyOf subject window)).2)
      else (none, s)
  orThrow count .unreachable

/-- Set the deadline of a key, if the command gets through. -/
def expire (key : Text) : Limiter Unit := do
  let done ← Program.alter fun s =>
    if s.available then (some (), s.expire key config.windowSeconds) else (none, s)
  orThrow done .unreachable

/-- Count one request against a subject's window, and say whether it may proceed. -/
def consume (subject : Subject) : Limiter Decision := do
  let available ← Program.query Valkey.available
  if ¬ config.enabled ∨ ¬ available then
    return allowAll config
  let window ← Program.query fun s => windowIndex config s.now
  tryCatch
    (do
      let count ← incr subject window
      (if count = 1 then expire config (keyOf subject window) else pure ())
      Program.observe (fun s => some (.decided s.now (decision config count s.now)))
        fun s => decision config count s.now)
    fun _ => do
      Program.alter fun s => ((), { s with available := false })
      return allowAll config

/-! ## Windows -/

variable {config}

/-- When a window lasts. -/
theorem windowIndex_eq_iff (hwindow : 1 ≤ config.windowSeconds) {now : ℕ} {window : ℕ} :
    windowIndex config now = window ↔
      1000 * config.windowSeconds * window ≤ now ∧ now < 1000 * config.windowSeconds * (window + 1) := by
  have hpos : 0 < 1000 * config.windowSeconds := by omega
  rw [windowIndex, Nat.div_div_eq_div_mul, Nat.div_eq_iff hpos, Nat.mul_comm window, Nat.mul_succ]
  generalize 1000 * config.windowSeconds = length at hpos ⊢
  generalize length * window = start
  omega

/-- **The wait leads into the next window.** -/
theorem windowIndex_retryAfterSeconds (hwindow : 1 ≤ config.windowSeconds) (now : ℕ) :
    1 ≤ retryAfterSeconds config now ∧
      windowIndex config (now + 1000 * retryAfterSeconds config now) = windowIndex config now + 1 := by
  have hlt := Nat.mod_lt (now / 1000) hwindow
  have hdiv := Nat.div_add_mod (now / 1000) config.windowSeconds
  have hretry : retryAfterSeconds config now =
      config.windowSeconds - now / 1000 % config.windowSeconds :=
    Nat.max_eq_left (Nat.le_sub_of_add_le (by omega))
  refine ⟨le_max_right _ _, ?_⟩
  have hseconds : (now + 1000 * retryAfterSeconds config now) / 1000 =
      config.windowSeconds * (now / 1000 / config.windowSeconds + 1) := by
    rw [Nat.add_mul_div_left _ _ (by decide), hretry, Nat.mul_succ]
    omega
  rw [windowIndex, hseconds, Nat.mul_div_cancel_left _ hwindow]
  rfl

theorem toDigits_injective : Function.Injective (Nat.toDigits 10) := by
  intro m n h
  have hm := Nat.ofDigitChars_toDigits (b := 10) (n := m) (by omega) (by omega)
  rw [h, Nat.ofDigitChars_toDigits (by omega) (by omega)] at hm
  exact hm.symm

/-- **A key names its window**: what follows its last colon. -/
theorem keyOf_window {subject subject' : Subject} {window window' : ℕ}
    (h : keyOf subject window = keyOf subject' window') : window = window' := by
  have hcolon : ∀ n : ℕ, ':' ∉ (Nat.toDigits 10 n).reverse := by
    intro n hmem
    have hdigit : (':' : Char).isDigit = true :=
      Nat.isDigit_of_mem_toDigits (by omega) (by omega) (List.mem_reverse.mp hmem)
    exact absurd hdigit (by decide)
  have hreverse : ∀ (s : Subject) (n : ℕ), ∃ rest : Text,
      (keyOf s n).reverse = (Nat.toDigits 10 n).reverse ++ ':' :: rest := by
    intro s n
    unfold keyOf
    generalize "ratelimit:".toList ++ s.kind ++ ':' :: s.id = label
    exact ⟨label.reverse, by
      rw [List.reverse_append, List.reverse_cons, List.append_assoc, List.singleton_append]⟩
  obtain ⟨rest, hrest⟩ := hreverse subject window
  obtain ⟨rest', hrest'⟩ := hreverse subject' window'
  rw [h, hrest'] at hrest
  exact (toDigits_injective (List.reverse_injective
    (Text.append_cons_inj (hcolon window') (hcolon window) hrest).1)).symm

end RateLimitService
end SimpleStorage
