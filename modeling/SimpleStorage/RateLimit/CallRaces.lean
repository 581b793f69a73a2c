import Mathlib.Data.List.Find
import Mathlib.Order.Interval.Finset.Nat
import SimpleStorage.Library.Interleaving
import SimpleStorage.Library.Joins
import SimpleStorage.RateLimit.RateLimitService

/-!
# Many callers and one counter

The calls of one caller come in on any instance, and each takes several steps: it reads the clock,
counts itself, sets the deadline if it is the first, and reads the clock again for its answer.  The
steps of the calls are mixed in any way, time passes between any two of them, and calls get lost on
the way.

The deadline of a key may be set long after its window has begun, but never before; it falls behind
the end of the window, and until then nothing is forgotten.  So the calls of a window are numbered
one by one, if each is counted while its window lasts.

* `Counting`: what holds throughout; `counting` is the protocol of a call.
* `number_injective`: no two calls of a window get one number.
* `limit_kept`: what the answers say, on any schedule.
-/

namespace SimpleStorage
namespace RateLimitService

open RateLimitTypes Program

/-- Calls come in, and time passes. -/
inductive RateRequest where
  | consume (subject : Subject)
  | wait (milliseconds : ℕ)
  deriving DecidableEq, Repr

def RateRequest.program (config : Config) : RateRequest → Limiter (Option Decision)
  | .consume subject => do
      let decision ← RateLimitService.consume config subject
      return some decision
  | .wait milliseconds => do
      Program.alter fun s => ((), { s with now := s.now + milliseconds })
      return none

/-- **A call is counted while its window lasts.** -/
def InWindow (config : Config) (v : Shared RateEvent Valkey) (_ : ℕ) : RateEvent → Prop
  | .counted _ window _ => windowIndex config v.state.now = window
  | .decided _ _ => True

instance (config : Config) (v : Shared RateEvent Valkey) (i : ℕ) (e : RateEvent) :
    Decidable (InWindow config v i e) :=
  match e with
  | .counted _ window _ => inferInstanceAs (Decidable (windowIndex config v.state.now = window))
  | .decided _ _ => inferInstanceAs (Decidable True)

/-! ## What is on record -/

/-- The key a call was counted under. -/
def countedKey : RateEvent → Option Text
  | .counted subject window _ => some (keyOf subject window)
  | .decided _ _ => none

/-- The calls counted under a key. -/
def tally (key : Text) (record : List (ℕ × RateEvent)) : ℕ :=
  (record.filter fun e => countedKey e.2 = some key).length

theorem tally_cons (key : Text) (e : ℕ × RateEvent) (record : List (ℕ × RateEvent)) :
    tally key (e :: record) = tally key record + if countedKey e.2 = some key then 1 else 0 := by
  rw [tally, List.filter_cons]
  by_cases h : countedKey e.2 = some key
  · rw [if_pos (decide_eq_true h), if_pos h]
    rfl
  · rw [if_neg (by simpa using h), if_neg h]
    rfl

/-- **Every call is numbered** by the calls counted under its key before it. -/
def Numbered (record : List (ℕ × RateEvent)) : Prop :=
  ∀ new i subject window count old, record = new ++ (i, .counted subject window count) :: old →
    count = tally (keyOf subject window) old + 1

/-- A call has a higher number than one counted before it. -/
theorem Numbered.lt {record : List (ℕ × RateEvent)} (h : Numbered record) {new old : List (ℕ × RateEvent)}
    {i j : ℕ} {subject subject' : Subject} {window window' count count' : ℕ}
    (hrecord : record = new ++ (i, .counted subject window count) :: old)
    (hmem : (j, .counted subject' window' count') ∈ old)
    (hkey : keyOf subject' window' = keyOf subject window) : count' < count := by
  obtain ⟨newer, older, hold⟩ := List.append_of_mem hmem
  have hcount := h new i subject window count old hrecord
  have hcount' := h (new ++ (i, .counted subject window count) :: newer) j subject' window' count' older
    (by rw [hrecord, hold, List.append_assoc, List.cons_append])
  have htally : tally (keyOf subject window) old =
      tally (keyOf subject window) newer + (tally (keyOf subject window) older + 1) := by
    rw [hold, tally, List.filter_append, List.length_append]
    have hcons := tally_cons (keyOf subject window) (j, .counted subject' window' count') older
    rw [if_pos (by rw [← hkey]; rfl)] at hcons
    exact congrArg _ hcons
  rw [hkey] at hcount'
  omega

/-- **No two calls under one key get one number.** -/
theorem Numbered.injective {record : List (ℕ × RateEvent)} (h : Numbered record) {i j : ℕ}
    {subject subject' : Subject} {window window' count : ℕ}
    (hi : (i, .counted subject window count) ∈ record)
    (hj : (j, .counted subject' window' count) ∈ record)
    (hkey : keyOf subject' window' = keyOf subject window) : i = j := by
  obtain ⟨new, old, hrecord⟩ := List.append_of_mem hi
  rw [hrecord, List.mem_append, List.mem_cons] at hj
  rcases hj with hnew | hsame | hold
  · obtain ⟨newer, older, hnew⟩ := List.append_of_mem hnew
    have hsplit : record = newer ++ (j, .counted subject' window' count) ::
        (older ++ (i, .counted subject window count) :: old) := by
      rw [hrecord, hnew, List.append_assoc, List.cons_append]
    have hlt : count < count :=
      h.lt hsplit (List.mem_append_right older List.mem_cons_self) hkey.symm
    exact absurd hlt (lt_irrefl _)
  · exact (congrArg Prod.fst hsame).symm
  · exact absurd (h.lt hrecord hold hkey) (lt_irrefl _)

/-! ## Counters -/

/-- What a key has been counted up to. -/
def countOf (key : Text) (s : Valkey) : ℕ := (s.counters.find? (·.key = key)).elim 0 Counter.count

/-- Rows that keep their keys. -/
theorem find?_key_map {f : Counter → Counter} (hf : ∀ c, (f c).key = c.key) (key : Text)
    (counters : List Counter) :
    (counters.map f).find? (·.key = key) = (counters.find? (·.key = key)).map f := by
  rw [List.find?_map]
  congr 2
  funext c
  rw [Function.comp_apply, hf]

/-- **Counting one more**, if what the key was counted up to has not been forgotten. -/
theorem countOf_incr {key : Text} {s : Valkey}
    (hlive : ∀ c ∈ s.counters, c.key = key → s.live key c = true) :
    (s.incr key).1 = countOf key s + 1 ∧
      ∀ key', countOf key' (s.incr key).2 = countOf key' s + if key' = key then 1 else 0 := by
  have hsame : ∀ c ∈ s.counters, s.live key c = decide (c.key = key) := by
    intro c hc
    by_cases hkey : c.key = key
    · rw [hlive c hc hkey, decide_eq_true hkey]
    · rw [Valkey.live, decide_eq_false hkey, Bool.false_and]
  have hfind : s.counters.find? (s.live key) = s.counters.find? (·.key = key) :=
    List.find?_congr fun c hc => hsame c hc
  unfold Valkey.incr
  rw [hfind]
  cases hfound : s.counters.find? (·.key = key) with
  | none =>
    refine ⟨by rw [countOf, hfound]; rfl, fun key' => ?_⟩
    simp only [countOf, List.find?_append]
    by_cases hkey : key' = key
    · rw [hkey, hfound, if_pos rfl]
      simp
    · rw [if_neg hkey, Nat.add_zero]
      cases s.counters.find? (·.key = key') with
      | some c => rfl
      | none => simp [Ne.symm hkey]
  | some found =>
    refine ⟨by rw [countOf, hfound]; rfl, fun key' => ?_⟩
    have hmap : (s.counters.map fun c => if s.live key c then { c with count := c.count + 1 } else c) =
        s.counters.map fun c => if c.key = key then { c with count := c.count + 1 } else c := by
      refine List.map_congr_left fun c hc => ?_
      rw [hsame c hc]
      simp only [decide_eq_true_eq]
    have hkeys : ∀ c : Counter, (if c.key = key then { c with count := c.count + 1 } else c).key = c.key := by
      intro c
      split_ifs <;> rfl
    simp only [countOf, hmap, find?_key_map hkeys]
    cases hother : s.counters.find? (·.key = key') with
    | none =>
      rw [if_neg]
      · rfl
      · rintro rfl
        rw [hfound] at hother
        cases hother
    | some c =>
      have hc : c.key = key' := by simpa using List.find?_some hother
      rw [Option.map_some, Option.elim_some, Option.elim_some, hc]
      split_ifs <;> rfl

/-- Every counter there is was there, with its deadline, or has none. -/
theorem counters_incr {key : Text} {s : Valkey} {c : Counter} (hc : c ∈ (s.incr key).2.counters) :
    c.expiresAt = none ∨ ∃ old ∈ s.counters, c.key = old.key ∧ c.expiresAt = old.expiresAt := by
  unfold Valkey.incr at hc
  split at hc
  · obtain ⟨old, hold, rfl⟩ := List.mem_map.mp hc
    refine Or.inr ⟨old, hold, ?_⟩
    split_ifs <;> exact ⟨rfl, rfl⟩
  · rcases List.mem_append.mp hc with hc | hc
    · exact Or.inr ⟨c, hc, rfl, rfl⟩
    · rw [List.mem_singleton.mp hc]
      exact Or.inl rfl

theorem now_incr (key : Text) (s : Valkey) : (s.incr key).2.now = s.now := by
  unfold Valkey.incr
  split <;> rfl

theorem available_incr (key : Text) (s : Valkey) : (s.incr key).2.available = s.available := by
  unfold Valkey.incr
  split <;> rfl

/-- Setting a deadline counts nothing. -/
theorem countOf_expire (key key' : Text) (seconds : ℕ) (s : Valkey) :
    countOf key' (s.expire key seconds) = countOf key' s := by
  have hkeys : ∀ c : Counter, (if s.live key c then
      { c with expiresAt := some (s.now + 1000 * seconds) } else c).key = c.key := by
    intro c
    split_ifs <;> rfl
  simp only [countOf, Valkey.expire, find?_key_map hkeys]
  cases s.counters.find? (·.key = key') with
  | none => rfl
  | some c =>
    rw [Option.map_some, Option.elim_some, Option.elim_some]
    split_ifs <;> rfl

/-- A deadline is a new one, or it was there. -/
theorem counters_expire {key : Text} {seconds : ℕ} {s : Valkey} {c : Counter}
    (hc : c ∈ (s.expire key seconds).counters) :
    (c.key = key ∧ c.expiresAt = some (s.now + 1000 * seconds)) ∨ c ∈ s.counters := by
  obtain ⟨old, hold, rfl⟩ := List.mem_map.mp hc
  by_cases hlive : s.live key old = true
  · rw [if_pos hlive]
    rw [Valkey.live, Bool.and_eq_true, decide_eq_true_eq] at hlive
    exact Or.inl ⟨hlive.1, rfl⟩
  · rw [if_neg hlive]
    exact Or.inr hold

/-! ## The protocol -/

/-- **What holds throughout.** -/
structure Counting (config : Config) (v : Shared RateEvent Valkey) : Prop where
  available : v.state.available = true
  /-- Nothing that was counted is forgotten. -/
  stored : ∀ key, countOf key v.state = tally key v.record
  /-- A deadline falls behind the end of the window. -/
  lasts : ∀ c ∈ v.state.counters, ∀ time ∈ c.expiresAt, ∀ subject window,
    c.key = keyOf subject window → 1000 * config.windowSeconds * (window + 1) ≤ time
  numbered : Numbered v.record
  decided : ∀ i time answer, (i, .decided time answer) ∈ v.record →
    ∃ count, answer = decision config count time

/-- A call relies on time passing forward, and on what it has left on record itself. -/
def counting (config : Config) : Protocol RateEvent Valkey where
  permits := InWindow config
  inv := Counting config
  rely i v v' := v.state.now ≤ v'.state.now ∧
    v'.record.filter (·.1 = i) = v.record.filter (·.1 = i)
  guar _ v _ s := v.state.now ≤ s.now
  refl _ _ := ⟨le_rfl, rfl⟩
  trans _ _ _ _ h h' := ⟨h.1.trans h'.1, h'.2.trans h.2⟩
  rely_of_guar i j v e s hij _ hguar _ := by
    refine ⟨hguar, ?_⟩
    cases e with
    | none => rfl
    | some e =>
      rw [Shared.record_after_some, List.filter_cons_of_neg]
      simpa using Ne.symm hij

/-- The one call was counted, in a window that has begun. -/
def CountedAs (config : Config) (i : ℕ) (subject : Subject) (window count : ℕ)
    (v : Shared RateEvent Valkey) : Prop :=
  v.record.filter (·.1 = i) = [(i, .counted subject window count)] ∧
    1000 * config.windowSeconds * window ≤ v.state.now

/-- The call was counted and answered. -/
def Answered (config : Config) (i : ℕ) (subject : Subject) (answer : Decision)
    (v : Shared RateEvent Valkey) : Prop :=
  ∃ window count time, answer = decision config count time ∧
    v.record.filter (·.1 = i) = [(i, .decided time answer), (i, .counted subject window count)]

variable {config : Config}

/-- A step that leaves the counters alone and nothing on record. -/
theorem Counting.silent {v : Shared RateEvent Valkey} (h : Counting config v) {now : ℕ} (i : ℕ) :
    Counting config (v.after i none { v.state with now }) :=
  ⟨h.available, h.stored, h.lasts, h.numbered, h.decided⟩

/-- **A call is counted.** -/
theorem incr_holds (hwindow : 1 ≤ config.windowSeconds) {subject : Subject} {window i : ℕ}
    {v : Shared RateEvent Valkey} (hv : v.record.filter (·.1 = i) = []) :
    (counting config).holds i (incr subject window)
      (fun count => CountedAs config i subject window count) (fun _ _ => False) v := by
  rw [incr, Protocol.holds_bind, Protocol.holds_perform]
  intro v' hrely hinv hpermits
  have hnow : windowIndex config v'.state.now = window :=
    hpermits (.counted subject window (v'.state.incr (keyOf subject window)).1)
      (if_pos hinv.available)
  obtain ⟨hbegun, hlasting⟩ := (windowIndex_eq_iff hwindow).mp hnow
  have hlive : ∀ c ∈ v'.state.counters, c.key = keyOf subject window →
      v'.state.live (keyOf subject window) c = true := by
    intro c hc hkey
    rw [Valkey.live, decide_eq_true hkey, Bool.true_and, Option.all_eq_true]
    exact fun time htime => decide_eq_true
      (hlasting.trans_le (hinv.lasts c hc time htime subject window hkey))
  obtain ⟨hcount, hcounts⟩ := countOf_incr hlive
  rw [hinv.stored] at hcount
  simp only [hinv.available, if_true]
  refine ⟨(now_incr _ _).ge, ⟨(available_incr _ _).trans hinv.available, fun key => ?_, ?_, ?_, ?_⟩, ?_⟩
  · rw [Shared.state_after, hcounts, hinv.stored, Shared.record_after_some, tally_cons]
    simp only [countedKey, Option.some.injEq, eq_comm]
  · intro c hc time htime subject' window' hkey
    rcases counters_incr hc with hnone | ⟨old, hold, hsame, hexpires⟩
    · rw [hnone] at htime
      cases htime
    · exact hinv.lasts old hold time (hexpires ▸ htime) subject' window' (hsame ▸ hkey)
  · intro new j subject' window' count old hrecord
    rcases new with _ | ⟨e, new⟩
    · cases hrecord
      exact hcount
    · exact hinv.numbered new j subject' window' count old (List.cons.inj hrecord).2
  · intro j time answer hmem
    rcases List.mem_cons.mp hmem with hmem | hmem
    · cases hmem
    · exact hinv.decided j time answer hmem
  · rw [Protocol.holds_orThrow]
    refine ⟨fun count hsome => ?_, nofun⟩
    cases hsome
    refine ⟨?_, (now_incr _ _).symm ▸ hbegun⟩
    rw [Shared.record_after_some, List.filter_cons_of_pos (by simp), hrely.2, hv]

/-- What a call knows of itself, it still knows later. -/
theorem CountedAs.rely {i : ℕ} {subject : Subject} {window count : ℕ} {v v' : Shared RateEvent Valkey}
    (hrely : (counting config).rely i v v') (h : CountedAs config i subject window count v) :
    CountedAs config i subject window count v' :=
  ⟨hrely.2.trans h.1, h.2.trans hrely.1⟩

/-- **The deadline**: a window's length from now, and the window has begun. -/
theorem expire_holds {subject : Subject} {window count i : ℕ} {v : Shared RateEvent Valkey}
    (hv : CountedAs config i subject window count v) :
    (counting config).holds i (expire config (keyOf subject window))
      (fun _ => CountedAs config i subject window count) (fun _ _ => False) v := by
  rw [expire, Protocol.holds_bind, Program.alter, Protocol.holds_perform]
  intro v' hrely hinv _
  obtain ⟨hrecord, hbegun⟩ := hv.rely hrely
  simp only [hinv.available, if_true]
  refine ⟨le_rfl, ⟨hinv.available, fun key => ?_, ?_, hinv.numbered, hinv.decided⟩, ?_⟩
  · exact (countOf_expire _ _ _ _).trans (hinv.stored key)
  · intro c hc time htime subject' window' hkey
    rcases counters_expire hc with ⟨hsame, hnew⟩ | hold
    · rw [hnew, Option.mem_some] at htime
      obtain rfl := keyOf_window (hkey.symm.trans hsame)
      rw [Nat.mul_succ, ← htime]
      omega
    · exact hinv.lasts c hold time htime subject' window' hkey
  · rw [Protocol.holds_orThrow]
    exact ⟨fun _ _ => ⟨hrecord, hbegun⟩, nofun⟩

/-- **A call is counted once and answered by its number.** -/
theorem consume_holds (henabled : config.enabled = true) (hwindow : 1 ≤ config.windowSeconds)
    (subject : Subject) {i : ℕ} {v : Shared RateEvent Valkey} (hv : v.record.filter (·.1 = i) = []) :
    (counting config).holds i (RateLimitService.consume config subject)
      (fun answer => Answered config i subject answer) (fun _ _ => False) v := by
  rw [RateLimitService.consume, Protocol.holds_bind, Program.query, Protocol.holds_observe]
  intro v₁ hrely₁ hinv₁ _
  refine ⟨le_rfl, hinv₁.silent i, ?_⟩
  beta_reduce
  rw [if_neg (by simp [henabled, hinv₁.available]), Protocol.holds_bind, Program.query,
    Protocol.holds_observe]
  intro v₂ hrely₂ hinv₂ _
  refine ⟨le_rfl, hinv₂.silent i, ?_⟩
  beta_reduce
  rw [Protocol.holds_tryCatch, Protocol.holds_bind]
  have hfresh : v₂.record.filter (·.1 = i) = [] := hrely₂.2.trans (hrely₁.2.trans hv)
  refine Protocol.holds_mono (incr_holds hwindow hfresh) (fun count v₃ hcounted => ?_)
    fun _ _ hfalse => hfalse.elim
  rw [Protocol.holds_bind]
  have hdeadline : (counting config).holds i
      (if count = 1 then expire config (keyOf subject (windowIndex config v₂.state.now)) else pure () :
        Limiter Unit)
      (fun _ => CountedAs config i subject (windowIndex config v₂.state.now) count) (fun _ _ => False) v₃ := by
    split_ifs
    · exact expire_holds hcounted
    · exact hcounted
  refine Protocol.holds_mono hdeadline (fun _ v₄ hcounted => ?_) fun _ _ hfalse => hfalse.elim
  rw [Protocol.holds_observe]
  intro v₅ hrely₅ hinv₅ _
  obtain ⟨hrecord, -⟩ := hcounted.rely hrely₅
  refine ⟨le_rfl, ⟨hinv₅.available, fun key => ?_, hinv₅.lasts, ?_, ?_⟩, ?_⟩
  · rw [Shared.record_after_some, tally_cons, if_neg nofun]
    exact hinv₅.stored key
  · intro new j subject' window' count' old hnew
    rcases new with _ | ⟨e, new⟩
    · cases hnew
    · exact hinv₅.numbered new j subject' window' count' old (List.cons.inj hnew).2
  · intro j time answer hmem
    rcases List.mem_cons.mp hmem with hmem | hmem
    · cases hmem
      exact ⟨count, rfl⟩
    · exact hinv₅.decided j time answer hmem
  · refine ⟨windowIndex config v₂.state.now, count, v₅.state.now, rfl, ?_⟩
    rw [Shared.record_after_some, List.filter_cons_of_pos (by simp), hrecord]

/-- What is known of a call that is through. -/
def Through (config : Config) (i : ℕ) (request : RateRequest) (answer : Option Decision)
    (v : Shared RateEvent Valkey) : Prop :=
  ∀ subject answer', request = .consume subject → answer = some answer' →
    Answered config i subject answer' v

theorem program_holds (henabled : config.enabled = true) (hwindow : 1 ≤ config.windowSeconds)
    (request : RateRequest) (i : ℕ) (v : Shared RateEvent Valkey) (hv : Protocol.Fresh i v) :
    (counting config).holds i (request.program config) (Through config i request) (fun _ _ => False) v := by
  cases request with
  | consume subject =>
    have hfresh : v.record.filter (·.1 = i) = [] :=
      List.filter_eq_nil_iff.mpr fun e he => by simpa using hv e he
    rw [RateRequest.program, Protocol.holds_bind]
    refine Protocol.holds_mono (consume_holds henabled hwindow subject hfresh) ?_ fun _ _ h => h
    rintro answer v' hanswered _ _ ⟨⟩ ⟨⟩
    exact hanswered
  | wait milliseconds =>
    rw [RateRequest.program, Protocol.holds_bind, Program.alter, Protocol.holds_perform]
    intro v' _ hinv _
    exact ⟨Nat.le_add_right _ _, hinv.silent i, nofun⟩

/-! ## The limit -/

/-- The calls, the clock and the counters. -/
abbrev RatePool : Type := Pool RateRequest RateEvent RateFault Valkey (Option Decision)

/-- The answer a call came back with. -/
def answerOf (p : RatePool) (i : ℕ) : Option (Subject × Decision) :=
  match p.threads[i]? with
  | some ⟨.consume subject, some (.done (some answer))⟩ => some (subject, answer)
  | _ => none

/-- The call was counted under the key and allowed. -/
def AllowedUnder (p : RatePool) (key : Text) (i : ℕ) : Bool :=
  (answerOf p i).any (·.2.allowed) && p.record.any fun e => e.1 = i && countedKey e.2 = some key

/-- **The limit is kept**, and the answers say how far it is. -/
structure LimitKept (config : Config) (p : RatePool) : Prop where
  /-- In each window, at most `max` calls of a subject are allowed. -/
  allowed : ∀ subject window,
    ((List.range p.threads.length).filter (AllowedUnder p (keyOf subject window))).length ≤ config.max
  /-- An answer is about the calls counted up to the one it is for. -/
  remaining : ∀ i subject answer, answerOf p i = some (subject, answer) → ∃ window count new old,
    p.record = new ++ (i, .counted subject window count) :: old ∧
    count = tally (keyOf subject window) old + 1 ∧
    (answer.allowed = true ↔ count ≤ config.max) ∧ answer.remaining = config.max - count
  /-- Who waits as told comes back in the next window. -/
  retry : ∀ i subject answer, answerOf p i = some (subject, answer) →
    ∃ time, (i, .decided time answer) ∈ p.record ∧ 1 ≤ answer.retryAfterSeconds ∧
      windowIndex config (time + 1000 * answer.retryAfterSeconds) = windowIndex config time + 1

theorem answerOf_eq_some {p : RatePool} {i : ℕ} {subject : Subject} {answer : Decision}
    (h : answerOf p i = some (subject, answer)) :
    p.threads[i]? = some ⟨.consume subject, some (.done (some answer))⟩ := by
  unfold answerOf at h
  split at h
  case h_1 hthread =>
    cases h
    exact hthread
  case h_2 => cases h

/-- What an answered call has left on record. -/
theorem answered_of_answerOf {p : RatePool}
    (hp : (counting config).Sound (Through config) (fun _ _ _ _ => False) p) {i : ℕ} {subject : Subject}
    {answer : Decision} (h : answerOf p i = some (subject, answer)) :
    Answered config i subject answer p.toShared := by
  obtain ⟨v, hrely, hthrough⟩ := hp.threads i _ _ (answerOf_eq_some h)
  obtain ⟨window, count, time, hanswer, hrecord⟩ := hthrough subject answer rfl rfl
  exact ⟨window, count, time, hanswer, hrely.2.trans hrecord⟩

/-- **The limit, from what is known of the calls.** -/
theorem limitKept_of_sound (hwindow : 1 ≤ config.windowSeconds) {p : RatePool}
    (hp : (counting config).Sound (Through config) (fun _ _ _ _ => False) p) : LimitKept config p := by
  have hmem : ∀ {i : ℕ} {e : RateEvent} {es : List (ℕ × RateEvent)},
      p.record.filter (·.1 = i) = es → (i, e) ∈ es → (i, e) ∈ p.record := by
    rintro i e es rfl h
    exact List.mem_of_mem_filter h
  refine ⟨fun subject window => ?_, fun i subject answer hanswer => ?_, fun i subject answer hanswer => ?_⟩
  · -- An allowed call has one of the numbers up to the limit, and no two have the same.
    have hnumber : ∀ i, AllowedUnder p (keyOf subject window) i = true →
        ∃ count subject' window', count ∈ Finset.Icc 1 config.max ∧
          (i, .counted subject' window' count) ∈ p.record ∧
          keyOf subject' window' = keyOf subject window := by
      intro i hi
      rw [AllowedUnder, Bool.and_eq_true, Option.any_eq_true, List.any_eq_true] at hi
      obtain ⟨⟨⟨subject', answer⟩, hanswer, hallowed⟩, ⟨j, e⟩, he, hkey⟩ := hi
      rw [Bool.and_eq_true, decide_eq_true_eq, decide_eq_true_eq] at hkey
      obtain ⟨rfl, hkey⟩ := hkey
      obtain ⟨window', count, time, rfl, hrecord⟩ := answered_of_answerOf hp hanswer
      have hcounted := hmem hrecord (List.mem_cons_of_mem _ List.mem_cons_self)
      have hown : (j, e) ∈ p.record.filter (·.1 = j) := List.mem_filter.mpr ⟨he, decide_eq_true rfl⟩
      rw [hrecord, List.mem_cons, List.mem_singleton] at hown
      obtain ⟨new, old, hsplit⟩ := List.append_of_mem hcounted
      have hpos := hp.inv.numbered new j subject' window' count old hsplit
      refine ⟨count, subject', window', Finset.mem_Icc.mpr ⟨by omega, of_decide_eq_true hallowed⟩, hcounted, ?_⟩
      rcases hown with heq | heq
      · rw [(Prod.mk.inj heq).2] at hkey
        cases hkey
      · rw [(Prod.mk.inj heq).2] at hkey
        exact Option.some.inj hkey
    choose! number subject' window' hrange hcounted hkey using hnumber
    rw [← List.toFinset_card_of_nodup (List.nodup_range.filter _)]
    refine (Finset.card_le_card_of_injOn number (fun i hi => ?_) fun i hi j hj heq => ?_).trans_eq
      (Nat.card_Icc 1 config.max)
    · exact hrange i (List.mem_filter.mp (List.mem_toFinset.mp hi)).2
    · have hi := (List.mem_filter.mp (List.mem_toFinset.mp hi)).2
      have hj := (List.mem_filter.mp (List.mem_toFinset.mp hj)).2
      have hcountedj := hcounted j hj
      rw [← heq] at hcountedj
      exact hp.inv.numbered.injective (hcounted i hi) hcountedj ((hkey j hj).trans (hkey i hi).symm)
  · obtain ⟨window, count, time, rfl, hrecord⟩ := answered_of_answerOf hp hanswer
    obtain ⟨new, old, hsplit⟩ :=
      List.append_of_mem (hmem hrecord (List.mem_cons_of_mem _ List.mem_cons_self))
    exact ⟨window, count, new, old, hsplit, hp.inv.numbered new i subject window count old hsplit,
      decide_eq_true_iff, rfl⟩
  · obtain ⟨window, count, time, rfl, hrecord⟩ := answered_of_answerOf hp hanswer
    exact ⟨time, hmem hrecord List.mem_cons_self, windowIndex_retryAfterSeconds hwindow time⟩

/-- **The limit is shared and never exceeded**, on any schedule on which each call is counted while
the window it belongs to lasts. -/
theorem limit_kept (config : Config) (henabled : config.enabled = true)
    (hwindow : 1 ≤ config.windowSeconds) (now : ℕ) (schedule : List (Move RateRequest))
    (hpermitted : (⟨⟨{ now }, []⟩, []⟩ : RatePool).Permitted (RateRequest.program config)
      (InWindow config) schedule) :
    LimitKept config ((⟨⟨{ now }, []⟩, []⟩ : RatePool).run (RateRequest.program config) schedule) := by
  have hinv : Counting config ⟨{ now }, []⟩ := by
    refine ⟨rfl, fun _ => rfl, nofun, fun new i subject window count old h => ?_, nofun⟩
    simp at h
  refine limitKept_of_sound hwindow (Protocol.sound (P := counting config)
    (fun r i v _ hfresh => program_holds henabled hwindow r i v hfresh) (.of_idle hinv rfl) hpermitted)

/-- Two calls a minute. -/
def twoAMinute : Config := { enabled := true, windowSeconds := 60, max := 2 }

/-- Three calls of one user; the first sets its deadline when the others have been counted. -/
def threeCalls : List (Move RateRequest) :=
  List.replicate 3 (.start (.consume ⟨"user".toList, "ada".toList⟩)) ++ [.start (.wait 2000)] ++
    List.replicate 3 (.advance 0) ++ List.replicate 4 (.advance 1) ++ [.advance 3] ++
    List.replicate 4 (.advance 2) ++ List.replicate 2 (.advance 0)

/-- The third call is refused, with what is left of the minute to wait. -/
example : ((⟨⟨{ now := 50000 }, []⟩, []⟩ : RatePool).run (RateRequest.program twoAMinute)
    threeCalls).threads.map (fun t => match t.rest with
      | some (.done answer) => answer
      | _ => none) =
    [some ⟨true, 2, 1, 8⟩, some ⟨true, 2, 0, 10⟩, some ⟨false, 2, 0, 8⟩, none] := by
  decide +kernel

theorem limit_kept_threeCalls :
    LimitKept twoAMinute ((⟨⟨{ now := 50000 }, []⟩, []⟩ : RatePool).run (RateRequest.program twoAMinute)
      threeCalls) :=
  limit_kept twoAMinute rfl (by decide) 50000 threeCalls (by decide +kernel)

end RateLimitService
end SimpleStorage
