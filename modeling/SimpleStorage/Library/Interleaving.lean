import Mathlib.Data.List.Basic
import SimpleStorage.Library.Program

/-!
# Interleaved programs

Any number of threads, each with a program of atomic steps, work on one state.  A schedule
says what happens next: a request comes in, a thread takes its next step, or a thread
crashes and takes no more.  What the steps leave on record is kept with the thread that left
it, the newest first.

Properties of all schedules are proved thread by thread.  A `Protocol` says what every
thread may rely on of the others and what it guarantees them, together with an invariant
and, where a property only holds if certain steps do not come at certain times, with what is
permitted.  `Protocol.holds` is the end of a single program under these assumptions, and
`Protocol.sound` puts the threads together.

* `holds_bind`, `holds_tryCatch`: the two ways to put programs together.
* `holds_of_stable`: a program whose steps all keep what is known; `holds_frame`: what is kept
  besides.
* `Protocol.and`, `holds_both`: a program that keeps to two protocols.
* `Protocol.sound`: the invariant in every state reached, and what each thread knows;
  `Protocol.sound_of` also tells when requests come in, and by what reasons moves are permitted.
-/

namespace SimpleStorage

/-- A state with what is on record, the newest first, and by which thread. -/
structure Shared (ω σ : Type) where
  state : σ
  record : List (ℕ × ω) := []

namespace Shared

variable {ω σ : Type}

/-- Thread `i` moves on to a state and leaves an event, or none. -/
def after (v : Shared ω σ) (i : ℕ) (event : Option ω) (state : σ) : Shared ω σ where
  state
  record := event.toList.map (i, ·) ++ v.record

@[simp] theorem state_after (v : Shared ω σ) (i : ℕ) (event : Option ω) (s : σ) :
    (v.after i event s).state = s := rfl

@[simp] theorem record_after_none (v : Shared ω σ) (i : ℕ) (s : σ) :
    (v.after i none s).record = v.record := rfl

@[simp] theorem record_after_some (v : Shared ω σ) (i : ℕ) (e : ω) (s : σ) :
    (v.after i (some e) s).record = (i, e) :: v.record := rfl

end Shared

/-- A request and what is left of its program; nothing once it has crashed. -/
structure Thread (ρ ω ε σ α : Type) where
  request : ρ
  rest : Option (Program ω ε σ α)

structure Pool (ρ ω ε σ α : Type) extends Shared ω σ where
  threads : List (Thread ρ ω ε σ α) := []

/-- What may happen next. -/
inductive Move (ρ : Type) where
  | start (request : ρ)
  | advance (i : ℕ)
  | crash (i : ℕ)
  deriving DecidableEq, Repr

/-- The request that comes in, if one does. -/
def Move.request {ρ : Type} : Move ρ → Option ρ
  | .start request => some request
  | _ => none

namespace Pool

variable {ρ ω ε σ α : Type} (program : ρ → Program ω ε σ α)

/-- The next step of a thread, if there is one. -/
def advance (p : Pool ρ ω ε σ α) (i : ℕ) : Pool ρ ω ε σ α :=
  match p.threads[i]? with
  | some ⟨request, some (.step event effect next)⟩ => {
      toShared := p.toShared.after i (event p.state) (effect p.state)
      threads := p.threads.set i ⟨request, some (next p.state)⟩ }
  | _ => p

def crash (p : Pool ρ ω ε σ α) (i : ℕ) : Pool ρ ω ε σ α :=
  match p.threads[i]? with
  | some thread => { p with threads := p.threads.set i ⟨thread.request, none⟩ }
  | none => p

def move (p : Pool ρ ω ε σ α) : Move ρ → Pool ρ ω ε σ α
  | .start request => { p with threads := p.threads ++ [⟨request, some (program request)⟩] }
  | .advance i => p.advance i
  | .crash i => p.crash i

/-- **What becomes of the pool on a schedule.** -/
def run (p : Pool ρ ω ε σ α) (schedule : List (Move ρ)) : Pool ρ ω ε σ α :=
  schedule.foldl (move program) p

@[simp] theorem run_nil (p : Pool ρ ω ε σ α) : p.run program [] = p := rfl

@[simp] theorem run_cons (p : Pool ρ ω ε σ α) (m : Move ρ) (schedule : List (Move ρ)) :
    p.run program (m :: schedule) = (p.move program m).run program schedule := rfl

theorem run_append (p : Pool ρ ω ε σ α) (schedule schedule' : List (Move ρ)) :
    p.run program (schedule ++ schedule') = (p.run program schedule).run program schedule' :=
  List.foldl_append

/-- **What every step keeps, a schedule keeps**: of the state, and of what is on record. -/
theorem run_keeps {p : (σ → Option ω) → (σ → σ) → Prop} {inv : Shared ω σ → Prop}
    (hprogram : ∀ r, (program r).Every p)
    (hstep : ∀ event effect, p event effect → ∀ i v, inv v →
      inv (v.after i (event v.state) (effect v.state))) {q : Pool ρ ω ε σ α}
    (hthreads : ∀ t ∈ q.threads, ∀ x ∈ t.rest, x.Every p) (hq : inv q.toShared)
    (schedule : List (Move ρ)) : inv (q.run program schedule).toShared := by
  induction schedule generalizing q with
  | nil => exact hq
  | cons m schedule ih =>
    rw [run_cons]
    cases m with
    | start r =>
      refine ih (fun t ht x hx => ?_) hq
      rcases List.mem_append.mp ht with ht | ht
      · exact hthreads t ht x hx
      · obtain rfl := List.mem_singleton.mp ht
        exact Option.some.inj hx ▸ hprogram r
    | advance i =>
      rw [move, advance]
      split
      case h_2 => exact ih hthreads hq
      case h_1 r event effect next hthread =>
        have hevery := hthreads _ (List.mem_of_getElem? hthread) _ rfl
        cases hevery with
        | step hp hnext =>
          refine ih (fun t ht x hx => ?_) (hstep _ _ hp i _ hq)
          rcases List.mem_or_eq_of_mem_set ht with ht | rfl
          · exact hthreads t ht x hx
          · exact Option.some.inj hx ▸ hnext q.state
    | crash i =>
      rw [move, crash]
      split
      case h_2 => exact ih hthreads hq
      case h_1 t hthread =>
        refine ih (fun t' ht' x hx => ?_) hq
        rcases List.mem_or_eq_of_mem_set ht' with ht' | rfl
        · exact hthreads t' ht' x hx
        · cases hx

/-- The event a move leaves, and by which thread. -/
def leaves (p : Pool ρ ω ε σ α) : Move ρ → Option (ℕ × ω)
  | .advance i =>
      match p.threads[i]? with
      | some ⟨_, some (.step event _ _)⟩ => (event p.state).map (i, ·)
      | _ => none
  | _ => none

/-- **No move leaves an event where it is not permitted.** -/
def Permitted (permits : Shared ω σ → ℕ → ω → Prop) : Pool ρ ω ε σ α → List (Move ρ) → Prop
  | _, [] => True
  | p, m :: schedule => (∀ e ∈ p.leaves m, permits p.toShared e.1 e.2) ∧
      Permitted permits (p.move program m) schedule

/-- A move leaves its event on record, and nothing else. -/
theorem record_move (p : Pool ρ ω ε σ α) (m : Move ρ) :
    (p.move program m).record = (p.leaves m).toList ++ p.record := by
  cases m with
  | start r => rfl
  | advance i =>
    rw [move, advance, leaves]
    split
    case h_1 r event effect next hthread =>
      show (event p.state).toList.map (i, ·) ++ p.record = _
      cases event p.state <;> rfl
    case h_2 => rfl
  | crash i =>
    rw [move, crash]
    split <;> rfl

/-- The record only grows. -/
theorem record_run (p : Pool ρ ω ε σ α) (schedule : List (Move ρ)) :
    ∃ new, (p.run program schedule).record = new ++ p.record := by
  induction schedule generalizing p with
  | nil => exact ⟨[], rfl⟩
  | cons m schedule ih =>
    obtain ⟨new, hnew⟩ := ih (p.move program m)
    exact ⟨new ++ (p.leaves m).toList, by
      rw [run_cons, hnew, record_move, List.append_assoc]⟩

/-- **What is true of the whole record, and of every older part of it with it, is permitted all
along.** -/
theorem permitted_of_record {q : List (ℕ × ω) → Prop} (hq : ∀ new record, q (new ++ record) → q record)
    {p : Pool ρ ω ε σ α} {schedule : List (Move ρ)} (h : q (p.run program schedule).record) :
    p.Permitted program (fun v i e => q ((i, e) :: v.record)) schedule := by
  induction schedule generalizing p with
  | nil => trivial
  | cons m schedule ih =>
    refine ⟨fun e he => ?_, ih h⟩
    obtain ⟨new, hnew⟩ := record_run program (p.move program m) schedule
    rw [run_cons, hnew, record_move, Option.mem_def.mp he] at h
    exact hq new _ h

/-- Moves that are permitted for two reasons. -/
theorem Permitted.and {permits permits' : Shared ω σ → ℕ → ω → Prop} {p : Pool ρ ω ε σ α}
    {schedule : List (Move ρ)} (h : p.Permitted program permits schedule)
    (h' : p.Permitted program permits' schedule) :
    p.Permitted program (fun v i e => permits v i e ∧ permits' v i e) schedule := by
  induction schedule generalizing p with
  | nil => trivial
  | cons m schedule ih => exact ⟨fun e he => ⟨h.1 e he, h'.1 e he⟩, ih h.2 h'.2⟩

/-- Moves that are permitted for weaker reasons. -/
theorem Permitted.mono {permits permits' : Shared ω σ → ℕ → ω → Prop}
    (h : ∀ v i e, permits v i e → permits' v i e) {p : Pool ρ ω ε σ α} {schedule : List (Move ρ)}
    (hp : p.Permitted program permits schedule) : p.Permitted program permits' schedule := by
  induction schedule generalizing p with
  | nil => trivial
  | cons m schedule ih => exact ⟨fun e he => h _ _ _ (hp.1 e he), ih hp.2⟩

/-- The state comes up on the schedule. -/
def Reached (p : Pool ρ ω ε σ α) (schedule : List (Move ρ)) (v : Shared ω σ) : Prop :=
  ∃ moves, moves <+: schedule ∧ (p.run program moves).toShared = v

/-- **Every event is left in a state that comes up on the schedule.** -/
theorem permitted_reached (p : Pool ρ ω ε σ α) (schedule : List (Move ρ)) :
    p.Permitted program (fun v _ _ => p.Reached program schedule v) schedule := by
  induction schedule generalizing p with
  | nil => trivial
  | cons m schedule ih =>
    refine ⟨fun e _ => ⟨[], List.nil_prefix, rfl⟩, Permitted.mono program ?_ (ih (p.move program m))⟩
    intro v i e ⟨moves, hmoves, hv⟩
    exact ⟨m :: moves, List.cons_prefix_cons.mpr ⟨rfl, hmoves⟩, hv⟩

/-- **No request comes in where it is not ready to.** -/
def StartsWhen (ready : Shared ω σ → ρ → Prop) : Pool ρ ω ε σ α → List (Move ρ) → Prop
  | _, [] => True
  | p, m :: schedule => (∀ r ∈ m.request, ready p.toShared r) ∧
      StartsWhen ready (p.move program m) schedule

theorem startsWhen_true (p : Pool ρ ω ε σ α) (schedule : List (Move ρ)) :
    p.StartsWhen program (fun _ _ => True) schedule := by
  induction schedule generalizing p with
  | nil => trivial
  | cons m schedule ih => exact ⟨fun _ _ => trivial, ih _⟩

/-- None comes in while the threads take turns. -/
theorem startsWhen_advance (ready : Shared ω σ → ρ → Prop) (p : Pool ρ ω ε σ α) (turns : List ℕ) :
    p.StartsWhen program ready (turns.map .advance) := by
  induction turns generalizing p with
  | nil => trivial
  | cons i turns ih => exact ⟨fun _ h => by simp [Move.request] at h, ih _⟩

instance decidablePermitted (permits : Shared ω σ → ℕ → ω → Prop) [∀ v i e, Decidable (permits v i e)] :
    ∀ (p : Pool ρ ω ε σ α) (schedule : List (Move ρ)), Decidable (p.Permitted program permits schedule)
  | _, [] => isTrue trivial
  | p, m :: schedule =>
      have := decidablePermitted permits (p.move program m) schedule
      inferInstanceAs (Decidable ((∀ e ∈ p.leaves m, permits p.toShared e.1 e.2) ∧
        Permitted program permits (p.move program m) schedule))

instance decidableStartsWhen (ready : Shared ω σ → ρ → Prop) [∀ v r, Decidable (ready v r)] :
    ∀ (p : Pool ρ ω ε σ α) (schedule : List (Move ρ)), Decidable (p.StartsWhen program ready schedule)
  | _, [] => isTrue trivial
  | p, m :: schedule =>
      have := decidableStartsWhen ready (p.move program m) schedule
      inferInstanceAs (Decidable ((∀ r ∈ m.request, ready p.toShared r) ∧
        StartsWhen program ready (p.move program m) schedule))

end Pool

/-- **What threads rely on, what they guarantee, and what holds throughout.** -/
structure Protocol (ω σ : Type) where
  /-- Where a thread may leave an event. -/
  permits : Shared ω σ → ℕ → ω → Prop := fun _ _ _ => True
  inv : Shared ω σ → Prop
  /-- What other threads do to what a thread sees. -/
  rely : ℕ → Shared ω σ → Shared ω σ → Prop
  /-- What a thread does in a step. -/
  guar : ℕ → Shared ω σ → Option ω → σ → Prop
  refl : ∀ i v, rely i v v
  trans : ∀ i v v' v'', rely i v v' → rely i v' v'' → rely i v v''
  rely_of_guar : ∀ i j v e s, i ≠ j → inv v → guar j v e s → inv (v.after j e s) →
    rely i v (v.after j e s)

namespace Protocol

variable {ρ ω ε σ α β : Type} (P : Protocol ω σ)

/-- One step of thread `i` keeps to the protocol and leads to `post`, whenever it is taken. -/
def StepHolds (i : ℕ) (event : σ → Option ω) (effect : σ → σ) (post : σ → Shared ω σ → Prop)
    (v : Shared ω σ) : Prop :=
  ∀ v', P.rely i v v' → P.inv v' → (∀ e, event v'.state = some e → P.permits v' i e) →
    P.guar i v' (event v'.state) (effect v'.state) ∧
    P.inv (v'.after i (event v'.state) (effect v'.state)) ∧
    post v'.state (v'.after i (event v'.state) (effect v'.state))

/-- **A program of thread `i` keeps to the protocol and ends well**, when its steps are mixed with
those of the others. -/
def holds (i : ℕ) : Program ω ε σ α → (α → Shared ω σ → Prop) → (ε → Shared ω σ → Prop) →
    Shared ω σ → Prop
  | .done a, post, _, v => post a v
  | .failed e, _, fail, v => fail e v
  | .step event effect next, post, fail, v =>
      P.StepHolds i event effect (fun s => holds i (next s) post fail) v

section Rules

variable {P} {i : ℕ} {post : α → Shared ω σ → Prop} {fail : ε → Shared ω σ → Prop} {v : Shared ω σ}

theorem StepHolds.mono {event : σ → Option ω} {effect : σ → σ} {q q' : σ → Shared ω σ → Prop}
    (h : P.StepHolds i event effect q v) (hq : ∀ s v', q s v' → q' s v') :
    P.StepHolds i event effect q' v := by
  intro v' hrely hinv hpermits
  obtain ⟨hguar, hinv', hpost⟩ := h v' hrely hinv hpermits
  exact ⟨hguar, hinv', hq _ _ hpost⟩

/-- A weaker end. -/
theorem holds_mono {x : Program ω ε σ α} {post' : α → Shared ω σ → Prop}
    {fail' : ε → Shared ω σ → Prop} (h : P.holds i x post fail v)
    (hpost : ∀ a v', post a v' → post' a v') (hfail : ∀ e v', fail e v' → fail' e v') :
    P.holds i x post' fail' v := by
  induction x generalizing v with
  | done a => exact hpost a v h
  | failed e => exact hfail e v h
  | step event effect next ih => exact StepHolds.mono h fun s v' h => ih s h

@[simp] theorem holds_pure {a : α} :
    P.holds i (pure a : Program ω ε σ α) post fail v ↔ post a v := Iff.rfl

@[simp] theorem holds_throw {e : ε} :
    P.holds i (throw e : Program ω ε σ α) post fail v ↔ fail e v := Iff.rfl

theorem holds_perform {event : σ → Option ω} {f : σ → α × σ} :
    P.holds i (Program.perform event f : Program ω ε σ α) post fail v ↔
      P.StepHolds i event (fun s => (f s).2) (fun s => post (f s).1) v := Iff.rfl

theorem holds_observe {event : σ → Option ω} {f : σ → α} :
    P.holds i (Program.observe event f : Program ω ε σ α) post fail v ↔
      P.StepHolds i event id (fun s => post (f s)) v := Iff.rfl

/-- **A sequence.** -/
theorem holds_bind {x : Program ω ε σ β} {f : β → Program ω ε σ α} :
    P.holds i (x >>= f) post fail v ↔
      P.holds i x (fun b => P.holds i (f b) post fail) fail v := by
  change P.holds i (x.bind f) post fail v ↔ _
  induction x generalizing v with
  | done b => exact Iff.rfl
  | failed e => exact Iff.rfl
  | step event effect next ih =>
    exact ⟨fun h => StepHolds.mono h fun s v' h => (ih s).mp h,
      fun h => StepHolds.mono h fun s v' h => (ih s).mpr h⟩

/-- **A handler.** -/
theorem holds_tryCatch {x : Program ω ε σ α} {handle : ε → Program ω ε σ α} :
    P.holds i (tryCatch x handle) post fail v ↔
      P.holds i x post (fun e => P.holds i (handle e) post fail) v := by
  change P.holds i (x.tryCatch handle) post fail v ↔ _
  induction x generalizing v with
  | done a => exact Iff.rfl
  | failed e => exact Iff.rfl
  | step event effect next ih =>
    exact ⟨fun h => StepHolds.mono h fun s v' h => (ih s).mp h,
      fun h => StepHolds.mono h fun s v' h => (ih s).mpr h⟩

theorem holds_require {c : Prop} [Decidable c] {e : ε} {post : Unit → Shared ω σ → Prop} :
    P.holds i (Program.require c e : Program ω ε σ Unit) post fail v ↔
      (c → post () v) ∧ (¬ c → fail e v) := by
  rw [Program.require]
  by_cases h : c
  · simp [h]
  · simp [h]

theorem holds_orThrow {x : Option α} {e : ε} :
    P.holds i (Program.orThrow x e : Program ω ε σ α) post fail v ↔
      (∀ a, x = some a → post a v) ∧ (x = none → fail e v) := by
  cases x with
  | none => simp [Program.orThrow]
  | some a => simp [Program.orThrow]

theorem holds_orThrow_some {a : α} {e : ε} :
    P.holds i (Program.orThrow (some a) e : Program ω ε σ α) post fail v ↔ post a v := by
  simp [holds_orThrow]

/-- **A loop with an accumulator** whose turns keep what is known. -/
theorem holds_foldlM {f : α → β → Program ω ε σ α} {xs : List β} (known : Shared ω σ → Prop)
    (hstep : ∀ a, ∀ x ∈ xs, ∀ v, known v → P.holds i (f a x) (fun _ => known) fail v) {a : α}
    (hv : known v) : P.holds i (xs.foldlM f a) (fun _ => known) fail v := by
  induction xs generalizing a v with
  | nil => exact hv
  | cons x xs ih =>
    rw [List.foldlM_cons, holds_bind]
    refine holds_mono (hstep a x List.mem_cons_self v hv) (fun a' v' hv' => ?_) fun _ _ h => h
    exact ih (fun a y hy => hstep a y (List.mem_cons_of_mem _ hy)) hv'

/-- **A program whose steps all keep what is known** ends knowing it. -/
theorem holds_of_stable {p : (σ → Option ω) → (σ → σ) → Prop} (known : Shared ω σ → Prop)
    (hstep : ∀ event effect, p event effect → ∀ v, known v → P.StepHolds i event effect
      (fun _ => known) v)
    {x : Program ω ε σ α} (hx : x.Every p) (hv : known v) :
    P.holds i x (fun _ => known) (fun _ => known) v := by
  induction hx generalizing v with
  | done a => exact hv
  | failed e => exact hv
  | step hp _ ih => exact StepHolds.mono (hstep _ _ hp v hv) fun s v' h => ih s h

/-- Two ends of one program. -/
theorem holds_and {x : Program ω ε σ α} {post' : α → Shared ω σ → Prop}
    {fail' : ε → Shared ω σ → Prop} (h : P.holds i x post fail v) (h' : P.holds i x post' fail' v) :
    P.holds i x (fun a v' => post a v' ∧ post' a v') (fun e v' => fail e v' ∧ fail' e v') v := by
  induction x generalizing v with
  | done a => exact ⟨h, h'⟩
  | failed e => exact ⟨h, h'⟩
  | step event effect next ih =>
    intro v' hv' hinv hpermits
    obtain ⟨hg, hinv', hnext⟩ := h v' hv' hinv hpermits
    exact ⟨hg, hinv', ih _ hnext (h' v' hv' hinv hpermits).2.2⟩

/-- **A frame**: what neither the others nor the thread itself undo stays known. -/
theorem holds_frame {known : Shared ω σ → Prop}
    (hrely : ∀ v v', P.rely i v v' → known v → known v')
    (hguar : ∀ v e s, P.guar i v e s → known v → known (v.after i e s))
    {x : Program ω ε σ α} (h : P.holds i x post fail v) (hv : known v) :
    P.holds i x (fun a v' => post a v' ∧ known v') (fun e v' => fail e v' ∧ known v') v := by
  induction x generalizing v with
  | done a => exact ⟨h, hv⟩
  | failed e => exact ⟨h, hv⟩
  | step event effect next ih =>
    intro v' hv' hinv hpermits
    obtain ⟨hg, hinv', hnext⟩ := h v' hv' hinv hpermits
    exact ⟨hg, hinv', ih _ hnext (hguar _ _ _ hg (hrely _ _ hv' hv))⟩

end Rules

/-! ## Two protocols at once -/

section Both

variable (Q : Protocol ω σ)

/-- **Both protocols.** -/
def and : Protocol ω σ where
  permits v i e := P.permits v i e ∧ Q.permits v i e
  inv v := P.inv v ∧ Q.inv v
  rely i v v' := P.rely i v v' ∧ Q.rely i v v'
  guar j v e s := P.guar j v e s ∧ Q.guar j v e s
  refl i v := ⟨P.refl i v, Q.refl i v⟩
  trans i v v' v'' h h' := ⟨P.trans i v v' v'' h.1 h'.1, Q.trans i v v' v'' h.2 h'.2⟩
  rely_of_guar i j v e s hij hinv hguar hinv' :=
    ⟨P.rely_of_guar i j v e s hij hinv.1 hguar.1 hinv'.1,
      Q.rely_of_guar i j v e s hij hinv.2 hguar.2 hinv'.2⟩

variable {P Q} {i : ℕ} {post post' : α → Shared ω σ → Prop} {fail fail' : ε → Shared ω σ → Prop}
  {v : Shared ω σ}

/-- **A program that keeps to each of them keeps to both.** -/
theorem holds_both {x : Program ω ε σ α} (h : P.holds i x post fail v)
    (h' : Q.holds i x post' fail' v) : (P.and Q).holds i x (fun a v' => post a v' ∧ post' a v')
      (fun e v' => fail e v' ∧ fail' e v') v := by
  induction x generalizing v with
  | done a => exact ⟨h, h'⟩
  | failed e => exact ⟨h, h'⟩
  | step event effect next ih =>
    intro v' hrely hinv hpermits
    obtain ⟨hguar, hinv₁, hnext⟩ := h v' hrely.1 hinv.1 fun e he => (hpermits e he).1
    obtain ⟨hguar', hinv₂, hnext'⟩ := h' v' hrely.2 hinv.2 fun e he => (hpermits e he).2
    exact ⟨⟨hguar, hguar'⟩, ⟨hinv₁, hinv₂⟩, ih _ hnext hnext'⟩

/-- **A program that keeps to one of them**, by steps that thereby keep to the other and leave what is
known. -/
theorem holds_both_of_steps {p : (σ → Option ω) → (σ → σ) → Prop} {known : Shared ω σ → Prop}
    (hrely : ∀ v v', P.rely i v v' → Q.rely i v v' → known v → known v')
    (hstep : ∀ event effect, p event effect → ∀ v, P.inv v → Q.inv v → known v →
      P.guar i v (event v.state) (effect v.state) →
      Q.guar i v (event v.state) (effect v.state) ∧
        Q.inv (v.after i (event v.state) (effect v.state)) ∧
        known (v.after i (event v.state) (effect v.state)))
    {x : Program ω ε σ α} (hx : x.Every p) (h : P.holds i x post fail v) (hv : known v) :
    (P.and Q).holds i x (fun a v' => post a v' ∧ known v') (fun e v' => fail e v' ∧ known v') v := by
  induction hx generalizing v with
  | done a => exact ⟨h, hv⟩
  | failed e => exact ⟨h, hv⟩
  | step hp _ ih =>
    intro v' hrely' hinv hpermits
    obtain ⟨hguar, hinv₁, hnext⟩ := h v' hrely'.1 hinv.1 fun e he => (hpermits e he).1
    obtain ⟨hguar', hinv₂, hknown⟩ :=
      hstep _ _ hp v' hinv.1 hinv.2 (hrely _ _ hrely'.1 hrely'.2 hv) hguar
    exact ⟨⟨hguar, hguar'⟩, ⟨hinv₁, hinv₂⟩, ih _ hnext hknown⟩

end Both

/-! ## All threads together -/

variable (program : ρ → Program ω ε σ α) (post : ℕ → ρ → α → Shared ω σ → Prop)
  (fail : ℕ → ρ → ε → Shared ω σ → Prop)

/-- Thread `i` has left nothing on record yet. -/
def Fresh (i : ℕ) (v : Shared ω σ) : Prop := ∀ e ∈ v.record, e.1 ≠ i

/-- **What is known of a pool**: the invariant, and of each thread that what is left of its program
held when it last moved. -/
structure Sound (p : Pool ρ ω ε σ α) : Prop where
  inv : P.inv p.toShared
  record : ∀ e ∈ p.record, e.1 < p.threads.length
  threads : ∀ i r x, p.threads[i]? = some ⟨r, some x⟩ →
    ∃ v, P.rely i v p.toShared ∧ P.holds i x (post i r) (fail i r) v

variable {P program post fail}

/-- A pool whose threads have not moved yet. -/
theorem Sound.of_waiting {p : Pool ρ ω ε σ α} (hinv : P.inv p.toShared) (hrecord : p.record = [])
    (hthreads : ∀ i r x, p.threads[i]? = some ⟨r, some x⟩ →
      P.holds i x (post i r) (fail i r) p.toShared) : P.Sound post fail p :=
  ⟨hinv, by simp [hrecord], fun i r x hx => ⟨p.toShared, P.refl _ _, hthreads i r x hx⟩⟩

/-- A pool nobody works on yet. -/
theorem Sound.of_idle {v : Shared ω σ} (hinv : P.inv v) (hrecord : v.record = []) :
    P.Sound post fail (⟨v, []⟩ : Pool ρ ω ε σ α) :=
  .of_waiting hinv hrecord (by simp)

theorem Sound.start {p : Pool ρ ω ε σ α} (hp : P.Sound post fail p) {r : ρ}
    (hr : ∀ i, Fresh i p.toShared → P.holds i (program r) (post i r) (fail i r) p.toShared) :
    P.Sound post fail (p.move program (.start r)) where
  inv := hp.inv
  record := fun e he => by
    rw [Pool.move, List.length_append]
    exact Nat.lt_add_right _ (hp.record e he)
  threads := fun i r' x hx => by
    rw [Pool.move, List.getElem?_append] at hx
    split_ifs at hx with hi
    · exact hp.threads i r' x hx
    · obtain ⟨hlast, hx⟩ := List.getElem?_eq_some_iff.mp hx
      rw [List.length_singleton] at hlast
      rw [List.getElem_singleton] at hx
      cases hx
      refine ⟨p.toShared, P.refl _ _, hr i fun e he => ?_⟩
      have := hp.record e he
      omega

theorem Sound.advance {p : Pool ρ ω ε σ α} (hp : P.Sound post fail p) (i : ℕ)
    (hpermits : ∀ e ∈ p.leaves (.advance i), P.permits p.toShared e.1 e.2) :
    P.Sound post fail (p.advance i) := by
  unfold Pool.advance
  split
  case h_2 => exact hp
  case h_1 r event effect next hthread =>
    obtain ⟨v, hrely, hholds⟩ := hp.threads i r _ hthread
    obtain ⟨hguar, hinv, hnext⟩ := hholds p.toShared hrely hp.inv fun e he => by
      refine hpermits (i, e) ?_
      rw [Pool.leaves, hthread]
      exact congrArg (Option.map (i, ·)) he
    have hi : i < p.threads.length := (List.getElem?_eq_some_iff.mp hthread).1
    refine ⟨hinv, fun e he => ?_, fun j r' x hx => ?_⟩
    · rw [List.length_set]
      rcases List.mem_append.mp he with he | he
      · obtain ⟨_, -, rfl⟩ := List.mem_map.mp he
        exact hi
      · exact hp.record e he
    · by_cases hij : j = i
      · subst hij
        rw [List.getElem?_set_self hi, Option.some.injEq] at hx
        cases hx
        exact ⟨_, P.refl _ _, hnext⟩
      · rw [List.getElem?_set_ne (Ne.symm hij)] at hx
        obtain ⟨v', hrely', hholds'⟩ := hp.threads j r' x hx
        exact ⟨v', P.trans _ _ _ _ hrely' (P.rely_of_guar j i _ _ _ hij hp.inv hguar hinv), hholds'⟩

theorem Sound.crash {p : Pool ρ ω ε σ α} (hp : P.Sound post fail p) (i : ℕ) :
    P.Sound post fail (p.crash i) := by
  unfold Pool.crash
  split
  case h_2 => exact hp
  case h_1 thread hthread =>
    refine ⟨hp.inv, fun e he => ?_, fun j r x hx => ?_⟩
    · rw [List.length_set]
      exact hp.record e he
    · by_cases hij : j = i
      · subst hij
        rw [List.getElem?_set_self (List.getElem?_eq_some_iff.mp hthread).1, Option.some.injEq] at hx
        cases hx
      · rw [List.getElem?_set_ne (Ne.symm hij)] at hx
        exact hp.threads j r x hx

/-- **Every program keeps to the protocol, so every schedule does**, if the requests are ready when
they come in, and what permits a move permits it by the protocol while the invariant holds. -/
theorem sound_of {ready : Shared ω σ → ρ → Prop} {permits : Shared ω σ → ℕ → ω → Prop}
    (hprogram : ∀ r i v, P.inv v → ready v r → Fresh i v →
      P.holds i (program r) (post i r) (fail i r) v)
    (hpermits : ∀ v i e, P.inv v → permits v i e → P.permits v i e)
    {p : Pool ρ ω ε σ α} (hp : P.Sound post fail p) {schedule : List (Move ρ)}
    (hstarts : p.StartsWhen program ready schedule)
    (hpermitted : p.Permitted program permits schedule) :
    P.Sound post fail (p.run program schedule) := by
  induction schedule generalizing p with
  | nil => exact hp
  | cons m schedule ih =>
    refine ih ?_ hstarts.2 hpermitted.2
    cases m with
    | start r => exact hp.start fun i hfresh => hprogram r i _ hp.inv (hstarts.1 r rfl) hfresh
    | advance i => exact hp.advance i fun e he => hpermits _ _ _ hp.inv (hpermitted.1 e he)
    | crash i => exact hp.crash i

/-- Requests may come in at any time, and moves are permitted by the protocol. -/
theorem sound (hprogram : ∀ r i v, P.inv v → Fresh i v →
      P.holds i (program r) (post i r) (fail i r) v)
    {p : Pool ρ ω ε σ α} (hp : P.Sound post fail p) {schedule : List (Move ρ)}
    (hpermitted : p.Permitted program P.permits schedule) :
    P.Sound post fail (p.run program schedule) :=
  sound_of (fun r i v hinv _ => hprogram r i v hinv) (fun _ _ _ _ h => h) hp
    (Pool.startsWhen_true program p schedule) hpermitted

end Protocol
end SimpleStorage
