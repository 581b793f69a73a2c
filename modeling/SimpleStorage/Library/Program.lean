import Mathlib.Data.Nat.Notation
import Mathlib.Logic.Basic

/-!
# Programs of atomic steps

A program is a tree of atomic steps on a shared state.  A step reads the state, changes it
at once, may leave a record of what it did, and goes on depending on what it read; in the
end the program returns a value or fails.  A failure undoes nothing.

`run` lets a program take all its steps in a row, and `wp x post fail s` says how that ends.
The rules below take it apart along the program: sequences, failures, handlers, loops over
a list.  What happens when the steps of several programs mix is the subject of
`SimpleStorage.Library.Interleaving`.

* `run_bind`, `run_tryCatch`: programs are run one after the other.
* `wp_bind`, `wp_tryCatch`: the two ways to put programs together.
* `wp_mono`: a weaker end.
* `wp_forM`: a loop over a list, by an invariant of the items left.
* `Every`, `ReadOnly`: programs by the steps they are made of; `ReadOnly.wp_same`.
* `Keeps`: what a program keeps whatever becomes of it.
* `runAll`: requests one after the other, `runAll_keeps`, what they keep, and `runAll_good_iff`,
  when all the states on the way are good.
* `runAll_refines`: requests one after the other against a reference.
-/

namespace SimpleStorage

/-- **A program**: it records events in `ω`, fails with `ε` and works on `σ`. -/
inductive Program (ω ε σ α : Type) where
  | done (a : α)
  | failed (e : ε)
  | step (event : σ → Option ω) (effect : σ → σ) (next : σ → Program ω ε σ α)

namespace Program

variable {ω ε σ α β : Type}

protected def bind : Program ω ε σ β → (β → Program ω ε σ α) → Program ω ε σ α
  | done b, f => f b
  | failed e, _ => failed e
  | step event effect next, f => step event effect fun s => (next s).bind f

protected def tryCatch : Program ω ε σ α → (ε → Program ω ε σ α) → Program ω ε σ α
  | done a, _ => done a
  | failed e, handle => handle e
  | step event effect next, handle => step event effect fun s => (next s).tryCatch handle

instance : Monad (Program ω ε σ) where
  pure := done
  bind := Program.bind

instance : MonadExceptOf ε (Program ω ε σ) where
  throw := failed
  tryCatch := Program.tryCatch

/-- Read the state, for the record. -/
def observe (event : σ → Option ω) (f : σ → α) : Program ω ε σ α :=
  step event id fun s => done (f s)

/-- Change the state, for the record, with a value to return. -/
def perform (event : σ → Option ω) (f : σ → α × σ) : Program ω ε σ α :=
  step event (fun s => (f s).2) fun s => done (f s).1

/-- Read the state. -/
def query (f : σ → α) : Program ω ε σ α := observe (fun _ => none) f

/-- Change the state, with a value to return. -/
def alter (f : σ → α × σ) : Program ω ε σ α := perform (fun _ => none) f

/-- Fail unless the condition holds. -/
def require (p : Prop) [Decidable p] (e : ε) : Program ω ε σ Unit := if p then pure () else throw e

/-- Return the value, or fail if there is none. -/
def orThrow (x : Option α) (e : ε) : Program ω ε σ α :=
  match x with
  | some a => pure a
  | none => throw e

/-! ## Running a program on its own -/

/-- **All steps in a row.** -/
def run : Program ω ε σ α → σ → EStateM.Result ε σ α
  | done a, s => .ok a s
  | failed e, s => .error e s
  | step _ effect next, s => (next s).run (effect s)

instance : CoeFun (Program ω ε σ α) fun _ => σ → EStateM.Result ε σ α := ⟨run⟩

theorem run_bind (x : Program ω ε σ β) (f : β → Program ω ε σ α) (s : σ) :
    (x >>= f) s = match x s with
      | .ok b s' => f b s'
      | .error e s' => .error e s' := by
  change (x.bind f) s = _
  induction x generalizing s with
  | done b => rfl
  | failed e => rfl
  | step event effect next ih => exact ih s (effect s)

theorem run_bind_of_ok {x : Program ω ε σ β} {f : β → Program ω ε σ α} {s s' : σ} {b : β}
    (h : x s = .ok b s') : (x >>= f) s = f b s' := by
  rw [run_bind, h]

theorem run_bind_of_error {x : Program ω ε σ β} {f : β → Program ω ε σ α} {s s' : σ} {e : ε}
    (h : x s = .error e s') : (x >>= f) s = .error e s' := by
  rw [run_bind, h]

theorem run_tryCatch (x : Program ω ε σ α) (handle : ε → Program ω ε σ α) (s : σ) :
    (tryCatch x handle) s = match x s with
      | .ok a s' => .ok a s'
      | .error e s' => handle e s' := by
  change (x.tryCatch handle) s = _
  induction x generalizing s with
  | done a => rfl
  | failed e => rfl
  | step event effect next ih => exact ih s (effect s)

/-- **The run from `s` returns into `post` or fails into `fail`.** -/
def wp (x : Program ω ε σ α) (post : α → σ → Prop) (fail : ε → σ → Prop) (s : σ) : Prop :=
  match x s with
  | .ok a s' => post a s'
  | .error e s' => fail e s'

section Rules

variable {post : α → σ → Prop} {fail : ε → σ → Prop} {s : σ}

theorem wp_of_ok {x : Program ω ε σ α} {a : α} {s' : σ} (hx : x s = .ok a s')
    (h : wp x post fail s) : post a s' := by
  rw [wp, hx] at h
  exact h

theorem wp_of_error {x : Program ω ε σ α} {e : ε} {s' : σ} (hx : x s = .error e s')
    (h : wp x post fail s) : fail e s' := by
  rw [wp, hx] at h
  exact h

/-- A weaker end. -/
theorem wp_mono {x : Program ω ε σ α} {post' : α → σ → Prop} {fail' : ε → σ → Prop}
    (h : wp x post fail s) (hpost : ∀ a s', post a s' → post' a s')
    (hfail : ∀ e s', fail e s' → fail' e s') : wp x post' fail' s := by
  unfold wp at *
  cases hx : x s with
  | ok a s' =>
    rw [hx] at h
    exact hpost a s' h
  | error e s' =>
    rw [hx] at h
    exact hfail e s' h

/-- Ends that hold of everything hold of what a program leaves. -/
theorem wp_of_forall {x : Program ω ε σ α} (hpost : ∀ a s', post a s') (hfail : ∀ e s', fail e s') :
    wp x post fail s := by
  unfold wp
  cases x s with
  | ok a s' => exact hpost a s'
  | error e s' => exact hfail e s'

/-- Two ends at once. -/
theorem wp_and {x : Program ω ε σ α} {post' : α → σ → Prop} {fail' : ε → σ → Prop}
    (h : wp x post fail s) (h' : wp x post' fail' s) :
    wp x (fun a s' => post a s' ∧ post' a s') (fun e s' => fail e s' ∧ fail' e s') s := by
  unfold wp at *
  cases hx : x s with
  | ok a s' =>
    rw [hx] at h h'
    exact ⟨h, h'⟩
  | error e s' =>
    rw [hx] at h h'
    exact ⟨h, h'⟩

/-- Any number of ends at once. -/
theorem wp_forall {ι : Type} [Nonempty ι] {x : Program ω ε σ α} {post : ι → α → σ → Prop}
    (h : ∀ i, wp x (post i) fail s) : wp x (fun a s' => ∀ i, post i a s') fail s := by
  unfold wp at *
  cases hx : x s with
  | ok a s' =>
    rw [hx] at h
    exact h
  | error e s' =>
    rw [hx] at h
    exact h (Classical.choice inferInstance)

/-- The state a run ends in, one way or the other. -/
def stateAfter (x : Program ω ε σ α) (s : σ) : σ :=
  match x s with
  | .ok _ s' | .error _ s' => s'

/-- What both ends have in common. -/
theorem stateAfter_of_wp {x : Program ω ε σ α} {p : σ → Prop}
    (h : wp x (fun _ s' => p s') (fun _ s' => p s') s) : p (stateAfter x s) := by
  unfold wp at h
  unfold stateAfter
  cases hx : x s with
  | ok a s' =>
    rw [hx] at h
    exact h
  | error e s' =>
    rw [hx] at h
    exact h

@[simp] theorem wp_pure {a : α} :
    wp (pure a : Program ω ε σ α) post fail s ↔ post a s := Iff.rfl

@[simp] theorem wp_throw {e : ε} :
    wp (throw e : Program ω ε σ α) post fail s ↔ fail e s := Iff.rfl

@[simp] theorem wp_observe {event : σ → Option ω} {f : σ → α} :
    wp (observe event f) post fail s ↔ post (f s) s := Iff.rfl

@[simp] theorem wp_perform {event : σ → Option ω} {f : σ → α × σ} :
    wp (perform event f) post fail s ↔ post (f s).1 (f s).2 := Iff.rfl

@[simp] theorem wp_query {f : σ → α} :
    wp (query f : Program ω ε σ α) post fail s ↔ post (f s) s := Iff.rfl

@[simp] theorem wp_alter {f : σ → α × σ} :
    wp (alter f : Program ω ε σ α) post fail s ↔ post (f s).1 (f s).2 := Iff.rfl

/-- **A sequence.** -/
@[simp] theorem wp_bind {x : Program ω ε σ β} {f : β → Program ω ε σ α} :
    wp (x >>= f) post fail s ↔ wp x (fun b => wp (f b) post fail) fail s := by
  unfold wp
  rw [run_bind]
  cases x s <;> rfl

/-- **A handler**: it starts in the state the failure left. -/
@[simp] theorem wp_tryCatch {x : Program ω ε σ α} {handle : ε → Program ω ε σ α} :
    wp (tryCatch x handle) post fail s ↔
      wp x post (fun e => wp (handle e) post fail) s := by
  unfold wp
  rw [run_tryCatch]
  cases x s <;> rfl

/-- What comes of a value that is only returned. -/
theorem wp_bind_pure {x : Program ω ε σ β} {post : β → σ → Prop} (h : wp x post fail s) (f : β → α) :
    wp (x >>= fun b => pure (f b)) (fun a s' => ∃ b, a = f b ∧ post b s') fail s :=
  wp_bind.mpr (wp_mono h (fun b _ hb => ⟨b, rfl, hb⟩) fun _ _ h => h)

theorem wp_ite {p : Prop} [Decidable p] {x y : Program ω ε σ α} :
    wp (if p then x else y) post fail s ↔ if p then wp x post fail s else wp y post fail s := by
  by_cases h : p
  · rw [if_pos h, if_pos h]
  · rw [if_neg h, if_neg h]

@[simp] theorem wp_require {p : Prop} [Decidable p] {e : ε} {post : Unit → σ → Prop} :
    wp (require p e : Program ω ε σ Unit) post fail s ↔
      (p → post () s) ∧ (¬ p → fail e s) := by
  rw [require, wp_ite]
  by_cases h : p
  · simp [h]
  · simp [h]

@[simp] theorem wp_orThrow {x : Option α} {e : ε} :
    wp (orThrow x e : Program ω ε σ α) post fail s ↔
      (∀ a, x = some a → post a s) ∧ (x = none → fail e s) := by
  cases x with
  | none => simp [orThrow]
  | some a => simp [orThrow]

theorem wp_orThrow_some {a : α} {e : ε} :
    wp (orThrow (some a) e : Program ω ε σ α) post fail s ↔ post a s := by
  simp

end Rules

/-! ## Loops -/

section Loops

variable {f : α → Program ω ε σ Unit} {fail : ε → σ → Prop}

theorem wp_forM_nil {post : Unit → σ → Prop} {s : σ} :
    wp (([] : List α).forM f) post fail s ↔ post () s := Iff.rfl

theorem wp_forM_cons {x : α} {xs : List α} {post : Unit → σ → Prop} {s : σ} :
    wp ((x :: xs).forM f) post fail s ↔
      wp (f x) (fun _ => wp (xs.forM f) post fail) fail s := by
  rw [List.forM_eq_forM, List.forM_cons, wp_bind]

/-- **A loop over a list**: an invariant of the items still to come. -/
theorem wp_forM (inv : List α → σ → Prop) {xs : List α} {s : σ}
    (hstep : ∀ x rest s, inv (x :: rest) s → wp (f x) (fun _ => inv rest) fail s)
    (hs : inv xs s) : wp (xs.forM f) (fun _ => inv []) fail s := by
  induction xs generalizing s with
  | nil => exact wp_forM_nil.mpr hs
  | cons x xs ih =>
    exact wp_forM_cons.mpr (wp_mono (hstep x xs s hs) (fun _ _ h => ih h) fun _ _ h => h)

/-- **A loop with an accumulator**: an invariant of every turn. -/
theorem wp_foldlM {γ : Type} {f : γ → α → Program ω ε σ γ} {xs : List α} (inv : σ → Prop)
    (hstep : ∀ c, ∀ x ∈ xs, ∀ s, inv s → wp (f c x) (fun _ => inv) fail s) {c : γ} {s : σ}
    (hs : inv s) : wp (xs.foldlM f c) (fun _ => inv) fail s := by
  induction xs generalizing c s with
  | nil => exact hs
  | cons x xs ih =>
    rw [List.foldlM_cons, wp_bind]
    refine wp_mono (hstep c x List.mem_cons_self s hs) (fun c' s' hs' => ?_) fun _ _ h => h
    exact ih (fun c y hy => hstep c y (List.mem_cons_of_mem _ hy)) hs'

/-- What one turn of the loop brings about and no turn undoes. -/
theorem wp_foldlM_mem {γ : Type} {f : γ → α → Program ω ε σ γ} {xs : List α} (inv goal : σ → Prop)
    (hstep : ∀ c, ∀ x ∈ xs, ∀ s, inv s → wp (f c x) (fun _ => inv) fail s)
    (hkeep : ∀ c, ∀ x ∈ xs, ∀ s, inv s → goal s → wp (f c x) (fun _ => goal) fail s) {x : α}
    (hx : x ∈ xs) (hgoal : ∀ c s, inv s → wp (f c x) (fun _ => goal) fail s) {c : γ} {s : σ}
    (hs : inv s) : wp (xs.foldlM f c) (fun _ => goal) fail s := by
  induction xs generalizing c s with
  | nil => cases hx
  | cons y xs ih =>
    have hstep' := fun c z hz => hstep c z (List.mem_cons_of_mem y hz)
    have hkeep' := fun c z hz => hkeep c z (List.mem_cons_of_mem y hz)
    rw [List.foldlM_cons, wp_bind]
    rcases List.mem_cons.mp hx with rfl | hx
    · refine wp_mono (wp_and (hstep c x List.mem_cons_self s hs) (hgoal c s hs))
        (fun c' s' h => ?_) fun _ _ h => h.1
      refine wp_mono (wp_foldlM (fun s => inv s ∧ goal s) (fun c z hz s hs => ?_) h)
        (fun _ _ h => h.2) fun _ _ h => h
      exact wp_mono (wp_and (hstep' c z hz s hs.1) (hkeep' c z hz s hs.1 hs.2)) (fun _ _ h => h)
        fun _ _ h => h.1
    · refine wp_mono (hstep c y List.mem_cons_self s hs) (fun c' s' hs' => ?_) fun _ _ h => h
      exact ih hstep' hkeep' hx hs'

end Loops

/-! ## What the steps of a program are -/

/-- **Every step is one of the kind `p`.** -/
inductive Every (p : (σ → Option ω) → (σ → σ) → Prop) : Program ω ε σ α → Prop
  | done (a : α) : Every p (.done a)
  | failed (e : ε) : Every p (.failed e)
  | step {event : σ → Option ω} {effect : σ → σ} {next : σ → Program ω ε σ α} (hp : p event effect)
      (h : ∀ s, Every p (next s)) : Every p (.step event effect next)

namespace Every

variable {p q : (σ → Option ω) → (σ → σ) → Prop}

theorem mono (hpq : ∀ event effect, p event effect → q event effect) {x : Program ω ε σ α}
    (h : Every p x) : Every q x := by
  induction h with
  | done a => exact .done a
  | failed e => exact .failed e
  | step hp _ ih => exact .step (hpq _ _ hp) ih

theorem observe {event : σ → Option ω} (hp : p event id) (f : σ → α) :
    Every p (observe event f : Program ω ε σ α) := .step hp fun s => .done (f s)

theorem perform {event : σ → Option ω} {f : σ → α × σ} (hp : p event fun s => (f s).2) :
    Every p (perform event f : Program ω ε σ α) := .step hp fun s => .done (f s).1

theorem pure (a : α) : Every p (Pure.pure a : Program ω ε σ α) := .done a

theorem throw (e : ε) : Every p (MonadExcept.throw e : Program ω ε σ α) := .failed e

theorem require (c : Prop) [Decidable c] (e : ε) : Every p (require c e : Program ω ε σ Unit) := by
  unfold Program.require
  split
  · exact .done ()
  · exact .failed e

theorem orThrow (x : Option α) (e : ε) : Every p (orThrow x e : Program ω ε σ α) := by
  cases x with
  | none => exact .failed e
  | some a => exact .done a

theorem bind {x : Program ω ε σ β} {f : β → Program ω ε σ α} (hx : Every p x)
    (hf : ∀ b, Every p (f b)) : Every p (x >>= f) := by
  change Every p (x.bind f)
  induction hx with
  | done b => exact hf b
  | failed e => exact .failed e
  | step hp _ ih => exact .step hp ih

theorem tryCatch {x : Program ω ε σ α} {handle : ε → Program ω ε σ α} (hx : Every p x)
    (hhandle : ∀ e, Every p (handle e)) : Every p (tryCatch x handle) := by
  change Every p (x.tryCatch handle)
  induction hx with
  | done a => exact .done a
  | failed e => exact hhandle e
  | step hp _ ih => exact .step hp ih

theorem ite {c : Prop} [Decidable c] {x y : Program ω ε σ α} (hx : Every p x) (hy : Every p y) :
    Every p (if c then x else y) := by
  split
  · exact hx
  · exact hy

theorem foldlM {f : β → α → Program ω ε σ β} (hf : ∀ b a, Every p (f b a)) (b : β) (xs : List α) :
    Every p (xs.foldlM f b) := by
  induction xs generalizing b with
  | nil => exact .done b
  | cons x xs ih =>
    rw [List.foldlM_cons]
    exact (hf b x).bind ih

theorem forM {f : α → Program ω ε σ Unit} (hf : ∀ a, Every p (f a)) (xs : List α) :
    Every p (xs.forM f) := by
  induction xs with
  | nil => exact .done ()
  | cons x xs ih =>
    rw [List.forM_eq_forM, List.forM_cons]
    exact (hf x).bind fun _ => ih

end Every

/-- **What every step keeps, a run keeps.** -/
theorem Every.wp_keeps {p : (σ → Option ω) → (σ → σ) → Prop} {inv : σ → Prop}
    (hstep : ∀ event effect, p event effect → ∀ s, inv s → inv (effect s)) {x : Program ω ε σ α}
    (hx : Every p x) {s : σ} (hs : inv s) : wp x (fun _ s' => inv s') (fun _ s' => inv s') s := by
  induction hx generalizing s with
  | done a => exact hs
  | failed e => exact hs
  | step hp _ ih => exact ih s (hstep _ _ hp s hs)

/-- **No step changes the state.** -/
abbrev ReadOnly : Program ω ε σ α → Prop := Every fun _ effect => effect = id

theorem ReadOnly.observe (event : σ → Option ω) (f : σ → α) :
    ReadOnly (observe event f : Program ω ε σ α) :=
  Every.observe (p := fun _ effect => effect = id) rfl f

theorem ReadOnly.query (f : σ → α) : ReadOnly (query f : Program ω ε σ α) := .observe _ f

theorem ReadOnly.wp_same {x : Program ω ε σ α} (h : ReadOnly x) (s : σ) :
    wp x (fun _ s' => s' = s) (fun _ s' => s' = s) s := by
  induction h with
  | done a => exact rfl
  | failed e => exact rfl
  | step hp _ ih =>
    subst hp
    exact ih s

/-! ## What a program keeps -/

/-- **Whatever becomes of the program, it keeps the invariant.** -/
def Keeps (inv : σ → Prop) (x : Program ω ε σ α) : Prop :=
  ∀ s, inv s → wp x (fun _ s' => inv s') (fun _ s' => inv s') s

namespace Keeps

variable {inv : σ → Prop}

theorem pure (a : α) : Keeps inv (Pure.pure a : Program ω ε σ α) := fun _ hs => hs

theorem throw (e : ε) : Keeps inv (MonadExcept.throw e : Program ω ε σ α) := fun _ hs => hs

theorem require (c : Prop) [Decidable c] (e : ε) : Keeps inv (require c e : Program ω ε σ Unit) :=
  fun _ hs => wp_require.mpr ⟨fun _ => hs, fun _ => hs⟩

theorem orThrow (x : Option α) (e : ε) : Keeps inv (orThrow x e : Program ω ε σ α) :=
  fun _ hs => wp_orThrow.mpr ⟨fun _ _ => hs, fun _ => hs⟩

theorem bind {x : Program ω ε σ β} {f : β → Program ω ε σ α} (hx : Keeps inv x)
    (hf : ∀ b, Keeps inv (f b)) : Keeps inv (x >>= f) := by
  intro s hs
  rw [wp_bind]
  exact wp_mono (hx s hs) (fun b s' hs' => hf b s' hs') fun _ _ hs' => hs'

theorem tryCatch {x : Program ω ε σ α} {handle : ε → Program ω ε σ α} (hx : Keeps inv x)
    (hhandle : ∀ e, Keeps inv (handle e)) : Keeps inv (tryCatch x handle) := by
  intro s hs
  rw [wp_tryCatch]
  exact wp_mono (hx s hs) (fun _ _ hs' => hs') fun e s' hs' => hhandle e s' hs'

theorem ite {c : Prop} [Decidable c] {x y : Program ω ε σ α} (hx : Keeps inv x) (hy : Keeps inv y) :
    Keeps inv (if c then x else y) := by
  split
  · exact hx
  · exact hy

theorem forM {γ : Type} {f : γ → Program ω ε σ Unit} (hf : ∀ a, Keeps inv (f a)) (xs : List γ) :
    Keeps inv (xs.forM f) := by
  induction xs with
  | nil => exact .pure ()
  | cons x xs ih =>
    rw [List.forM_eq_forM, List.forM_cons]
    exact (hf x).bind fun _ => ih

theorem foldlM {γ : Type} {f : β → γ → Program ω ε σ β} (hf : ∀ b a, Keeps inv (f b a)) (b : β)
    (xs : List γ) : Keeps inv (xs.foldlM f b) := by
  induction xs generalizing b with
  | nil => exact .pure b
  | cons x xs ih =>
    rw [List.foldlM_cons]
    exact (hf b x).bind fun b' => ih b'

theorem stateAfter {x : Program ω ε σ α} (hx : Keeps inv x) {s : σ} (hs : inv s) :
    inv (stateAfter x s) := stateAfter_of_wp (hx s hs)

end Keeps

theorem ReadOnly.keeps {x : Program ω ε σ α} (hx : ReadOnly x) (inv : σ → Prop) : Keeps inv x :=
  fun _ hs => hx.wp_keeps (fun _ _ heffect _ h => heffect ▸ h) hs

/-! ## Requests one after the other -/

section Runs

variable {ρ : Type} (program : ρ → Program ω ε σ α)

/-- **The state after some requests**, each of which runs to its end or fails. -/
def runAll (requests : List ρ) (s : σ) : σ :=
  requests.foldl (fun s request => stateAfter (program request) s) s

@[simp] theorem runAll_nil (s : σ) : runAll program [] s = s := rfl

@[simp] theorem runAll_cons (request : ρ) (requests : List ρ) (s : σ) :
    runAll program (request :: requests) s =
      runAll program requests (stateAfter (program request) s) := rfl

theorem runAll_append (requests requests' : List ρ) (s : σ) :
    runAll program (requests ++ requests') s = runAll program requests' (runAll program requests s) :=
  List.foldl_append

/-- What every request keeps holds after all of them. -/
theorem runAll_keeps {inv : σ → Prop} {requests : List ρ}
    (hstep : ∀ request ∈ requests, ∀ s, inv s → inv (stateAfter (program request) s)) {s : σ}
    (hs : inv s) : inv (runAll program requests s) := by
  induction requests generalizing s with
  | nil => exact hs
  | cons request requests ih =>
    exact ih (fun r hr => hstep r (List.mem_cons_of_mem _ hr))
      (hstep request List.mem_cons_self s hs)

/-- **When a run is good throughout**: an invariant implies that a state is good, is kept by every
request that is proper in the state it finds, and an improper request leaves a bad state. -/
theorem runAll_good_iff {inv good : σ → Prop} {proper : σ → ρ → Prop} (hgood : ∀ s, inv s → good s)
    (hkeep : ∀ s r, inv s → proper s r → inv (stateAfter (program r) s))
    (hproper : ∀ s r, inv s → good (stateAfter (program r) s) → proper s r) {s : σ} (hs : inv s)
    (requests : List ρ) :
    (∀ past, past <+: requests → good (runAll program past s)) ↔
      ∀ past r, past ++ [r] <+: requests → proper (runAll program past s) r := by
  induction requests generalizing s with
  | nil =>
    refine iff_of_true (fun past h => ?_) fun past r h => ?_
    · rw [List.prefix_nil.mp h]
      exact hgood s hs
    · exact absurd (List.prefix_nil.mp h) (List.append_ne_nil_of_right_ne_nil _ (List.cons_ne_nil _ _))
  | cons request requests ih =>
    constructor
    · intro h
      have hfirst : proper s request :=
        hproper s request hs (h [request] (List.prefix_append [request] requests))
      have hrest := (ih (hkeep s request hs hfirst)).mp fun past hpast =>
        h (request :: past) (List.cons_prefix_cons.mpr ⟨rfl, hpast⟩)
      intro past r hpast
      cases past with
      | nil =>
        obtain ⟨rfl, -⟩ := List.cons_prefix_cons.mp hpast
        exact hfirst
      | cons request' past =>
        obtain ⟨rfl, hpast'⟩ := List.cons_prefix_cons.mp hpast
        exact hrest past r hpast'
    · intro h past hpast
      cases past with
      | nil => exact hgood s hs
      | cons request' past =>
        obtain ⟨rfl, hpast'⟩ := List.cons_prefix_cons.mp hpast
        have hfirst := h [] request' (List.prefix_append [request'] requests)
        exact (ih (hkeep s request' hs hfirst)).mpr
          (fun past r hr => h (request' :: past) r (List.cons_prefix_cons.mpr ⟨rfl, hr⟩)) past hpast'

end Runs

/-! ## Requests against a reference -/

section Reference

variable {ρ μ : Type} (program : ρ → Program ω ε σ α)

/-- What a run came to. -/
def outcome (x : Program ω ε σ α) (s : σ) : Except ε α :=
  match x s with
  | .ok a _ => .ok a
  | .error e _ => .error e

/-- **When a run comes to an answer**: by what is the case if it does, and if it does not. -/
theorem outcome_ok_iff {x : Program ω ε σ α} {c : Prop} {s : σ}
    (h : wp x (fun _ _ => c) (fun _ _ => ¬ c) s) : (∃ a, outcome x s = .ok a) ↔ c := by
  rw [wp] at h
  rw [outcome]
  cases hx : x s with
  | ok a s' =>
    rw [hx] at h
    exact iff_of_true ⟨a, rfl⟩ h
  | error e s' =>
    rw [hx] at h
    refine iff_of_false ?_ h
    rintro ⟨a, ha⟩
    cases ha

/-- How a run ends, by its outcome. -/
theorem outcome_of_wp {x : Program ω ε σ α} {post : α → σ → Prop} {fail : ε → σ → Prop} {s : σ}
    (h : wp x post fail s) : (∃ a, outcome x s = .ok a ∧ post a (stateAfter x s)) ∨
      ∃ e, outcome x s = .error e ∧ fail e (stateAfter x s) := by
  rw [wp] at h
  rw [outcome, stateAfter]
  cases hx : x s with
  | ok a s' =>
    rw [hx] at h
    exact .inl ⟨a, rfl, h⟩
  | error e s' =>
    rw [hx] at h
    exact .inr ⟨e, rfl, h⟩

/-- The requests, each with its outcome. -/
def trace : List ρ → σ → List (ρ × Except ε α)
  | [], _ => []
  | request :: requests, s =>
      (request, outcome (program request) s) :: trace requests (stateAfter (program request) s)

theorem map_fst_trace (requests : List ρ) (s : σ) : (trace program requests s).map Prod.fst = requests := by
  induction requests generalizing s with
  | nil => rfl
  | cons request requests ih =>
    rw [trace, List.map_cons, ih]

variable (next : ρ → Except ε α → μ → μ) (answers : ρ → Except ε α → μ → Prop)

/-- The reference after some requests with these outcomes. -/
def follow (log : List (ρ × Except ε α)) (m : μ) : μ := log.foldl (fun m entry => next entry.1 entry.2 m) m

/-- Every outcome is one the reference allows for, as it stands when the request comes. -/
def Answered : List (ρ × Except ε α) → μ → Prop
  | [], _ => True
  | entry :: log, m => answers entry.1 entry.2 m ∧ Answered log (next entry.1 entry.2 m)

variable {program next answers}

/-- **A run refines its reference** if each request does, with so many requests to come. -/
theorem runAll_refines {R : ℕ → σ → μ → Prop}
    (hstep : ∀ request n s m, R (n + 1) s m → wp (program request)
      (fun a s' => answers request (.ok a) m ∧ R n s' (next request (.ok a) m))
      (fun e s' => answers request (.error e) m ∧ R n s' (next request (.error e) m)) s)
    {requests : List ρ} {s : σ} {m : μ} (h : R requests.length s m) :
    Answered next answers (trace program requests s) m ∧
      R 0 (runAll program requests s) (follow next (trace program requests s) m) := by
  induction requests generalizing s m with
  | nil => exact ⟨trivial, h⟩
  | cons request requests ih =>
    have hone : answers request (outcome (program request) s) m ∧
        R requests.length (stateAfter (program request) s)
          (next request (outcome (program request) s) m) := by
      have hwp := hstep request _ s m h
      rw [outcome, stateAfter]
      rw [wp] at hwp
      cases hrun : program request s with
      | ok a s' => rwa [hrun] at hwp
      | error e s' => rwa [hrun] at hwp
    obtain ⟨hanswered, hsim⟩ := ih hone.2
    exact ⟨⟨hone.1, hanswered⟩, hsim⟩

/-- **A run keeps in step with its reference** if each request does. -/
theorem runAll_follows {R : σ → μ → Prop}
    (hstep : ∀ request s m, R s m → wp (program request) (fun a s' => R s' (next request (.ok a) m))
      (fun e s' => R s' (next request (.error e) m)) s)
    {requests : List ρ} {s : σ} {m : μ} (h : R s m) :
    R (runAll program requests s) (follow next (trace program requests s) m) := by
  refine (@runAll_refines ω ε σ α ρ μ program next (fun _ _ _ => True) (fun _ => R) ?_ requests s m h).2
  exact fun request _ s m hs => wp_mono (hstep request s m hs) (fun _ _ h => ⟨trivial, h⟩)
    fun _ _ h => ⟨trivial, h⟩

end Reference

end Program
end SimpleStorage
