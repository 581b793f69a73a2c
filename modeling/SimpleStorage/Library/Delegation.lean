import Mathlib.Data.List.Induction
import SimpleStorage.Library.Program

/-!
# Rights that are passed on

A run of requests, seen by who may do what.  Two questions are answered for any system.

* Where something was changed in a run, there is a request that changed it (`exists_change`).  So
  if a request changes it only when it is authorised to, every change was authorised when it was
  made.
* Where somebody holds a right that nobody held at first, there is a last request that granted it
  (`exists_grant`).  If only those grant rights who need no grant, or who hold the right to pass
  rights on, then every right goes back, grant by grant, to somebody who needs none: `Traced`,
  `traced_of_holds`.
-/

namespace SimpleStorage
namespace Delegation

open Program

variable {ω ε σ α ρ : Type} (program : ρ → Program ω ε σ α)

theorem runAll_concat (past : List ρ) (r : ρ) (s : σ) :
    runAll program (past ++ [r]) s = stateAfter (program r) (runAll program past s) := by
  rw [runAll_append, runAll_cons, runAll_nil]

/-- **What is different after a run, a request of the run has changed.** -/
theorem exists_change {β : Type*} (part : σ → β) {requests : List ρ} {s : σ}
    (h : part (runAll program requests s) ≠ part s) :
    ∃ before r after, requests = before ++ r :: after ∧
      part (stateAfter (program r) (runAll program before s)) ≠ part (runAll program before s) := by
  induction requests generalizing s with
  | nil => exact absurd rfl h
  | cons r requests ih =>
    rw [runAll_cons] at h
    by_cases hfirst : part (stateAfter (program r) s) = part s
    · rw [← hfirst] at h
      obtain ⟨before, r', after, rfl, hchange⟩ := ih h
      exact ⟨r :: before, r', after, rfl, hchange⟩
    · exact ⟨[], r, requests, rfl, hfirst⟩

/-- **What holds after a run and did not before, holds since some request of the run.** -/
theorem exists_grant (holds : σ → Prop) {requests : List ρ} {s : σ} (h₀ : ¬ holds s)
    (h : holds (runAll program requests s)) :
    ∃ before r after, requests = before ++ r :: after ∧ ¬ holds (runAll program before s) ∧
      ∀ later, later <+: after → holds (runAll program (before ++ r :: later) s) := by
  induction requests using List.reverseRecOn with
  | nil => exact absurd h h₀
  | append_singleton requests r ih =>
    by_cases hbefore : holds (runAll program requests s)
    · obtain ⟨before, r', after, rfl, hnot, hsince⟩ := ih hbefore
      refine ⟨before, r', after ++ [r], by simp, hnot, fun later hlater => ?_⟩
      rcases List.prefix_concat_iff.mp hlater with rfl | hlater
      · simpa using h
      · exact hsince later hlater
    · refine ⟨requests, r, [], rfl, hbefore, fun later hlater => ?_⟩
      rw [List.prefix_nil.mp hlater]
      exact h

variable (σ ρ) in
/-- **How rights are passed on**: what a subject holds, what a request would grant to whom, whose
request it is, whether he needs no grant, and the right to pass rights on. -/
structure Rights (ι π : Type) where
  holds : σ → ι → π → Prop
  grants : σ → ρ → ι → π → Prop
  actor : ρ → ι
  root : σ → ρ → Prop
  pass : π

variable {ι π : Type} (R : Rights σ ρ ι π) (s : σ)

/-- **A right that goes back to somebody who needs none.**  It was granted in the run and is held
ever since; and who granted it needed no grant, or could trace back his own right to do so. -/
inductive Traced : List ρ → ι → π → Prop
  | root {before : List ρ} {r : ρ} {after : List ρ} {i : ι} {p : π}
      (hgrants : R.grants (runAll program before s) r i p)
      (hsince : ∀ later, later <+: after → R.holds (runAll program (before ++ r :: later) s) i p)
      (hroot : R.root (runAll program before s) r) : Traced (before ++ r :: after) i p
  | passed {before : List ρ} {r : ρ} {after : List ρ} {i : ι} {p : π}
      (hgrants : R.grants (runAll program before s) r i p)
      (hsince : ∀ later, later <+: after → R.holds (runAll program (before ++ r :: later) s) i p)
      (hactor : Traced before (R.actor r) R.pass) : Traced (before ++ r :: after) i p

variable {R s}

/-- **Every right that is held can be traced**, if none is held at first and each request grants only
what its maker may pass on. -/
theorem traced_of_holds {inv : σ → Prop} (hinv : ∀ s r, inv s → inv (stateAfter (program r) s))
    (hstep : ∀ s r i p, inv s → ¬ R.holds s i p → R.holds (stateAfter (program r) s) i p →
      R.grants s r i p ∧ (R.root s r ∨ R.holds s (R.actor r) R.pass))
    (hs : inv s) (h₀ : ∀ i p, ¬ R.holds s i p) {past : List ρ} {i : ι} {p : π}
    (h : R.holds (runAll program past s) i p) : Traced program R s past i p := by
  -- A grant comes after the grant that allowed it.
  induction hlength : past.length using Nat.strongRecOn generalizing past i p with
  | ind n ih =>
    subst hlength
    obtain ⟨before, r, after, rfl, hnot, hsince⟩ :=
      exists_grant program (R.holds · i p) (h₀ i p) h
    have hbefore : inv (runAll program before s) :=
      runAll_keeps program (fun r _ s hs => hinv s r hs) hs
    have hafter : R.holds (stateAfter (program r) (runAll program before s)) i p := by
      rw [← runAll_concat]
      exact hsince [] (List.nil_prefix)
    obtain ⟨hgrants, hactor⟩ := hstep _ r i p hbefore hnot hafter
    rcases hactor with hroot | hheld
    · exact .root hgrants hsince hroot
    · refine .passed hgrants hsince (ih before.length ?_ hheld rfl)
      rw [List.length_append, List.length_cons]
      omega

end Delegation
end SimpleStorage
