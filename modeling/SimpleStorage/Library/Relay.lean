import Mathlib.Data.List.Nodup
import Mathlib.Logic.Function.Basic

/-!
# Copies one after the other

A loop copies, item by item, what a map holds at one key to another key, and passes over an item
whose source holds nothing.  A source is read when its turn comes, so that an earlier item may have
written to it.  The intended result is that of copying all items at once.

* `relay_of_ne`: what the loop leaves as it is.
* `relay_dest_of_ne`: a source that is written to by no item arrives.
* `relay_of_apart`, `relay_dest_of_apart`: sources that no item with something to copy writes to.
* `relay_exact_iff`: when all sources arrive as they were at the beginning.
-/

namespace SimpleStorage
namespace Relay

variable {α κ β : Type} [DecidableEq κ] (src dest : α → κ)

/-- One item. -/
def relayOne (m : κ → Option β) (a : α) : κ → Option β :=
  match m (src a) with
  | some b => Function.update m (dest a) (some b)
  | none => m

/-- **The items in turn.** -/
def relay (xs : List α) (m : κ → Option β) : κ → Option β := xs.foldl (relayOne src dest) m

variable {src dest} {m : κ → Option β} {a : α} {k : κ} {xs : List α}

theorem relayOne_of_none (h : m (src a) = none) : relayOne src dest m a = m := by
  rw [relayOne, h]

theorem relayOne_of_some {b : β} (h : m (src a) = some b) :
    relayOne src dest m a = Function.update m (dest a) (some b) := by
  rw [relayOne, h]

theorem relayOne_of_ne (h : (m (src a)).isSome → dest a ≠ k) : relayOne src dest m a k = m k := by
  cases hb : m (src a) with
  | none => rw [relayOne_of_none hb]
  | some b => rw [relayOne_of_some hb, Function.update_of_ne (h (by rw [hb]; rfl)).symm]

/-- What was copied is at its destination. -/
theorem relayOne_dest (h : (m (src a)).isSome) : relayOne src dest m a (dest a) = m (src a) := by
  obtain ⟨b, hb⟩ := Option.isSome_iff_exists.mp h
  rw [relayOne_of_some hb, Function.update_self, hb]

theorem relay_concat (xs : List α) (a : α) (m : κ → Option β) :
    relay src dest (xs ++ [a]) m = relayOne src dest (relay src dest xs m) a := by
  rw [relay, List.foldl_append]
  rfl

/-- Keys that are no destination are left as they are. -/
theorem relay_of_ne (h : ∀ a ∈ xs, dest a ≠ k) : relay src dest xs m k = m k := by
  induction xs generalizing m with
  | nil => rfl
  | cons a xs ih =>
    have hrest : relay src dest xs (relayOne src dest m a) k = relayOne src dest m a k :=
      ih fun b hb => h b (List.mem_cons_of_mem a hb)
    exact hrest.trans (relayOne_of_ne fun _ => h a List.mem_cons_self)

/-- A source that no item writes to arrives. -/
theorem relay_dest_of_ne (hnodup : (xs.map dest).Nodup) (ha : a ∈ xs) (hlive : (m (src a)).isSome)
    (h : ∀ b ∈ xs, dest b ≠ src a) : relay src dest xs m (dest a) = m (src a) := by
  induction xs generalizing m with
  | nil => cases ha
  | cons b xs ih =>
    rw [List.map_cons, List.nodup_cons] at hnodup
    rcases List.mem_cons.mp ha with rfl | ha
    · have hlast : relay src dest xs (relayOne src dest m a) (dest a) = relayOne src dest m a (dest a) :=
        relay_of_ne fun c hc hdest => hnodup.1 (hdest ▸ List.mem_map_of_mem hc)
      exact hlast.trans (relayOne_dest hlive)
    · have hkept : relayOne src dest m b (src a) = m (src a) :=
        relayOne_of_ne fun _ => h b List.mem_cons_self
      rw [← hkept]
      exact ih hnodup.2 ha (by rwa [hkept]) fun c hc => h c (List.mem_cons_of_mem b hc)

section Apart

variable (h : ∀ a ∈ xs, (m (src a)).isSome → ∀ b ∈ xs, dest a ≠ src b)
include h

/-- The first item changes no source. -/
theorem relayOne_src_of_apart (ha : a ∈ xs) : ∀ b ∈ xs, relayOne src dest m a (src b) = m (src b) :=
  fun b hb => relayOne_of_ne fun hlive => h a ha hlive b hb

omit h in
theorem apart_tail {ys : List α} (h : ∀ b ∈ a :: ys, (m (src b)).isSome → ∀ c ∈ a :: ys, dest b ≠ src c) :
    ∀ b ∈ ys, (relayOne src dest m a (src b)).isSome → ∀ c ∈ ys, dest b ≠ src c := by
  intro b hb hlive c hc
  rw [relayOne_src_of_apart h List.mem_cons_self b (List.mem_cons_of_mem a hb)] at hlive
  exact h b (List.mem_cons_of_mem a hb) hlive c (List.mem_cons_of_mem a hc)

/-- Only the destinations of what is there change. -/
theorem relay_of_apart (hk : ∀ a ∈ xs, (m (src a)).isSome → dest a ≠ k) :
    relay src dest xs m k = m k := by
  induction xs generalizing m with
  | nil => rfl
  | cons a xs ih =>
    have hrest : relay src dest xs (relayOne src dest m a) k = relayOne src dest m a k := by
      refine ih (apart_tail h) fun b hb hlive => hk b (List.mem_cons_of_mem a hb) ?_
      rwa [relayOne_src_of_apart h List.mem_cons_self b (List.mem_cons_of_mem a hb)] at hlive
    exact hrest.trans (relayOne_of_ne (hk a List.mem_cons_self))

/-- What is there arrives. -/
theorem relay_dest_of_apart (hnodup : (xs.map dest).Nodup) (ha : a ∈ xs) (hlive : (m (src a)).isSome) :
    relay src dest xs m (dest a) = m (src a) := by
  induction xs generalizing m with
  | nil => cases ha
  | cons b xs ih =>
    rw [List.map_cons, List.nodup_cons] at hnodup
    rcases List.mem_cons.mp ha with rfl | ha
    · have hlast : relay src dest xs (relayOne src dest m a) (dest a) = relayOne src dest m a (dest a) :=
        relay_of_ne fun c hc hdest => hnodup.1 (hdest ▸ List.mem_map_of_mem hc)
      exact hlast.trans (relayOne_dest hlive)
    · have hkept := relayOne_src_of_apart h List.mem_cons_self a (List.mem_cons_of_mem b ha)
      rw [← hkept]
      exact ih (apart_tail h) hnodup.2 ha (by rwa [hkept])

end Apart

/-- **All sources arrive as they were at the beginning** if and only if one item writes to the source
of a later one only what is there anyway. -/
theorem relay_exact_iff (hnodup : (xs.map dest).Nodup) (hlive : ∀ a ∈ xs, (m (src a)).isSome) :
    (∀ a ∈ xs, relay src dest xs m (dest a) = m (src a)) ↔
      xs.Pairwise fun a b => dest a = src b → m (src a) = m (src b) := by
  induction xs generalizing m with
  | nil => exact iff_of_true nofun .nil
  | cons a xs ih =>
    rw [List.map_cons, List.nodup_cons] at hnodup
    have hother : ∀ b ∈ xs, dest b ≠ dest a := fun b hb hdest =>
      hnodup.1 (hdest ▸ List.mem_map_of_mem hb)
    have hself : relayOne src dest m a (dest a) = m (src a) := relayOne_dest (hlive a List.mem_cons_self)
    have hfirst : relay src dest (a :: xs) m (dest a) = m (src a) := by
      have hlast : relay src dest xs (relayOne src dest m a) (dest a) = relayOne src dest m a (dest a) :=
        relay_of_ne hother
      exact hlast.trans hself
    have hlive' : ∀ b ∈ xs, (relayOne src dest m a (src b)).isSome := by
      intro b hb
      by_cases hdest : dest a = src b
      · rw [← hdest, hself]
        exact hlive a List.mem_cons_self
      · rw [relayOne_of_ne fun _ => hdest]
        exact hlive b (List.mem_cons_of_mem a hb)
    -- The first item changes no later source, if it changes none's value.
    have hsame : (∀ b ∈ xs, dest a = src b → m (src a) = m (src b)) →
        ∀ b ∈ xs, relayOne src dest m a (src b) = m (src b) := by
      intro hequal b hb
      by_cases hdest : dest a = src b
      · rw [← hdest, hself, hequal b hb hdest, hdest]
      · exact relayOne_of_ne fun _ => hdest
    have hpairs : (∀ b ∈ xs, relayOne src dest m a (src b) = m (src b)) →
        ((∀ b ∈ xs, relay src dest (a :: xs) m (dest b) = m (src b)) ↔
          xs.Pairwise fun b c => dest b = src c → m (src b) = m (src c)) := by
      intro hsources
      have hrest := ih hnodup.2 hlive'
      rw [show relay src dest (a :: xs) m = relay src dest xs (relayOne src dest m a) from rfl]
      constructor
      · intro h
        have hpairwise := hrest.mp fun b hb => (h b hb).trans (hsources b hb).symm
        refine hpairwise.imp_of_mem fun hb hc heq hdest => ?_
        rw [← hsources _ hb, ← hsources _ hc]
        exact heq hdest
      · intro h b hb
        refine (hrest.mpr (h.imp_of_mem fun hb hc heq hdest => ?_) b hb).trans (hsources b hb)
        rw [hsources _ hb, hsources _ hc]
        exact heq hdest
    rw [List.pairwise_cons, List.forall_mem_cons]
    constructor
    · rintro ⟨-, h⟩
      have hequal : ∀ b ∈ xs, dest a = src b → m (src a) = m (src b) := by
        intro b hb hdest
        -- Nothing writes to this source again, so what arrives is what the first item wrote.
        have harrives : relay src dest xs (relayOne src dest m a) (dest b) = relayOne src dest m a (src b) :=
          relay_dest_of_ne hnodup.2 hb (hlive' b hb) fun c hc hc' => hother c hc (hc'.trans hdest.symm)
        rw [← h b hb]
        refine (Eq.trans ?_ harrives.symm)
        rw [← hdest, hself]
      exact ⟨hequal, (hpairs (hsame hequal)).mp h⟩
    · rintro ⟨hequal, h⟩
      exact ⟨hfirst, (hpairs (hsame hequal)).mpr h⟩

end Relay
end SimpleStorage
