import Mathlib.Data.Finset.Card
import Mathlib.Data.List.Sort
import Mathlib.Order.Basic

/-!
# Paging by a marker while the list changes

A client reads a list page by page and names, with each request, the key of the last entry it
was shown.  The list is in ascending order of its keys whenever a page is read, but it need not
be the same list each time: `walk` takes one list for each request.

* `pairwise_walk`: the keys shown ascend strictly, so no key is shown twice.
* `mem_walk`: once the walk is over, a key that was there all the time has been shown.
* `countP_walk_le`: how many pages there can be only depends on how many keys there can be.
* `shown_walk_replicate`: if the list does not change, what is shown is the list.
-/

namespace SimpleStorage
namespace Markers

variable {ε κ : Type*} [LinearOrder κ] (key : ε → κ)

/-- Behind the marker. -/
def Behind (marker : Option κ) (e : ε) : Prop := ∀ m ∈ marker, m < key e

instance (marker : Option κ) : DecidablePred (Behind key marker) := fun _ =>
  inferInstanceAs (Decidable (∀ m ∈ marker, _))

structure Page (ε κ : Type*) where
  entries : List ε
  next : Option κ

variable (L : ℕ)

/-- The next `L` entries, and the marker behind them if there are more. -/
def page (E : List ε) (marker : Option κ) : Page ε κ :=
  let rest := E.filter fun e => Behind key marker e
  { entries := rest.take L
    next := if L < rest.length then (rest.take L).getLast?.map key else none }

/-- The pages a client reads that follows the markers, one list for each request. -/
def walk : List (List ε) → Option κ → List (Page ε κ)
  | [], _ => []
  | E :: Es, marker =>
      page key L E marker :: match (page key L E marker).next with
        | none => []
        | some m => walk Es (some m)

/-- The entries on some pages. -/
def shown (ps : List (Page ε κ)) : List ε := ps.flatMap Page.entries

/-- The list is over. -/
def Over (ps : List (Page ε κ)) : Prop := ∀ p ∈ ps.getLast?, p.next = none

variable {key L} {E : List ε} {Es : List (List ε)} {marker : Option κ}

theorem behind_none (e : ε) : Behind key none e := by simp [Behind]

theorem behind_some {m : κ} {e : ε} : Behind key (some m) e ↔ m < key e := by simp [Behind]

theorem Behind.trans {m : κ} {e : ε} (hm : ∀ l ∈ marker, l < m) (h : m < key e) :
    Behind key marker e := fun l hl => (hm l hl).trans h

theorem mem_page {e : ε} (h : e ∈ (page key L E marker).entries) : e ∈ E ∧ Behind key marker e := by
  have hmem := List.mem_of_mem_take h
  rw [List.mem_filter, decide_eq_true_iff] at hmem
  exact hmem

theorem length_page_le : (page key L E marker).entries.length ≤ L := by
  rw [page, List.length_take]
  exact Nat.min_le_left _ _

/-- The next marker is the key of the last entry shown, of which there are `L`. -/
theorem next_eq_some {m : κ} (h : (page key L E marker).next = some m) :
    (page key L E marker).entries.length = L ∧
      ∃ e, (page key L E marker).entries.getLast? = some e ∧ key e = m := by
  simp only [page] at h ⊢
  split_ifs at h with hlt
  rw [List.length_take, Nat.min_eq_left hlt.le]
  exact ⟨rfl, Option.map_eq_some_iff.mp h⟩

variable (hE : E.Pairwise fun a b => key a < key b)
include hE

theorem pairwise_page : (page key L E marker).entries.Pairwise fun a b => key a < key b :=
  (hE.filter _).sublist (List.take_sublist _ _)

/-- What comes behind the marker of a page comes behind all that is on it. -/
theorem le_next {m : κ} (h : (page key L E marker).next = some m) :
    ∀ e ∈ (page key L E marker).entries, key e ≤ m := by
  obtain ⟨-, last, hlast, rfl⟩ := next_eq_some h
  intro e he
  obtain ⟨front, hfront⟩ := List.getLast?_eq_some_iff.mp hlast
  have hsorted : (page key L E marker).entries.Pairwise fun a b => key a < key b := pairwise_page hE
  rw [hfront, List.pairwise_append] at hsorted
  rw [hfront, List.mem_append, List.mem_singleton] at he
  rcases he with he | rfl
  · exact (hsorted.2.2 e he last (List.mem_singleton_self _)).le
  · exact le_rfl

/-- An entry behind the marker is on the page or behind the marker of the next one. -/
theorem mem_page_or_behind (hL : 0 < L) {e : ε} (he : e ∈ E) (hbehind : Behind key marker e) :
    e ∈ (page key L E marker).entries ∨ ∃ m, (page key L E marker).next = some m ∧ m < key e := by
  have hsorted : (E.filter fun e => Behind key marker e).Pairwise fun a b => key a < key b :=
    hE.filter _
  have hrest : e ∈ E.filter fun e => Behind key marker e :=
    List.mem_filter.mpr ⟨he, decide_eq_true hbehind⟩
  simp only [page]
  generalize E.filter (fun e => Behind key marker e) = rest at hsorted hrest ⊢
  rw [← List.take_append_drop L rest, List.mem_append] at hrest
  rcases hrest with hshown | hleft
  · exact .inl hshown
  have hlt : L < rest.length := by
    by_contra hle
    rw [List.drop_eq_nil_of_le (not_lt.mp hle)] at hleft
    cases hleft
  have hne : rest.take L ≠ [] := by
    rw [← List.length_pos_iff, List.length_take, Nat.min_eq_left hlt.le]
    exact hL
  rw [if_pos hlt, List.getLast?_eq_some_getLast hne]
  rw [← List.take_append_drop L rest, List.pairwise_append] at hsorted
  exact .inr ⟨_, rfl, hsorted.2.2 _ (List.getLast_mem hne) _ hleft⟩

omit hE

/-! ## The whole walk -/

variable (hEs : ∀ E ∈ Es, E.Pairwise fun a b => key a < key b)

variable (Es) in
theorem walk_cons_of_none (h : (page key L E marker).next = none) :
    walk key L (E :: Es) marker = [page key L E marker] := by
  rw [walk, h]

variable (Es) in
theorem walk_cons_of_some {m : κ} (h : (page key L E marker).next = some m) :
    walk key L (E :: Es) marker = page key L E marker :: walk key L Es (some m) := by
  rw [walk, h]

/-- The marker moves on. -/
theorem lt_of_next {m : κ} (h : (page key L E marker).next = some m) : ∀ l ∈ marker, l < m := by
  obtain ⟨-, last, hlast, rfl⟩ := next_eq_some h
  exact (mem_page (List.mem_of_getLast? hlast)).2

/-- Each page of a walk is a page of one of the lists. -/
theorem mem_walk_eq {p : Page ε κ} (h : p ∈ walk key L Es marker) :
    ∃ E ∈ Es, ∃ marker', p = page key L E marker' := by
  induction Es generalizing marker with
  | nil => cases h
  | cons E Es ih =>
    rw [walk] at h
    rcases List.mem_cons.mp h with rfl | h
    · exact ⟨E, List.mem_cons_self, marker, rfl⟩
    · cases hnext : (page key L E marker).next with
      | none =>
        rw [hnext] at h
        cases h
      | some m =>
        rw [hnext] at h
        obtain ⟨E', hE', hp⟩ := ih h
        exact ⟨E', List.mem_cons_of_mem _ hE', hp⟩

/-- What is shown was in one of the lists. -/
theorem mem_of_shown {e : ε} (h : e ∈ shown (walk key L Es marker)) : ∃ E ∈ Es, e ∈ E := by
  obtain ⟨p, hp, he⟩ := List.mem_flatMap.mp h
  obtain ⟨E, hE, marker', rfl⟩ := mem_walk_eq hp
  exact ⟨E, hE, (mem_page he).1⟩

theorem walk_eq_nil : walk key L Es marker = [] ↔ Es = [] := by
  cases Es with
  | nil => exact iff_of_true rfl rfl
  | cons E Es => exact iff_of_false (List.cons_ne_nil _ _) (List.cons_ne_nil _ _)

omit [LinearOrder κ] in
/-- A list that goes on is over when the rest of it is. -/
theorem over_cons_of_some {p : Page ε κ} {ps : List (Page ε κ)} {m : κ} (h : p.next = some m)
    (hover : Over (p :: ps)) : ps ≠ [] ∧ Over ps := by
  rcases ps with _ | ⟨q, ps⟩
  · have hnone := hover p rfl
    rw [h] at hnone
    cases hnone
  · exact ⟨List.cons_ne_nil _ _, fun r hr => hover r (by rwa [List.getLast?_cons_cons])⟩

omit [LinearOrder κ] in
theorem over_cons {p : Page ε κ} {ps : List (Page ε κ)} (hne : ps ≠ []) (hover : Over ps) :
    Over (p :: ps) := by
  obtain ⟨q, qs, rfl⟩ := List.exists_cons_of_ne_nil hne
  intro r hr
  rw [List.getLast?_cons_cons] at hr
  exact hover r hr

include hEs

/-- **No key is shown twice**: the keys shown ascend strictly, from the marker on. -/
theorem pairwise_walk (marker : Option κ) :
    (∀ e ∈ shown (walk key L Es marker), Behind key marker e) ∧
      (shown (walk key L Es marker)).Pairwise fun a b => key a < key b := by
  induction Es generalizing marker with
  | nil => exact ⟨List.forall_mem_nil _, .nil⟩
  | cons E Es ih =>
    obtain ⟨hE, hEs⟩ := List.forall_mem_cons.mp hEs
    have hpage : ∀ e ∈ (page key L E marker).entries, Behind key marker e := fun e he => (mem_page he).2
    cases hnext : (page key L E marker).next with
    | none =>
      rw [walk_cons_of_none _ hnext, shown, List.flatMap_singleton]
      exact ⟨hpage, pairwise_page hE⟩
    | some m =>
      obtain ⟨hbehind, hsorted⟩ := ih hEs (some m)
      rw [walk_cons_of_some _ hnext, shown, List.flatMap_cons]
      have hlast : ∀ l ∈ marker, l < m := lt_of_next hnext
      constructor
      · intro e he
        rcases List.mem_append.mp he with he | he
        · exact hpage e he
        · exact Behind.trans hlast (behind_some.mp (hbehind e he))
      · refine List.pairwise_append.mpr ⟨pairwise_page hE, hsorted, fun a ha b hb => ?_⟩
        exact (le_next hE hnext a ha).trans_lt (behind_some.mp (hbehind b hb))

/-- **What was there all the time is shown**, once the list is over. -/
theorem mem_walk (hL : 0 < L) {marker : Option κ} (hover : Over (walk key L Es marker)) (hne : Es ≠ [])
    {k : κ} (hk : ∀ m ∈ marker, m < k)
    (hall : ∀ E ∈ Es.take (walk key L Es marker).length, ∃ e ∈ E, key e = k) :
    ∃ e ∈ shown (walk key L Es marker), key e = k := by
  induction Es generalizing marker with
  | nil => exact absurd rfl hne
  | cons E Es ih =>
    obtain ⟨hE, hEs⟩ := List.forall_mem_cons.mp hEs
    cases hnext : (page key L E marker).next with
    | none =>
      rw [walk_cons_of_none _ hnext] at hall ⊢
      obtain ⟨e, he, rfl⟩ := hall E (by simp)
      rcases mem_page_or_behind hE hL he hk with hshown | ⟨m, hm, -⟩
      · exact ⟨e, by simpa [shown] using hshown, rfl⟩
      · rw [hnext] at hm
        cases hm
    | some m =>
      rw [walk_cons_of_some _ hnext] at hall hover ⊢
      rw [List.length_cons, List.take_succ_cons, List.forall_mem_cons] at hall
      obtain ⟨⟨e, he, rfl⟩, hall⟩ := hall
      rw [shown, List.flatMap_cons]
      rcases mem_page_or_behind hE hL he hk with hshown | ⟨m', hm', hlt⟩
      · exact ⟨e, List.mem_append_left _ hshown, rfl⟩
      · obtain rfl : m = m' := Option.some.inj (hnext.symm.trans hm')
        obtain ⟨hwalk, hover⟩ := over_cons_of_some hnext hover
        obtain ⟨e', he', hkey⟩ := ih hEs hover (walk_eq_nil.not.mp hwalk) (by simpa using hlt) hall
        exact ⟨e', List.mem_append_right _ he', hkey⟩

/-- **How many pages there can be** that are not the last, if all keys are from a finite set: each of
them shows `L`. -/
theorem countP_walk_le {K : Finset κ} (hK : ∀ E ∈ Es, ∀ e ∈ E, key e ∈ K) (marker : Option κ) :
    L * (walk key L Es marker).countP (·.next.isSome) ≤ K.card := by
  have hshown : ∀ ps : List (Page ε κ), (∀ p ∈ ps, p.next.isSome → p.entries.length = L) →
      L * ps.countP (·.next.isSome) ≤ (shown ps).length := by
    intro ps hps
    induction ps with
    | nil => simp
    | cons p ps ih =>
      obtain ⟨hp, hps⟩ := List.forall_mem_cons.mp hps
      rw [List.countP_cons, shown, List.flatMap_cons, List.length_append, Nat.mul_add, Nat.add_comm]
      refine Nat.add_le_add ?_ (ih hps)
      split_ifs with h
      · rw [Nat.mul_one, hp h]
      · simp
  refine (hshown _ fun p hp h => ?_).trans ?_
  · obtain ⟨E, -, marker', rfl⟩ := mem_walk_eq hp
    obtain ⟨m, hm⟩ := Option.isSome_iff_exists.mp h
    exact (next_eq_some hm).1
  · have hkeys : ((shown (walk key L Es marker)).map key).Nodup :=
      List.Pairwise.map key (fun _ _ h => h) ((pairwise_walk hEs marker).2.imp fun h => ne_of_lt h)
    rw [← List.length_map (f := key), ← List.toFinset_card_of_nodup hkeys]
    refine Finset.card_le_card fun k hk => ?_
    obtain ⟨e, he, rfl⟩ := List.mem_map.mp (List.mem_toFinset.mp hk)
    obtain ⟨E, hE, heE⟩ := mem_of_shown he
    exact hK E hE e heE

omit hEs

/-- **A list that does not change is shown as it is**, from the marker on. -/
theorem shown_walk_replicate (hL : 0 < L) (hE : E.Pairwise fun a b => key a < key b) {n : ℕ}
    (hn : n ≠ 0) (hover : Over (walk key L (List.replicate n E) marker)) :
    shown (walk key L (List.replicate n E) marker) = E.filter fun e => Behind key marker e := by
  have hEs : ∀ E' ∈ List.replicate n E, E' = E := fun E' h => List.eq_of_mem_replicate h
  have hsorted : ∀ E' ∈ List.replicate n E, E'.Pairwise fun a b => key a < key b :=
    fun E' h => hEs E' h ▸ hE
  obtain ⟨hbehind, hshown⟩ := pairwise_walk (L := L) hsorted marker
  have hfilter : (E.filter fun e => Behind key marker e).Pairwise fun a b => key a < key b := hE.filter _
  refine List.Perm.eq_of_pairwise (fun _ _ _ _ h h' => absurd h h'.asymm) hshown hfilter ?_
  refine (List.perm_ext_iff_of_nodup (hshown.imp fun h he => h.ne (congrArg key he))
    (hfilter.imp fun h he => h.ne (congrArg key he))).mpr fun e => ?_
  rw [List.mem_filter, decide_eq_true_iff]
  constructor
  · intro he
    obtain ⟨E', hE', heE⟩ := mem_of_shown he
    exact ⟨hEs E' hE' ▸ heE, hbehind e he⟩
  · rintro ⟨he, hmarker⟩
    obtain ⟨e', he', hkey⟩ := mem_walk hsorted hL hover (by simpa using hn) hmarker
      fun E' hE' => ⟨e, (hEs E' (List.mem_of_mem_take hE')).symm ▸ he, rfl⟩
    obtain ⟨E', hE', heE⟩ := mem_of_shown he'
    rw [hEs E' hE'] at heE
    have hkeys : (E.map key).Nodup := List.Pairwise.map key (fun _ _ h => h) (hE.imp fun h => h.ne)
    obtain rfl : e' = e := List.inj_on_of_nodup_map hkeys heE he hkey
    exact he'

end Markers
end SimpleStorage
