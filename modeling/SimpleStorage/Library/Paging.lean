import Mathlib.Data.List.Nodup
import Mathlib.Data.List.Range
import Mathlib.Data.List.Forall2

/-!
# Walking through pages

A client reads a long list page by page: each page comes with a cursor for the next
one, or with none when the list is over.  `walk` is that client, given as many requests
as it may send; it answers `none` when they did not suffice.

Two ways to reason about a walk are provided, for pagers that are right and for pagers
that may be wrong.

* `walk_exact`: if every cursor *stands at* an index, shows the next `L` entries and
  hands out a cursor `L` further on exactly when more is left, then the walk ends and its
  pages are the entries cut into pieces of length `L`.
* `Spans.covers_zero_iff`: if a cursor may also fall back or stop early, the walk shows
  every entry exactly once only if it never does.  Where it falls back, either the
  walk never ends or some entry is shown twice; where it stops early, something is missing.
-/

namespace SimpleStorage
namespace Paging

variable {Cursor Page ε : Type*}

/-- Send at most `n` requests, the first one with the given cursor. -/
def walk (page : Cursor → Page × Option Cursor) : ℕ → Cursor → Option (List Page)
  | 0, _ => none
  | n + 1, c =>
      match (page c).2 with
      | none => some [(page c).1]
      | some c' => (walk page n c').map ((page c).1 :: ·)

variable {page : Cursor → Page × Option Cursor}

theorem walk_succ_of_none {c : Cursor} (h : (page c).2 = none) (n : ℕ) :
    walk page (n + 1) c = some [(page c).1] := by
  simp only [walk, h]

theorem walk_succ_of_some {c c' : Cursor} (h : (page c).2 = some c') (n : ℕ) :
    walk page (n + 1) c = (walk page n c').map ((page c).1 :: ·) := by
  simp only [walk, h]

/-- A walk that ended is not changed by being allowed more requests. -/
theorem walk_mono {n m : ℕ} (hnm : n ≤ m) {c : Cursor} {ps : List Page}
    (h : walk page n c = some ps) : walk page m c = some ps := by
  induction n generalizing m c ps with
  | zero => cases h
  | succ n ih =>
    obtain ⟨m, rfl⟩ : ∃ k, m = k + 1 := ⟨m - 1, by omega⟩
    cases hc : (page c).2 with
    | none => rw [walk_succ_of_none hc] at h ⊢; exact h
    | some c' =>
      rw [walk_succ_of_some hc, Option.map_eq_some_iff] at h
      obtain ⟨qs, hqs, rfl⟩ := h
      rw [walk_succ_of_some hc, ih (by omega) hqs, Option.map_some]

/-- Two walks that end agree. -/
theorem walk_unique {n m : ℕ} {c : Cursor} {ps qs : List Page} (hp : walk page n c = some ps)
    (hq : walk page m c = some qs) : ps = qs := by
  have h := (walk_mono (Nat.le_max_left n m) hp).symm.trans (walk_mono (Nat.le_max_right n m) hq)
  exact Option.some.inj h

/-! ## Pagers that are right -/

/-- The pieces of a list cut at every `L`-th entry.  The last piece is whatever is left,
which for an empty list is the one empty piece. -/
inductive Cut (L : ℕ) : List ε → List (List ε) → Prop
  | last {E : List ε} (h : E.length ≤ L) : Cut L E [E]
  | more {E : List ε} {cs : List (List ε)} (h : L < E.length) (hcs : Cut L (E.drop L) cs) :
      Cut L E (E.take L :: cs)

theorem Cut.flatten {L : ℕ} {E : List ε} {cs : List (List ε)} (h : Cut L E cs) :
    cs.flatten = E := by
  induction h with
  | last h => exact List.flatten_singleton
  | more h hcs ih => rw [List.flatten_cons, ih, List.take_append_drop]

theorem Cut.length_le {L : ℕ} {E : List ε} {cs : List (List ε)} (h : Cut L E cs) :
    ∀ c ∈ cs, c.length ≤ L := by
  induction h with
  | last h => simpa using h
  | more h hcs ih =>
    intro c hc
    rcases List.mem_cons.mp hc with rfl | hc
    · exact List.length_take_le L _
    · exact ih c hc

/-- A cursor that stands at an index: it shows the next `L` entries and hands out a cursor
standing behind them exactly when there is something behind them. -/
structure StandsAt (page : Cursor → Page × Option Cursor) (Shows : Page → List ε → Prop) (L : ℕ)
    (E : List ε) (At : Cursor → ℕ → Prop) : Prop where
  shows : ∀ {c i}, At c i → Shows (page c).1 ((E.drop i).take L)
  next_eq_none : ∀ {c i}, At c i → ((page c).2 = none ↔ E.length ≤ i + L)
  next_at : ∀ {c i c'}, At c i → (page c).2 = some c' → At c' (i + L)

/-- **A pager whose cursors stand at indices is exact.**  The walk ends, and its pages show
the entries cut into pieces of length `L`. -/
theorem walk_exact {Shows : Page → List ε → Prop} {L : ℕ} (hL : 0 < L) {E : List ε}
    {At : Cursor → ℕ → Prop} (h : StandsAt page Shows L E At) {c : Cursor} {i : ℕ} (hc : At c i) :
    ∃ n ps cs, walk page n c = some ps ∧ Cut L (E.drop i) cs ∧ List.Forall₂ Shows ps cs := by
  induction hk : E.length - i using Nat.strong_induction_on generalizing c i with
  | _ k ih =>
  by_cases hend : E.length ≤ i + L
  · refine ⟨1, [(page c).1], [E.drop i], walk_succ_of_none ((h.next_eq_none hc).mpr hend) 0,
      Cut.last (by rw [List.length_drop]; omega), ?_⟩
    have hshow := h.shows hc
    rw [List.take_of_length_le (by rw [List.length_drop]; omega)] at hshow
    exact List.Forall₂.cons hshow List.Forall₂.nil
  · obtain ⟨c', hc'⟩ := Option.ne_none_iff_exists'.mp (mt (h.next_eq_none hc).mp hend)
    obtain ⟨n, ps, cs, hwalk, hcut, hshows⟩ :=
      ih (E.length - (i + L)) (by omega) (h.next_at hc hc') rfl
    refine ⟨n + 1, (page c).1 :: ps, (E.drop i).take L :: cs, ?_, ?_, ?_⟩
    · rw [walk_succ_of_some hc', hwalk, Option.map_some]
    · refine Cut.more (by rw [List.length_drop]; omega) ?_
      rwa [List.drop_drop]
    · exact List.Forall₂.cons (h.shows hc) hshows

/-- Whatever such a walk comes to is cut at every `L`-th entry. -/
theorem StandsAt.shows_walk {Shows : Page → List ε → Prop} {L : ℕ} (hL : 0 < L) {E : List ε}
    {At : Cursor → ℕ → Prop} (h : StandsAt page Shows L E At) {c : Cursor} {i n : ℕ} (hc : At c i)
    {ps : List Page} (hwalk : walk page n c = some ps) :
    ∃ cs, Cut L (E.drop i) cs ∧ List.Forall₂ Shows ps cs := by
  obtain ⟨m, qs, cs, hm, hcut, hshows⟩ := walk_exact hL h hc
  obtain rfl := walk_unique hwalk hm
  exact ⟨cs, hcut, hshows⟩

/-- A page of such a walk: where it stood, and that it is the last one or the rest of the walk
is the walk from its cursor. -/
theorem StandsAt.walk_split {Shows : Page → List ε → Prop} {L : ℕ} {E : List ε}
    {At : Cursor → ℕ → Prop} (h : StandsAt page Shows L E At) {before after : List Page} {p : Page}
    {c : Cursor} {i n : ℕ} (hc : At c i) (hwalk : walk page n c = some (before ++ p :: after)) :
    ∃ c' i', At c' i' ∧ p = (page c').1 ∧
      (((page c').2 = none ∧ after = []) ∨
        ∃ c'' m, (page c').2 = some c'' ∧ walk page m c'' = some after) := by
  induction before generalizing c i n with
  | nil =>
    cases n with
    | zero => cases hwalk
    | succ n =>
      refine ⟨c, i, hc, ?_⟩
      cases hn : (page c).2 with
      | none =>
        rw [walk_succ_of_none hn, Option.some.injEq, List.nil_append, List.cons.injEq] at hwalk
        exact ⟨hwalk.1.symm, Or.inl ⟨rfl, hwalk.2.symm⟩⟩
      | some c' =>
        rw [walk_succ_of_some hn, Option.map_eq_some_iff] at hwalk
        obtain ⟨qs, hqs, heq⟩ := hwalk
        rw [List.nil_append, List.cons.injEq] at heq
        exact ⟨heq.1.symm, Or.inr ⟨c', n, rfl, heq.2 ▸ hqs⟩⟩
  | cons b before ih =>
    cases n with
    | zero => cases hwalk
    | succ n =>
      cases hn : (page c).2 with
      | none =>
        rw [walk_succ_of_none hn, Option.some.injEq, List.cons_append, List.cons.injEq] at hwalk
        exact absurd hwalk.2.symm (List.append_ne_nil_of_right_ne_nil _ (List.cons_ne_nil _ _))
      | some c' =>
        rw [walk_succ_of_some hn, Option.map_eq_some_iff] at hwalk
        obtain ⟨qs, hqs, heq⟩ := hwalk
        rw [List.cons_append, List.cons.injEq] at heq
        exact ih (h.next_at hc hn) (heq.2 ▸ hqs)

/-! ## Pagers that may be wrong

A page is now only the span of indices it shows. -/

/-- The pages of a list of `N` entries by the span of indices they show: the page at `i`
shows `i, …, stop i - 1`, and the cursor it hands out stands at `next i`. -/
structure Spans (N : ℕ) where
  stop : ℕ → ℕ
  next : ℕ → Option ℕ
  le_stop : ∀ {i}, i ≤ N → i ≤ stop i
  stop_le : ∀ {i}, i ≤ N → stop i ≤ N
  /-- A cursor is handed out only by a page that shows something. -/
  next_of_empty : ∀ {i}, i < N → stop i ≤ i → next i = none
  /-- A cursor is handed out only when something is left, and does not skip anything. -/
  next_le : ∀ {i j}, i ≤ N → next i = some j → j ≤ stop i ∧ stop i < N

namespace Spans

variable {N : ℕ} (S : Spans N)

/-- The page at an index and the index of the next one. -/
def pageAt (i : ℕ) : (ℕ × ℕ) × Option ℕ := ((i, S.stop i), S.next i)

/-- The indices some pages show, in the order they are shown. -/
def shown (ps : List (ℕ × ℕ)) : List ℕ := ps.flatMap fun p => List.range' p.1 (p.2 - p.1)

@[simp] theorem shown_cons (p : ℕ × ℕ) (ps : List (ℕ × ℕ)) :
    shown (p :: ps) = List.range' p.1 (p.2 - p.1) ++ shown ps := rfl

/-- The page at `i` neither falls back nor stops early. -/
def Good (i : ℕ) : Prop := S.next i = if S.stop i < N then some (S.stop i) else none

/-- The walk that starts at `i` ends and shows every index from `i` on exactly once. -/
def Covers (i : ℕ) : Prop :=
  ∃ n ps, walk S.pageAt n i = some ps ∧ (shown ps).Nodup ∧ ∀ x, x ∈ shown ps ↔ i ≤ x ∧ x < N

/-- The walk that starts at `i` ends and shows the indices from `i` on in their order, on
pages that are all good. -/
def Reads (i : ℕ) : Prop :=
  ∃ n ps, walk S.pageAt n i = some ps ∧ shown ps = List.range' i (N - i) ∧ ∀ p ∈ ps, S.Good p.1

variable {S}

theorem good_iff_of_lt {i : ℕ} (h : S.stop i < N) : S.Good i ↔ S.next i = some (S.stop i) := by
  rw [Good, if_pos h]

theorem good_iff_of_le {i : ℕ} (h : N ≤ S.stop i) : S.Good i ↔ S.next i = none := by
  rw [Good, if_neg (not_lt.mpr h)]

theorem mem_range'_sub {i e x : ℕ} (h : i ≤ e) : x ∈ List.range' i (e - i) ↔ i ≤ x ∧ x < e := by
  rw [List.mem_range'_1]
  omega

theorem Reads.covers {i : ℕ} (hi : i ≤ N) (h : S.Reads i) : S.Covers i := by
  obtain ⟨n, ps, hwalk, hshown, -⟩ := h
  exact ⟨n, ps, hwalk, by rw [hshown]; exact List.nodup_range',
    fun x => by rw [hshown, mem_range'_sub hi]⟩

/-- The first index of a walk is shown, unless nothing is. -/
theorem mem_shown_of_walk {n j : ℕ} (hj : j < N) {ps : List (ℕ × ℕ)}
    (h : walk S.pageAt n j = some ps) : j ∈ shown ps ∨ shown ps = [] := by
  cases n with
  | zero => cases h
  | succ n =>
    have hmem : j < S.stop j → j ∈ List.range' j (S.stop j - j) := fun hlt =>
      (mem_range'_sub hlt.le).mpr ⟨le_rfl, hlt⟩
    cases hn : (S.pageAt j).2 with
    | none =>
      rw [walk_succ_of_none hn, Option.some.injEq] at h
      rw [← h]
      by_cases hlt : j < S.stop j
      · exact Or.inl (List.mem_append_left _ (hmem hlt))
      · refine Or.inr ?_
        rw [shown_cons]
        simp only [pageAt, Nat.sub_eq_zero_of_le (not_lt.mp hlt)]
        rfl
    | some j' =>
      rw [walk_succ_of_some hn, Option.map_eq_some_iff] at h
      obtain ⟨qs, -, rfl⟩ := h
      refine Or.inl (List.mem_append_left _ (hmem ?_))
      by_contra hle
      rw [pageAt, S.next_of_empty hj (not_lt.mp hle)] at hn
      cases hn

/-- **A page that goes wrong is never made good.**  Where it stops early something is
missing, where it falls back the next page shows something again. -/
theorem good_of_covers {i : ℕ} (hi : i ≤ N) (h : S.Covers i) :
    S.Good i ∧ (S.stop i < N → S.Covers (S.stop i)) := by
  obtain ⟨n, ps, hwalk, hnodup, hmem⟩ := h
  have his := S.le_stop hi
  cases n with
  | zero => cases hwalk
  | succ n =>
    cases hn : (S.pageAt i).2 with
    | none =>
      have hstop : ¬ S.stop i < N := by
        intro hlt
        rw [walk_succ_of_none hn, Option.some.injEq] at hwalk
        have hx := (hmem (S.stop i)).mpr ⟨his, hlt⟩
        rw [← hwalk, shown_cons, List.mem_append] at hx
        rcases hx with hx | hx
        · exact absurd ((mem_range'_sub his).mp hx).2 (lt_irrefl _)
        · cases hx
      exact ⟨by rw [Good, if_neg hstop]; exact hn, fun hlt => absurd hlt hstop⟩
    | some j =>
      obtain ⟨hj, hlt⟩ := S.next_le hi hn
      rw [walk_succ_of_some hn, Option.map_eq_some_iff] at hwalk
      obtain ⟨qs, hqs, rfl⟩ := hwalk
      obtain ⟨-, hrest, hdisj⟩ := List.nodup_append.mp (shown_cons _ _ ▸ hnodup)
      have hlater : ∀ x, S.stop i ≤ x → x < N → x ∈ shown qs := by
        intro x hsx hxN
        have hx := (hmem x).mpr ⟨his.trans hsx, hxN⟩
        rw [shown_cons, List.mem_append] at hx
        exact hx.resolve_left fun hfirst => absurd ((mem_range'_sub his).mp hfirst).2 (by omega)
      have hjmem : j ∈ shown qs := by
        rcases mem_shown_of_walk (by omega) hqs with hjmem | hnil
        · exact hjmem
        · have hx := hlater _ le_rfl hlt
          rw [hnil] at hx
          cases hx
      have hbounds : ∀ x ∈ shown qs, i ≤ x ∧ x < N := fun x hx => (hmem x).mp (by
        rw [shown_cons]
        exact List.mem_append_right _ hx)
      have hjs : j = S.stop i := by
        by_contra hne
        exact hdisj j ((mem_range'_sub his).mpr ⟨(hbounds j hjmem).1, by omega⟩) j hjmem rfl
      subst hjs
      refine ⟨by rw [Good, if_pos hlt]; exact hn, fun _ => ⟨n, qs, hqs, hrest, fun x =>
        ⟨fun hx => ⟨?_, (hbounds x hx).2⟩, fun hx => hlater x hx.1 hx.2⟩⟩⟩
      by_contra hnot
      exact hdisj x ((mem_range'_sub his).mpr ⟨(hbounds x hx).1, by omega⟩) x hx rfl

theorem reads_of_good {i : ℕ} (hi : i ≤ N) (hgood : S.Good i)
    (hrest : S.stop i < N → S.Reads (S.stop i)) : S.Reads i := by
  have hle := S.le_stop hi
  by_cases hstop : S.stop i < N
  · have hnext : S.next i = some (S.stop i) := by rw [hgood, if_pos hstop]
    obtain ⟨n, ps, hwalk, hshown, hps⟩ := hrest hstop
    refine ⟨n + 1, (i, S.stop i) :: ps, ?_, ?_, List.forall_mem_cons.mpr ⟨hgood, hps⟩⟩
    · have hpage : (S.pageAt i).2 = some (S.stop i) := hnext
      rw [walk_succ_of_some hpage, hwalk]
      rfl
    · have hsplit : N - i = (S.stop i - i) + (N - S.stop i) := by omega
      rw [shown_cons, hshown, hsplit, ← List.range'_append_1, Nat.add_sub_cancel' hle]
  · have hnext : S.next i = none := by rw [hgood, if_neg hstop]
    have heq : S.stop i = N := le_antisymm (S.stop_le hi) (not_lt.mp hstop)
    refine ⟨1, [(i, S.stop i)], walk_succ_of_none hnext 0, ?_,
      List.forall_mem_cons.mpr ⟨hgood, fun p hp => nomatch hp⟩⟩
    rw [shown_cons, heq]
    exact List.append_nil _

/-- **Pages of at most `L` entries, full where they hand out a cursor, cover the list if and only
if no page at a multiple of `L` goes wrong**; and then they show it in order. -/
theorem covers_zero_iff {L : ℕ} (hL : 0 < L) (hstop : ∀ i, S.stop i ≤ i + L)
    (hfull : ∀ i j, S.next i = some j → S.stop i = i + L) :
    (S.Covers 0 ↔ ∀ g, (g = 0 ∨ g * L < N) → S.Good (g * L)) ∧ (S.Covers 0 → S.Reads 0) := by
  have hstep : ∀ g, S.Good (g * L) → S.stop (g * L) < N → S.stop (g * L) = (g + 1) * L := by
    intro g hgood hlt
    rw [Good, if_pos hlt] at hgood
    rw [hfull _ _ hgood, Nat.succ_mul]
  have hle : ∀ g, (g = 0 ∨ g * L < N) → g * L ≤ N := by
    rintro g (rfl | hg)
    · omega
    · exact hg.le
  have hto : S.Covers 0 → ∀ g, (g = 0 ∨ g * L < N) → S.Covers (g * L) := by
    intro h g
    induction g with
    | zero => intro _; rwa [Nat.zero_mul]
    | succ g ih =>
      intro hg
      have hlt : g * L + L < N := by
        rcases hg with hg | hg
        · cases hg
        · rwa [Nat.succ_mul] at hg
      obtain ⟨hgood, hmore⟩ := good_of_covers (by omega) (ih (Or.inr (by omega)))
      have hstopN : S.stop (g * L) < N := (hstop _).trans_lt hlt
      exact hstep g hgood hstopN ▸ hmore hstopN
  have hfrom : (∀ g, (g = 0 ∨ g * L < N) → S.Good (g * L)) →
      ∀ g, (g = 0 ∨ g * L < N) → S.Reads (g * L) := by
    intro h g hg
    induction hk : N - g * L using Nat.strong_induction_on generalizing g with
    | _ k ih =>
    refine reads_of_good (hle g hg) (h g hg) fun hlt => ?_
    have heq := hstep g (h g hg) hlt
    have hpos : g * L < (g + 1) * L := by
      rw [Nat.succ_mul]
      omega
    rw [heq] at hlt ⊢
    exact ih _ (by omega) (g + 1) (Or.inr hlt) rfl
  have hgood : S.Covers 0 → ∀ g, (g = 0 ∨ g * L < N) → S.Good (g * L) := fun h g hg =>
    (good_of_covers (hle g hg) (hto h g hg)).1
  have hreads : (∀ g, (g = 0 ∨ g * L < N) → S.Good (g * L)) → S.Reads 0 := fun h => by
    simpa using hfrom h 0 (Or.inl rfl)
  exact ⟨⟨hgood, fun h => (hreads h).covers (Nat.zero_le N)⟩, fun h => hreads (hgood h)⟩

/-! ### Following a pager index by index -/

/-- The entries with the given indices. -/
def pick (E : List ε) (xs : List ℕ) : List ε := xs.filterMap (E[·]?)

/-- A pager that does what `S` says: a cursor at `i` shows the entries `i, …, stop i - 1`, and the
next one stands at `next i`. -/
structure Follows (S : Spans N) (page : Cursor → Page × Option Cursor)
    (Shows : Page → List ε → Prop) (E : List ε) (At : Cursor → ℕ → Prop) : Prop where
  at_le : ∀ {c i}, At c i → i ≤ N
  shows : ∀ {c i}, At c i → Shows (page c).1 (pick E (List.range' i (S.stop i - i)))
  next_none : ∀ {c i}, At c i → (page c).2 = none → S.next i = none
  next_some : ∀ {c i c'}, At c i → (page c).2 = some c' → ∃ j, S.next i = some j ∧ At c' j

variable {Shows : Page → List ε → Prop} {E : List ε} {At : Cursor → ℕ → Prop}

/-- The pages stand where the spans begin and show the spans. -/
def ShowSpans (page : Cursor → Page × Option Cursor) (Shows : Page → List ε → Prop) (E : List ε)
    (At : Cursor → ℕ → Prop) (ps : List Page) (is : List (ℕ × ℕ)) : Prop :=
  List.Forall₂ (fun p i => (∃ c, At c i.1 ∧ p = (page c).1) ∧
    Shows p (pick E (List.range' i.1 (i.2 - i.1)))) ps is

theorem Follows.walk_spans (h : S.Follows page Shows E At) {n : ℕ} {c : Cursor} {i : ℕ}
    (hc : At c i) :
    (∀ ps, walk page n c = some ps →
      ∃ is, walk S.pageAt n i = some is ∧ ShowSpans page Shows E At ps is) ∧
    (∀ is, walk S.pageAt n i = some is →
      ∃ ps, walk page n c = some ps ∧ ShowSpans page Shows E At ps is) := by
  induction n generalizing c i with
  | zero => exact ⟨fun _ h => (nomatch h), fun _ h => (nomatch h)⟩
  | succ n ih =>
    have hshow := And.intro (⟨c, hc, rfl⟩ : ∃ c', At c' i ∧ (page c).1 = (page c').1) (h.shows hc)
    cases hn : (page c).2 with
    | none =>
      have hi : (S.pageAt i).2 = none := h.next_none hc hn
      rw [walk_succ_of_none hn, walk_succ_of_none hi]
      constructor
      · rintro ps ⟨⟩
        exact ⟨_, rfl, List.Forall₂.cons hshow List.Forall₂.nil⟩
      · rintro is ⟨⟩
        exact ⟨_, rfl, List.Forall₂.cons hshow List.Forall₂.nil⟩
    | some c' =>
      obtain ⟨j, hj, hat⟩ := h.next_some hc hn
      have hi : (S.pageAt i).2 = some j := hj
      rw [walk_succ_of_some hn, walk_succ_of_some hi]
      obtain ⟨hto, hfrom⟩ := ih hat
      constructor
      · intro ps hps
        obtain ⟨qs, hqs, rfl⟩ := Option.map_eq_some_iff.mp hps
        obtain ⟨is, his, hshows⟩ := hto qs hqs
        exact ⟨_, by rw [his, Option.map_some], List.Forall₂.cons hshow hshows⟩
      · intro is his
        obtain ⟨js, hjs, rfl⟩ := Option.map_eq_some_iff.mp his
        obtain ⟨qs, hqs, hshows⟩ := hfrom js hjs
        exact ⟨_, by rw [hqs, Option.map_some], List.Forall₂.cons hshow hshows⟩

theorem pick_range' {i n : ℕ} : pick E (List.range' i n) = (E.drop i).take n := by
  induction n generalizing i with
  | zero => simp [pick]
  | succ n ih =>
    rw [List.range'_succ, pick, List.filterMap_cons]
    cases hi : E[i]? with
    | none =>
      have hlen := List.getElem?_eq_none_iff.mp hi
      have hrest : pick E (List.range' (i + 1) n) = [] := by
        rw [ih, List.drop_eq_nil_iff.mpr (by omega), List.take_nil]
      rw [List.drop_eq_nil_iff.mpr hlen, List.take_nil]
      exact hrest
    | some e =>
      obtain ⟨hlt, rfl⟩ := List.getElem?_eq_some_iff.mp hi
      rw [List.drop_eq_getElem_cons hlt, List.take_succ_cons, ← ih]
      rfl

theorem pick_append (xs ys : List ℕ) : pick E (xs ++ ys) = pick E xs ++ pick E ys :=
  List.filterMap_append

theorem mem_pick {xs : List ℕ} {e : ε} : e ∈ pick E xs ↔ ∃ x ∈ xs, E[x]? = some e := by
  rw [pick, List.mem_filterMap]

/-- Picking is injective where the entries are distinct. -/
theorem nodup_pick_iff (hE : E.Nodup) {xs : List ℕ} (hxs : ∀ x ∈ xs, x < E.length) :
    (pick E xs).Nodup ↔ xs.Nodup := by
  induction xs with
  | nil => exact iff_of_true List.nodup_nil List.nodup_nil
  | cons x xs ih =>
    have hx := hxs x List.mem_cons_self
    have hxs' : ∀ y ∈ xs, y < E.length := fun y hy => hxs y (List.mem_cons_of_mem x hy)
    have hcons : pick E (x :: xs) = E[x] :: pick E xs := by
      rw [pick, List.filterMap_cons, List.getElem?_eq_getElem hx]
      rfl
    have hmem : E[x] ∈ pick E xs ↔ x ∈ xs := by
      rw [mem_pick]
      constructor
      · rintro ⟨y, hy, hget⟩
        obtain ⟨hlt, heq⟩ := List.getElem?_eq_some_iff.mp hget
        have hyx : y = x := (List.Nodup.getElem_inj_iff hE).mp heq
        exact hyx ▸ hy
      · intro hx'
        exact ⟨x, hx', List.getElem?_eq_getElem hx⟩
    rw [hcons, List.nodup_cons, List.nodup_cons, ih hxs', hmem]

/-- What some spans show, one after the other. -/
def slices (E : List ε) (is : List (ℕ × ℕ)) : List (List ε) :=
  is.map fun i => pick E (List.range' i.1 (i.2 - i.1))

theorem flatten_slices (is : List (ℕ × ℕ)) : (slices E is).flatten = pick E (shown is) := by
  induction is with
  | nil => rfl
  | cons i is ih =>
    rw [slices, List.map_cons, List.flatten_cons, shown_cons, pick_append, ← ih]
    rfl

theorem ShowSpans.slices {ps : List Page} {is : List (ℕ × ℕ)} (h : ShowSpans page Shows E At ps is) :
    List.Forall₂ Shows ps (slices E is) := by
  induction h with
  | nil => exact List.Forall₂.nil
  | cons hp _ ih => exact List.Forall₂.cons hp.2 ih

theorem ShowSpans.forall_page {ps : List Page} {is : List (ℕ × ℕ)}
    (h : ShowSpans page Shows E At ps is) (his : ∀ i ∈ is, S.Good i.1) :
    ∀ p ∈ ps, ∃ c i, At c i ∧ S.Good i ∧ p = (page c).1 := by
  induction h with
  | nil => exact fun p hp => nomatch hp
  | cons hp _ ih =>
    obtain ⟨hgood, his⟩ := List.forall_mem_cons.mp his
    obtain ⟨⟨c, hc, rfl⟩, -⟩ := hp
    exact List.forall_mem_cons.mpr ⟨⟨c, _, hc, hgood, rfl⟩, ih his⟩

theorem lt_of_mem_shown {n i : ℕ} (hi : i ≤ N) {is : List (ℕ × ℕ)}
    (h : walk S.pageAt n i = some is) : ∀ x ∈ shown is, x < N := by
  induction n generalizing i is with
  | zero => cases h
  | succ n ih =>
    have hfirst : ∀ x ∈ List.range' i (S.stop i - i), x < N := fun x hx =>
      ((mem_range'_sub (S.le_stop hi)).mp hx).2.trans_le (S.stop_le hi)
    cases hn : (S.pageAt i).2 with
    | none =>
      rw [walk_succ_of_none hn, Option.some.injEq] at h
      intro x hx
      rw [← h, shown_cons] at hx
      exact (List.mem_append.mp hx).elim (hfirst x) (fun hx => nomatch hx)
    | some j =>
      obtain ⟨hj, hlt⟩ := S.next_le hi hn
      rw [walk_succ_of_some hn, Option.map_eq_some_iff] at h
      obtain ⟨js, hjs, rfl⟩ := h
      intro x hx
      rw [shown_cons] at hx
      exact (List.mem_append.mp hx).elim (hfirst x) (ih (by omega) hjs x)

/-- **Showing every entry exactly once is covering the indices.**  `P` is what the client sees of
it: it must say at least that every entry is shown once, and must follow from pages that are
all good and show the entries in their order. -/
theorem Follows.exactlyOnce_iff (h : S.Follows page Shows E At) (hE : E.Nodup)
    (hlen : E.length = N) {P : List Page → Prop}
    (hto : ∀ ps cs, List.Forall₂ Shows ps cs → (∀ e ∈ cs.flatten, e ∈ E) → P ps →
      cs.flatten.Nodup ∧ ∀ e ∈ E, e ∈ cs.flatten)
    (hfrom : ∀ ps cs, List.Forall₂ Shows ps cs → cs.flatten = E →
      (∀ p ∈ ps, ∃ c i, At c i ∧ S.Good i ∧ p = (page c).1) → P ps)
    (hreads : S.Covers 0 → S.Reads 0) {c : Cursor} (hc : At c 0) :
    (∃ n ps, walk page n c = some ps ∧ P ps) ↔ S.Covers 0 := by
  constructor
  · rintro ⟨n, ps, hwalk, hps⟩
    obtain ⟨is, his, hshows⟩ := (h.walk_spans hc).1 ps hwalk
    have hlt := lt_of_mem_shown (Nat.zero_le N) his
    have hsub : ∀ e ∈ (Spans.slices E is).flatten, e ∈ E := by
      intro e he
      rw [flatten_slices] at he
      obtain ⟨x, -, hx⟩ := mem_pick.mp he
      exact List.mem_of_getElem? hx
    obtain ⟨hnodup, hall⟩ := hto ps _ hshows.slices hsub hps
    rw [flatten_slices] at hnodup hall
    refine ⟨n, is, his, (nodup_pick_iff hE (by rwa [hlen])).mp hnodup, fun x =>
      ⟨fun hx => ⟨Nat.zero_le x, hlt x hx⟩, fun hx => ?_⟩⟩
    obtain ⟨y, hy, hget⟩ := mem_pick.mp (hall _ (List.getElem_mem (hlen ▸ hx.2)))
    obtain ⟨hylt, heq⟩ := List.getElem?_eq_some_iff.mp hget
    exact (List.Nodup.getElem_inj_iff hE).mp heq ▸ hy
  · intro hcovers
    obtain ⟨n, is, hwalk, hshown, hgood⟩ := hreads hcovers
    obtain ⟨ps, hps, hshows⟩ := (h.walk_spans hc).2 is hwalk
    refine ⟨n, ps, hps, hfrom ps _ hshows.slices ?_ (hshows.forall_page hgood)⟩
    rw [flatten_slices, hshown, Nat.sub_zero, pick_range', List.drop_zero,
      List.take_of_length_le hlen.le]

end Spans
end Paging
end SimpleStorage
