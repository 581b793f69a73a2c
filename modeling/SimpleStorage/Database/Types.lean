import Mathlib.Data.Char
import Mathlib.Data.List.Lex
import Mathlib.Data.UInt

/-!
# Values of the metadata store

Texts, bytes, times and identifiers as the services pass them around, and the
enumerations of the schema.

A text is a list of Unicode scalar values: what the database stores and what a string
without lone surrogates is.  Identifiers the database generates are numbers, since
nothing but their equality is ever used; those of users are texts, since a policy
looks for them inside its principals.
-/

namespace SimpleStorage

/-- A string. -/
abbrev Text := List Char

/-- A buffer, or what a stream delivers. -/
abbrev Bytes := List UInt8

/-- A `uuid` column of a bucket, an object, a version or an upload. -/
abbrev Guid := ℕ

/-- A `uuid` column of a user. -/
abbrev UserGuid := Text

/-- A point in time, in milliseconds. -/
abbrev Timestamp := ℕ

namespace Text

/-- Equal texts are the same text, for membership in lists of texts. -/
instance : LawfulBEq Text := List.instLawfulBEq

/-- The pieces of a text between the occurrences of a character. -/
def split (sep : Char) (s : Text) : List Text := s.splitOn sep

/-- The pieces put together again. -/
def join (sep : Char) (parts : List Text) : Text := [sep].intercalate parts

/-- White space, for `trim` and for `\s`. -/
def isSpace (c : Char) : Bool :=
  c.toNat ∈ [0x09, 0x0a, 0x0b, 0x0c, 0x0d, 0x20, 0xa0, 0x1680, 0x2028, 0x2029, 0x202f, 0x205f,
    0x3000, 0xfeff] || (0x2000 ≤ c.toNat && c.toNat ≤ 0x200a)

def trim (s : Text) : Text := ((s.dropWhile isSpace).reverse.dropWhile isSpace).reverse

/-- Visible ASCII characters are no white space. -/
theorem isSpace_of_visible {c : Char} (hlow : 0x20 < c.toNat) (hhigh : c.toNat < 0x7f) :
    isSpace c = false := by
  rw [isSpace, Bool.or_eq_false_iff, Bool.and_eq_false_iff]
  refine ⟨decide_eq_false fun hmem => ?_, Or.inl (decide_eq_false (by omega))⟩
  simp only [List.mem_cons, List.not_mem_nil, or_false] at hmem
  omega

theorem trim_append {blanks : Text} (h : ∀ c ∈ blanks, isSpace c = true) (s : Text) :
    trim (blanks ++ s) = trim s := by
  rw [trim, trim, List.dropWhile_append_of_pos h]

theorem dropWhile_isSpace_eq_self_iff {s : Text} :
    s.dropWhile isSpace = s ↔ ∀ c ∈ s.head?, isSpace c = false := by
  rcases s with _ | ⟨c, s⟩
  · exact iff_of_true rfl nofun
  · rw [List.head?_cons]
    constructor
    · intro h d hd
      cases hd
      by_contra hc
      rw [List.dropWhile_cons_of_pos (by simpa using hc)] at h
      have hle := (List.dropWhile_suffix isSpace (l := s)).length_le
      rw [h, List.length_cons] at hle
      omega
    · intro h
      exact List.dropWhile_cons_of_neg (by rw [h c rfl]; exact Bool.false_ne_true)

/-- **What trimming leaves as it is**: a text without white space at either end. -/
theorem trim_eq_self_iff {s : Text} :
    s.trim = s ↔ (∀ c ∈ s.head?, isSpace c = false) ∧ ∀ c ∈ s.getLast?, isSpace c = false := by
  have hleft : s.trim = s → s.dropWhile isSpace = s := by
    intro h
    refine (List.dropWhile_suffix isSpace).eq_of_length_le ?_
    have hle := (List.dropWhile_suffix isSpace (l := (s.dropWhile isSpace).reverse)).length_le
    have hlength := congrArg List.length h
    rw [trim, List.length_reverse] at hlength
    rw [List.length_reverse] at hle
    omega
  rw [← List.head?_reverse, ← dropWhile_isSpace_eq_self_iff, ← dropWhile_isSpace_eq_self_iff]
  constructor
  · intro h
    have hdrop := hleft h
    rw [trim, hdrop] at h
    refine ⟨hdrop, ?_⟩
    rw [← List.reverse_reverse (List.dropWhile isSpace s.reverse), h]
  · rintro ⟨hfirst, hlast⟩
    rw [trim, hfirst, hlast, List.reverse_reverse]
theorem trim_of_not_space {s : Text} (h : ∀ c ∈ s, isSpace c = false) : s.trim = s :=
  trim_eq_self_iff.mpr ⟨fun c hc => h c (List.mem_of_mem_head? hc),
    fun c hc => h c (List.mem_of_mem_getLast? hc)⟩

/-! ## Splitting and joining -/

theorem split_append_cons {sep : Char} (s t : Text) :
    split sep (s ++ sep :: t) = split sep s ++ split sep t := List.splitOn_append_cons_self s t

theorem split_of_not_mem {sep : Char} {s : Text} (h : sep ∉ s) : split sep s = [s] :=
  List.splitOn_eq_singleton h

/-- What stands before the first separator, and what follows it. -/
theorem append_cons_inj {sep : Char} {s s' t t' : Text} (hs : sep ∉ s) (hs' : sep ∉ s')
    (h : s ++ sep :: t = s' ++ sep :: t') : s = s' ∧ t = t' := by
  have hsplit := congrArg (split sep) h
  rw [split_append_cons, split_append_cons, split_of_not_mem hs, split_of_not_mem hs'] at hsplit
  obtain rfl := (List.cons.inj hsplit).1
  exact ⟨rfl, (List.cons.inj (List.append_cancel_left h)).2⟩

theorem split_ne_nil (sep : Char) (s : Text) : split sep s ≠ [] := List.splitOn_ne_nil sep s

/-- Pieces without the separator can be told from what they are joined to. -/
theorem join_inj {sep : Char} {l l' : List Text} (hl : ∀ s ∈ l, sep ∉ s) (hl' : ∀ s ∈ l', sep ∉ s)
    (hne : l ≠ []) (hne' : l' ≠ []) (h : join sep l = join sep l') : l = l' := by
  have hsplit : split sep (join sep l) = l := List.splitOn_intercalate sep hl hne
  rw [← hsplit, h]
  exact List.splitOn_intercalate sep hl' hne'

theorem join_cons {sep : Char} {s : Text} {l : List Text} (h : l ≠ []) :
    join sep (s :: l) = s ++ sep :: join sep l := by
  rw [join, List.intercalate_cons_of_ne_nil h]
  simp only [join, List.append_assoc, List.singleton_append]

theorem join_eq_nil {sep : Char} {l : List Text} (hl : ∀ s ∈ l, s ≠ []) (h : join sep l = []) :
    l = [] := by
  rcases l with _ | ⟨s, _ | ⟨t, l⟩⟩
  · rfl
  · rw [join, List.intercalate_singleton] at h
    exact absurd h (hl s List.mem_cons_self)
  · rw [join_cons (List.cons_ne_nil _ _)] at h
    simp at h

theorem mem_join {sep c : Char} {s : Text} {l : List Text} (hs : s ∈ l) (hc : c ∈ s) :
    c ∈ join sep l := by
  induction l with
  | nil => cases hs
  | cons t l ih =>
    rcases l with _ | ⟨u, l⟩
    · rw [List.mem_singleton] at hs
      rwa [join, List.intercalate_singleton, ← hs]
    · rw [join_cons (List.cons_ne_nil _ _), List.mem_append, List.mem_cons]
      rcases List.mem_cons.mp hs with rfl | hs
      · exact Or.inl hc
      · exact Or.inr (Or.inr (ih hs))

/-- What a joined text is made of. -/
theorem mem_of_mem_join {sep c : Char} {l : List Text} (h : c ∈ join sep l) :
    c = sep ∨ ∃ s ∈ l, c ∈ s := by
  induction l with
  | nil => cases h
  | cons s l ih =>
    rcases l with _ | ⟨t, l⟩
    · rw [join, List.intercalate_singleton] at h
      exact .inr ⟨s, List.mem_cons_self, h⟩
    · rw [join_cons (List.cons_ne_nil _ _), List.mem_append, List.mem_cons] at h
      rcases h with h | h | h
      · exact .inr ⟨s, List.mem_cons_self, h⟩
      · exact .inl h
      · exact (ih h).imp_right fun ⟨u, hu, hc⟩ => ⟨u, List.mem_cons_of_mem _ hu, hc⟩

theorem join_append_singleton {sep : Char} {l : List Text} (h : l ≠ []) (s : Text) :
    join sep (l ++ [s]) = join sep l ++ sep :: s := by
  induction l with
  | nil => exact absurd rfl h
  | cons t l ih =>
    rcases l with _ | ⟨u, l⟩
    · rw [List.singleton_append, join_cons (List.cons_ne_nil _ _), join, join,
        List.intercalate_singleton, List.intercalate_singleton]
    · rw [List.cons_append, join_cons (List.append_ne_nil_of_left_ne_nil (List.cons_ne_nil _ _) _),
        ih (List.cons_ne_nil _ _), join_cons (List.cons_ne_nil _ _), List.append_assoc,
        List.cons_append]

/-- What comes before the first separator goes with the first piece. -/
theorem split_append {sep : Char} {s : Text} (h : sep ∉ s) {t p : Text} {ps : List Text}
    (ht : split sep t = p :: ps) : split sep (s ++ t) = (s ++ p) :: ps := by
  induction s with
  | nil => exact ht
  | cons c s ih =>
    have hc : c ≠ sep := fun hc => h (hc ▸ List.mem_cons_self)
    rw [List.cons_append, split, List.splitOn_cons_eq_if_modifyHead, if_neg (by simpa using hc),
      ← split, ih fun hmem => h (List.mem_cons_of_mem _ hmem)]
    rfl

theorem join_split (sep : Char) (s : Text) : join sep (split sep s) = s := List.intercalate_splitOn sep

/-- What a check of all characters says. -/
theorem forall_mem_of_all {s : Text} {p : Char → Prop} [DecidablePred p]
    (h : (s.all fun c => decide (p c)) = true) : ∀ c ∈ s, p c := fun c hc =>
  of_decide_eq_true (List.all_eq_true.mp h c hc)

theorem mem_of_mem_split {sep c : Char} {s piece : Text} (hpiece : piece ∈ split sep s)
    (hc : c ∈ piece) : c ∈ s := join_split sep s ▸ mem_join hpiece hc

theorem sep_not_mem_of_mem_split {sep : Char} {s piece : Text} (h : piece ∈ split sep s) :
    sep ∉ piece := by
  induction hlength : s.length using Nat.strong_induction_on generalizing s with
  | _ n ih =>
    by_cases hmem : sep ∈ s
    · obtain ⟨before, after, rfl, hbefore⟩ := List.eq_append_cons_of_mem hmem
      rw [split_append_cons, split_of_not_mem hbefore] at h
      rcases List.mem_cons.mp h with rfl | h
      · exact hbefore
      · refine ih after.length ?_ h rfl
        rw [List.length_append, List.length_cons] at hlength
        omega
    · rw [split_of_not_mem hmem, List.mem_singleton] at h
      exact h ▸ hmem

end Text

inductive UserRole where
  | admin | user
  deriving DecidableEq, Repr

inductive UserStatus where
  | active | disabled
  deriving DecidableEq, Repr

inductive AccessKeyStatus where
  | active | inactive
  deriving DecidableEq, Repr

/-- What a management user may do with one bucket. -/
inductive BucketPermission where
  | read | write | delete | manage
  deriving DecidableEq, Repr

/-- The canned ACLs. -/
inductive BucketAcl where
  | privateAcl | publicRead | publicReadWrite | authenticatedRead
  deriving DecidableEq, Repr

inductive BucketVersioning where
  | disabled | enabled | suspended
  deriving DecidableEq, Repr

inductive StorageClass where
  | standard
  deriving DecidableEq, Repr

/-- How a payload is stored on disk. -/
inductive ServerSideEncryption where
  | none | aes256
  deriving DecidableEq, Repr

inductive MultipartUploadStatus where
  | inProgress | completed | aborted
  deriving DecidableEq, Repr

end SimpleStorage
