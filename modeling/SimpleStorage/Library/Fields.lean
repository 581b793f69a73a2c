import Mathlib.Data.List.Nodup

/-!
# Objects as lists of their fields

An object of a scripting language: fields with names, no two of the same name, in the order
they came.  Two objects can be put together, the later one having the last word, and a field
can be overwritten where there is one.

What an object is made of is its names, in their order, and what each of them looks up
(`ext`), so that each operation is described by these two.
-/

namespace Fields

variable {K V : Type*}

def names (fields : List (K × V)) : List K := fields.map (·.1)

theorem names_cons (f : K × V) (fields : List (K × V)) : names (f :: fields) = f.1 :: names fields :=
  rfl

variable [DecidableEq K]

/-- `fields[name]`. -/
def lookup (fields : List (K × V)) (name : K) : Option V :=
  (fields.find? (·.1 = name)).map (·.2)

/-- `{ ...target, ...source }`: a field of both keeps its place and takes the later value. -/
def spread (target source : List (K × V)) : List (K × V) :=
  target.map (fun f => (f.1, (lookup source f.1).getD f.2)) ++
    source.filter fun f => f.1 ∉ names target

/-- `if (name in fields) fields[name] = value`. -/
def overwrite (name : K) (value : V) (fields : List (K × V)) : List (K × V) :=
  fields.map fun f => (f.1, if f.1 = name then value else f.2)

/-! ## Names -/

@[simp] theorem names_overwrite (name : K) (value : V) (fields : List (K × V)) :
    names (overwrite name value fields) = names fields := by
  unfold names overwrite
  rw [List.map_map]
  rfl

theorem names_spread (target source : List (K × V)) :
    names (spread target source) = names target ++ (names source).filter (· ∉ names target) := by
  unfold spread
  rw [names, List.map_append, List.map_map, names, names, List.filter_map]
  rfl

theorem nodup_spread {target source : List (K × V)} (ht : (names target).Nodup)
    (hs : (names source).Nodup) : (names (spread target source)).Nodup := by
  rw [names_spread]
  refine ht.append (hs.filter _) fun name hname hfilter => ?_
  have := (List.mem_filter.mp hfilter).2
  exact of_decide_eq_true this hname

/-! ## Looking up -/

@[simp] theorem lookup_nil (name : K) : lookup ([] : List (K × V)) name = none := rfl

theorem lookup_cons (f : K × V) (fields : List (K × V)) (name : K) :
    lookup (f :: fields) name = if f.1 = name then some f.2 else lookup fields name := by
  unfold lookup
  rw [List.find?_cons]
  by_cases h : f.1 = name <;> simp [h]

theorem lookup_append (fields fields' : List (K × V)) (name : K) :
    lookup (fields ++ fields') name = (lookup fields name).or (lookup fields' name) := by
  unfold lookup
  rw [List.find?_append]
  cases fields.find? (·.1 = name) <;> rfl

theorem lookup_eq_none {fields : List (K × V)} {name : K} :
    lookup fields name = none ↔ name ∉ names fields := by
  unfold lookup names
  rw [Option.map_eq_none_iff, List.find?_eq_none, List.mem_map, not_exists]
  exact forall_congr' fun f => by rw [not_and, decide_eq_true_eq]

/-- Objects with the same names have a field or lack it together. -/
theorem lookup_eq_none_congr {fields fields' : List (K × V)} (h : names fields = names fields')
    (name : K) : lookup fields name = none ↔ lookup fields' name = none := by
  rw [lookup_eq_none, lookup_eq_none, h]

/-- Changing values by name. -/
theorem lookup_map (g : K → V → V) (fields : List (K × V)) (name : K) :
    lookup (fields.map fun f => (f.1, g f.1 f.2)) name = (lookup fields name).map (g name) := by
  induction fields with
  | nil => rfl
  | cons f fields ih =>
    rw [List.map_cons, lookup_cons, lookup_cons]
    by_cases h : f.1 = name
    · rw [if_pos h, if_pos h, h]
      rfl
    · rw [if_neg h, if_neg h, ih]

theorem lookup_filter {p : K → Bool} {name : K} (hp : p name = true) (fields : List (K × V)) :
    lookup (fields.filter fun f => p f.1) name = lookup fields name := by
  induction fields with
  | nil => rfl
  | cons f fields ih =>
    rw [List.filter_cons]
    by_cases hf : p f.1 = true
    · rw [if_pos hf, lookup_cons, lookup_cons, ih]
    · have hne : f.1 ≠ name := by
        rintro rfl
        exact hf hp
      rw [if_neg hf, lookup_cons, if_neg hne, ih]

/-- The later of two objects has the last word. -/
theorem lookup_spread (target source : List (K × V)) (name : K) :
    lookup (spread target source) name = (lookup source name).or (lookup target name) := by
  unfold spread
  rw [lookup_append, lookup_map fun name value => (lookup source name).getD value]
  by_cases h : name ∈ names target
  · obtain ⟨value, hvalue⟩ := Option.ne_none_iff_exists'.mp fun hnone => lookup_eq_none.mp hnone h
    rw [hvalue]
    cases lookup source name <;> rfl
  · rw [lookup_eq_none.mpr h, lookup_filter (p := fun n => n ∉ names target) (decide_eq_true h)]
    cases lookup source name <;> rfl

theorem lookup_overwrite (name : K) (value : V) (fields : List (K × V)) (other : K) :
    lookup (overwrite name value fields) other =
      if other = name then (lookup fields other).map fun _ => value else lookup fields other := by
  unfold overwrite
  rw [lookup_map fun n v => if n = name then value else v]
  by_cases h : other = name
  · simp only [if_pos h]
  · simp only [if_neg h, Option.map_id']

/-- An object is its names and what they look up. -/
theorem ext {fields fields' : List (K × V)} (hnodup : (names fields).Nodup)
    (hnames : names fields = names fields') (h : ∀ name, lookup fields name = lookup fields' name) :
    fields = fields' := by
  induction fields generalizing fields' with
  | nil => exact (List.map_eq_nil_iff.mp hnames.symm).symm
  | cons f fields ih =>
    obtain _ | ⟨f', fields'⟩ := fields'
    · cases hnames
    rw [names_cons, names_cons] at hnames
    obtain ⟨hname, hrest⟩ := List.cons.inj hnames
    rw [names_cons, List.nodup_cons] at hnodup
    have hvalue := h f.1
    rw [lookup_cons, lookup_cons, if_pos rfl, if_pos hname.symm] at hvalue
    refine congrArg₂ _ (Prod.ext hname (Option.some.inj hvalue)) (ih hnodup.2 hrest fun name => ?_)
    by_cases heq : f.1 = name
    · -- No other field has the name of the first.
      rw [← heq, lookup_eq_none.mpr hnodup.1, lookup_eq_none.mpr (hrest ▸ hnodup.1)]
    · have hlater := h name
      rwa [lookup_cons, lookup_cons, if_neg heq, if_neg (hname ▸ heq)] at hlater

end Fields
