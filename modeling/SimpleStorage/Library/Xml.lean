import Mathlib.Data.List.Dedup

/-!
# XML documents and what a parser makes of them

Elements with attributes, with text in them or with other elements; how they are written down;
and the values they are parsed to.  An element with text only becomes that text, any other one
an object with a field for each name among its children.  Children of one name share their
field: one child is its value, several are an array.

What the parser does with white space around a text, and how it names the fields of attributes
and of a text that stands beside attributes, are its options.

* `children_field`: what is found in the field of a name.
-/

namespace SimpleStorage
namespace Xml

/-- An element, with text in it or with other elements. -/
inductive Element where
  | leaf (name : List Char) (attributes : List (List Char × List Char)) (text : List Char)
  | node (name : List Char) (attributes : List (List Char × List Char)) (children : List Element)

def Element.name : Element → List Char
  | leaf name _ _ => name
  | node name _ _ => name

def Element.hasName (name : List Char) (e : Element) : Bool := e.name = name

@[simp] theorem Element.hasName_iff {name : List Char} {e : Element} :
    e.hasName name = true ↔ e.name = name := decide_eq_true_iff

/-! ## Writing -/

/-- The five predefined entities. -/
def escapeChar : Char → List Char
  | '&' => "&amp;".toList
  | '<' => "&lt;".toList
  | '>' => "&gt;".toList
  | '"' => "&quot;".toList
  | '\'' => "&apos;".toList
  | c => [c]

def escape (s : List Char) : List Char := s.flatMap escapeChar

def writeAttribute (a : List Char × List Char) : List Char :=
  ' ' :: a.1 ++ '=' :: '"' :: escape a.2 ++ ['"']

/-- An element with what stands in it. -/
def wrap (name : List Char) (attributes : List (List Char × List Char)) (content : List Char) :
    List Char :=
  '<' :: name ++ attributes.flatMap writeAttribute ++ '>' :: content ++ '<' :: '/' :: name ++ ['>']

mutual

def write : Element → List Char
  | .leaf name attributes text => wrap name attributes (escape text)
  | .node name attributes children => wrap name attributes (writeAll children)

def writeAll : List Element → List Char
  | [] => []
  | e :: rest => write e ++ writeAll rest

end

/-! ## Parsed values -/

inductive Value where
  | text (s : List Char)
  | object (fields : List (List Char × Value))
  | array (items : List Value)

namespace Value

/-- `value[name]`, where only objects have fields. -/
def field (name : List Char) : Value → Option Value
  | object fields => (fields.find? (·.1 = name)).map (·.2)
  | _ => none

/-- The value of a field that several children share. -/
def collapse : List Value → Value
  | [value] => value
  | values => array values

def IsArray : Value → Prop
  | array _ => True
  | _ => False

end Value

/-- A field for each name, with what has that name. -/
def grouped (pairs : List (List Char × Value)) : List (List Char × Value) :=
  (pairs.map (·.1)).dedup.map fun name =>
    (name, Value.collapse ((pairs.filter (·.1 = name)).map (·.2)))

/-- Options of a parser. -/
structure Options where
  /-- What is kept of a text. -/
  text : List Char → List Char
  attributePrefix : List Char
  textName : List Char

variable (o : Options)

def attributeFields (attributes : List (List Char × List Char)) : List (List Char × Value) :=
  attributes.map fun a => (o.attributePrefix ++ a.1, .text a.2)

mutual

/-- What an element is parsed to. -/
def value : Element → Value
  | .leaf _ [] text => .text (o.text text)
  | .leaf _ attributes text =>
      .object (attributeFields o attributes ++
        if o.text text = [] then [] else [(o.textName, .text (o.text text))])
  | .node _ [] [] => .text []
  | .node _ attributes children => .object (attributeFields o attributes ++ grouped (values children))

/-- The children of an element, with their names. -/
def values : List Element → List (List Char × Value)
  | [] => []
  | e :: rest => (e.name, value e) :: values rest

end

@[simp] theorem values_nil : values o [] = [] := by rw [values]

@[simp] theorem values_cons (e : Element) (rest : List Element) :
    values o (e :: rest) = (e.name, value o e) :: values o rest := by rw [values]

theorem values_eq_map (children : List Element) :
    values o children = children.map fun e => (e.name, value o e) := by
  induction children with
  | nil => rw [values_nil, List.map_nil]
  | cons e rest ih => rw [values_cons, ih, List.map_cons]

@[simp] theorem value_leaf (name text : List Char) : value o (.leaf name [] text) = .text (o.text text) := by
  rw [value]

/-- An element with attributes or children is an object, in any case when it has a field. -/
theorem value_node (name : List Char) (attributes : List (List Char × List Char))
    (children : List Element) :
    value o (.node name attributes children) = .text [] ∧ attributes = [] ∧ children = [] ∨
      value o (.node name attributes children) =
        .object (attributeFields o attributes ++ grouped (values o children)) := by
  rcases attributes with _ | ⟨a, attributes⟩
  · rcases children with _ | ⟨e, children⟩
    · exact Or.inl ⟨by rw [value], rfl, rfl⟩
    · exact Or.inr (by rw [value]; nofun)
  · exact Or.inr (by rw [value]; nofun)

/-- An element by itself is no array. -/
theorem not_isArray_value (e : Element) : ¬ (value o e).IsArray := by
  rcases e with ⟨name, _ | ⟨a, attributes⟩, text⟩ | ⟨name, attributes, children⟩
  · rw [value_leaf]
    exact id
  · rw [value]
    · exact id
    · nofun
  · rcases value_node o name attributes children with ⟨h, -⟩ | h <;> rw [h] <;> exact id

variable {o}

theorem find_map_pair {κ : Type*} [DecidableEq κ] {names : List κ} {f : κ → Value} {name : κ} :
    ((names.map fun n => (n, f n)).find? (·.1 = name)).map (·.2) =
      if name ∈ names then some (f name) else none := by
  induction names with
  | nil => rfl
  | cons n names ih =>
    by_cases hn : n = name
    · rw [List.map_cons, List.find?_cons_of_pos (by simpa using hn), hn, if_pos List.mem_cons_self]
      rfl
    · rw [List.map_cons, List.find?_cons_of_neg (by simpa using hn), ih]
      simp only [List.mem_cons, Ne.symm hn, false_or]

/-- **The children of one name share a field**; where there are none, there is none. -/
theorem children_field {name tag : List Char} {attributes : List (List Char × List Char)}
    (hattributes : ∀ a ∈ attributes, o.attributePrefix ++ a.1 ≠ name) (children : List Element) :
    (value o (.node tag attributes children)).field name =
      if children.filter (Element.hasName name) = [] then none
      else some (Value.collapse ((children.filter (Element.hasName name)).map (value o))) := by
  rcases value_node o tag attributes children with ⟨hvalue, rfl, rfl⟩ | hvalue
  · rw [hvalue, List.filter_nil, if_pos rfl]
    rfl
  have hnone : (attributeFields o attributes).find? (·.1 = name) = none := by
    rw [attributeFields, List.find?_eq_none]
    intro field hfield
    obtain ⟨a, ha, rfl⟩ := List.mem_map.mp hfield
    simpa using hattributes a ha
  have hfilter : ((values o children).filter (·.1 = name)).map (·.2) =
      (children.filter (Element.hasName name)).map (value o) := by
    rw [values_eq_map, List.filter_map, List.map_map]
    rfl
  have hmem : name ∈ ((values o children).map (·.1)).dedup ↔ ¬ children.filter (Element.hasName name) = [] := by
    rw [List.mem_dedup, values_eq_map, List.map_map]
    simp only [List.mem_map, Function.comp_apply, List.filter_eq_nil_iff, Element.hasName_iff,
      not_forall, not_not, exists_prop]
  rw [hvalue, Value.field, List.find?_append, hnone, Option.none_or, grouped, find_map_pair, hfilter]
  by_cases hname : children.filter (Element.hasName name) = []
  · rw [if_pos hname, if_neg (mt hmem.mp (not_not.mpr hname))]
  · rw [if_neg hname, if_pos (hmem.mpr hname)]

end Xml
end SimpleStorage
