import SimpleStorage.S3.RequestBodies

/-!
# Configuration documents

The documents a `GetBucketVersioning` and a `GetBucketCors` answer with, and what the readers of
the service make of them, as of any document.

* `Tidy`: what the parser makes of a document has no text with white space at its ends.
* `parseCorsConfiguration_build`: the rules come out as they went in, but for such white space
  and for an age that is no number.
* `plain_of_parsed`: rules that were read from a document have no such white space.
* `parseVersioningConfiguration_build`: a bucket that never had versioning has no status to read.
-/

namespace SimpleStorage

theorem Text.trim_trim (s : Text) : s.trim.trim = s.trim := by
  have hlast : ∀ c ∈ s.trim.getLast?, isSpace c = false := by
    rw [trim, List.getLast?_reverse]
    intro c hc
    have h := List.head?_dropWhile_not isSpace (s.dropWhile isSpace).reverse
    rw [hc] at h
    exact h
  -- Nothing more is taken away in front.
  have hfirst : ∀ c ∈ s.trim.head?, isSpace c = false := by
    have hprefix : s.trim <+: s.dropWhile isSpace := by
      rw [trim, ← List.reverse_suffix, List.reverse_reverse]
      exact List.dropWhile_suffix _
    obtain ⟨rest, hrest⟩ := hprefix
    intro c hc
    have h := List.head?_dropWhile_not isSpace s
    rw [← hrest, List.head?_append, hc] at h
    exact h
  exact trim_eq_self_iff.mpr ⟨hfirst, hlast⟩

namespace S3XmlService

open Xml S3Types

/-! ## Parsed documents are tidy -/

/-- No text, but for those of attributes, has white space at its ends. -/
inductive Tidy : Value → Prop where
  | text {s : Text} (h : s.trim = s) : Tidy (.text s)
  | object {fields : List (Text × Value)} (h : ∀ f ∈ fields, f.1.head? ≠ some '@' → Tidy f.2) :
      Tidy (.object fields)
  | array {items : List Value} (h : ∀ item ∈ items, Tidy item) : Tidy (.array items)

theorem tidy_collapse {vs : List Value} (h : ∀ v ∈ vs, Tidy v) : Tidy (Value.collapse vs) := by
  rcases vs with _ | ⟨v, _ | ⟨v', vs⟩⟩
  · exact .array h
  · exact h v List.mem_cons_self
  · exact .array h

theorem tidy_grouped {pairs : List (Text × Value)} (h : ∀ p ∈ pairs, Tidy p.2) :
    ∀ f ∈ grouped pairs, Tidy f.2 := by
  intro f hf
  obtain ⟨name, -, rfl⟩ := List.mem_map.mp hf
  refine tidy_collapse fun v hv => ?_
  obtain ⟨p, hp, rfl⟩ := List.mem_map.mp hv
  exact h p (List.mem_of_mem_filter hp)

theorem tidy_attributes (attributes : List (Text × Text)) :
    ∀ f ∈ attributeFields parserOptions attributes, f.1.head? = some '@' := by
  intro f hf
  obtain ⟨a, -, rfl⟩ := List.mem_map.mp hf
  rfl

mutual

/-- **What the parser makes of a document is tidy.** -/
theorem tidy_value : ∀ e : Element, Tidy (value parserOptions e)
  | .leaf name [] s => by
      rw [value_leaf]
      exact .text (Text.trim_trim s)
  | .leaf name (a :: attributes) s => by
      rw [value]
      · refine .object fun f hf hname => ?_
        rcases List.mem_append.mp hf with hf | hf
        · exact absurd (tidy_attributes _ f hf) hname
        · split_ifs at hf
          · cases hf
          · rw [List.mem_singleton.mp hf]
            exact .text (Text.trim_trim s)
      · simp
  | .node name attributes children => by
      rcases value_node parserOptions name attributes children with ⟨h, -, -⟩ | h
      · rw [h]
        exact .text rfl
      · rw [h]
        refine .object fun f hf hname => ?_
        rcases List.mem_append.mp hf with hf | hf
        · exact absurd (tidy_attributes _ f hf) hname
        · exact tidy_grouped (tidy_values children) f hf

theorem tidy_values : ∀ (children : List Element), ∀ p ∈ values parserOptions children, Tidy p.2
  | [] => by simp
  | e :: rest => by
      intro p hp
      rw [values_cons, List.mem_cons] at hp
      rcases hp with rfl | hp
      · exact tidy_value e
      · exact tidy_values rest p hp

end

theorem Tidy.field {v x : Value} (hv : Tidy v) {name : Text} (hname : name.head? ≠ some '@')
    (hx : v.field name = some x) : Tidy x := by
  cases hv with
  | object h =>
    obtain ⟨f, hf, rfl⟩ := Option.map_eq_some_iff.mp hx
    have hsame := List.find?_some hf
    rw [decide_eq_true_iff] at hsame
    exact h f (List.mem_of_find?_eq_some hf) (hsame ▸ hname)
  | text => cases hx
  | array => cases hx

theorem Tidy.toArray {x : Option Value} (h : ∀ v ∈ x, Tidy v) : ∀ v ∈ toArray x, Tidy v := by
  intro v hv
  cases x with
  | none => cases hv
  | some y =>
    have hy := h y rfl
    cases hy with
    | array hitems => exact hitems v hv
    | text hs =>
      rw [List.mem_singleton.mp hv]
      exact .text hs
    | object hfields =>
      rw [List.mem_singleton.mp hv]
      exact .object hfields

theorem Tidy.textOf {v : Value} (hv : Tidy v) : (textOf v).trim = textOf v := by
  induction hv with
  | text h => exact h
  | @object fields h ih =>
    rw [S3XmlService.textOf]
    induction fields with
    | nil => rfl
    | cons f rest ihrest =>
      obtain ⟨name, v⟩ := f
      rw [textOfFields]
      split_ifs with hname
      · exact ih (name, v) List.mem_cons_self (by simp [hname])
      · exact ihrest (fun f hf => h f (List.mem_cons_of_mem _ hf)) fun f hf => ih f (List.mem_cons_of_mem _ hf)
  | @array items h ih =>
    rw [S3XmlService.textOf]
    cases items with
    | nil => rfl
    | cons v rest => exact ih v List.mem_cons_self

/-- The root of a document that has children, or attributes. -/
theorem parseRoot_write {parse : Text → Value} {name : Text} {attributes : List (Text × Text)}
    {children : List Element} (hparse : Parses parse (.node name attributes children))
    (hne : attributes ≠ []) :
    parseRoot parse (write (.node name attributes children)) name =
      .ok (value parserOptions (.node name attributes children)) := by
  have hfield : (parse (write (.node name attributes children))).field name =
      some (value parserOptions (.node name attributes children)) := by
    rw [hparse, Value.field, List.find?_cons_of_pos (by simp [Element.name])]
    rfl
  rw [parseRoot, hfield]
  rcases value_node parserOptions name attributes children with ⟨-, hnil, -⟩ | hvalue
  · exact absurd hnil hne
  · rw [hvalue]

theorem tidy_parseRoot {parse : Text → Value} {document : Element} (hparse : Parses parse document)
    {name : Text} {root : Value} (hroot : parseRoot parse (write document) name = .ok root) : Tidy root := by
  rw [parseRoot, hparse, Value.field] at hroot
  by_cases hname : document.name = name
  · rw [List.find?_cons_of_pos (by simp [hname]), Option.map_some] at hroot
    dsimp only at hroot
    split at hroot
    · cases hroot
    · cases hroot
    · cases hroot
      rename_i hvalue
      exact Option.some.inj hvalue ▸ tidy_value document
  · rw [List.find?_cons_of_neg (by simp [hname]), List.find?_nil] at hroot
    cases hroot

end S3XmlService

namespace S3ResponseService

open Xml S3XmlService

/-! ## Versioning and ACL -/

/-- The status of a bucket that ever had versioning. -/
def statusOf : BucketVersioning → Option Text
  | .disabled => none
  | .enabled => some "Enabled".toList
  | .suspended => some "Suspended".toList

/-- An unversioned bucket answers with an empty configuration, as S3 does. -/
def bucketVersioning (versioning : BucketVersioning) : Element :=
  .node "VersioningConfiguration".toList [("xmlns".toList, s3Namespace)]
    ((statusOf versioning).map (.leaf "Status".toList [])).toList

end S3ResponseService

namespace S3XmlService

open Xml S3Types S3ResponseService

/-- What is read in the document. -/
def statusRead : BucketVersioning → Except XmlFault S3BucketController.VersioningStatus
  | .disabled => .error .malformedXml
  | .enabled => .ok .enabled
  | .suspended => .ok .suspended

/-- **Only a bucket that never had versioning** has a document that cannot be put. -/
theorem parseVersioningConfiguration_build {parse : Text → Value} {versioning : BucketVersioning}
    (hparse : Parses parse (bucketVersioning versioning)) :
    parseVersioningConfiguration parse (write (bucketVersioning versioning)) = statusRead versioning := by
  have htext : text ((value parserOptions (bucketVersioning versioning)).field "Status".toList) =
      (statusOf versioning).getD [] := by
    cases versioning with
    | disabled =>
      rw [bucketVersioning, field_no_child (by decide) _ rfl]
      rfl
    | enabled =>
      rw [bucketVersioning, field_child (by decide) _ rfl, text_leaf]
      decide
    | suspended =>
      rw [bucketVersioning, field_child (by decide) _ rfl, text_leaf]
      decide
  rw [parseVersioningConfiguration, bucketVersioning, parseRoot_write hparse (by simp), ← bucketVersioning]
  show (if text ((value parserOptions (bucketVersioning versioning)).field "Status".toList) =
      "Enabled".toList then Except.ok S3BucketController.VersioningStatus.enabled
    else if text ((value parserOptions (bucketVersioning versioning)).field "Status".toList) =
      "Suspended".toList then Except.ok .suspended
    else Except.error XmlFault.malformedXml) = _
  rw [htext]
  cases versioning <;> rfl

theorem parseAccessControlPolicy_build {toUpperCase : Text → Text} {parse : Text → Value} {acl : BucketAcl}
    {ownerId : Text} (hupper : ∀ permission : GrantPermission, toUpperCase permission.name = permission.name)
    (hparse : Parses parse (buildAccessControlPolicy acl ownerId)) :
    parseAccessControlPolicy toUpperCase parse (write (buildAccessControlPolicy acl ownerId)) = .ok acl := by
  rw [buildAccessControlPolicy, parseAccessControlPolicy_eq hupper hparse]
  cases acl <;> simp [cannedGrants, Grant.Refused, GroupAccess.accept, GroupAccess.acl]

/-! ## Rules for other origins -/

variable (numberText : ℚ → Text)

/-- The leaves of one name. -/
def leaves (name : String) (texts : List Text) : List Element := texts.map (.leaf name.toList [])

/-- A rule is written with its numbers as `String(n)` has them, and `null` as an empty element. -/
def corsRuleElement (rule : CorsRule) : Element :=
  .node "CORSRule".toList []
    (leaves "ID" rule.id.toList ++ leaves "AllowedOrigin" rule.allowedOrigins ++
      leaves "AllowedMethod" rule.allowedMethods ++ leaves "AllowedHeader" rule.allowedHeaders ++
      leaves "ExposeHeader" rule.exposeHeaders ++
      leaves "MaxAgeSeconds" (rule.maxAgeSeconds.map fun n => n.elim [] numberText).toList)

/-- The XML body of a `CORSConfiguration`, as `GetBucketCors` returns it. -/
def buildCorsConfiguration (configuration : CorsConfiguration) : Element :=
  .node "CORSConfiguration".toList [("xmlns".toList, s3Namespace)]
    (configuration.rules.map (corsRuleElement numberText))

/-- What is left of a rule that is written and read. -/
def reread (rule : CorsRule) : CorsRule where
  id := rule.id.map Text.trim
  allowedOrigins := rule.allowedOrigins.map Text.trim
  allowedMethods := rule.allowedMethods.map Text.trim
  allowedHeaders := rule.allowedHeaders.map Text.trim
  exposeHeaders := rule.exposeHeaders.map Text.trim
  maxAgeSeconds := rule.maxAgeSeconds.map fun n => Text.number (n.elim [] numberText)

theorem number_trim (s : Text) : Text.number s.trim = Text.number s := by
  rw [Text.number, Text.number, Text.trim_trim]

/-- The leaves among which a name is looked for. -/
theorem filter_leaves (name tag : String) (texts : List Text) :
    (leaves name texts).filter (Element.hasName tag.toList) =
      if name = tag then leaves name texts else [] := by
  rw [leaves, List.filter_map]
  split_ifs with h
  · rw [List.filter_eq_self.mpr]
    simp [Element.name, h]
  · have hne : name.toList ≠ tag.toList := fun heq => h (String.toList_inj.mp heq)
    rw [List.filter_eq_nil_iff.mpr, List.map_nil]
    simp [Element.name, hne]

/-- What is read in the only leaf of a name, or in none. -/
theorem field_leaf {α : Type} {tag : String} (htag : tag.toList.head? ≠ some '@') {name : Text}
    {children : List Element} {content : Option Text} (read : Text → α)
    (h : children.filter (Element.hasName tag.toList) = leaves tag content.toList) :
    ((value parserOptions (.node name [] children)).field tag.toList).map (fun v => read (text (some v))) =
      content.map fun s => read s.trim := by
  cases content with
  | none =>
    rw [field_no_child htag [] h]
    rfl
  | some s =>
    rw [field_child htag [] (e := .leaf tag.toList [] s) h, Option.map_some, text_leaf]
    rfl

/-- The texts that are read in the leaves of one name. -/
theorem texts_field {tag : String} (htag : tag.toList.head? ≠ some '@') {name : Text}
    {children : List Element} {texts : List Text}
    (h : children.filter (Element.hasName tag.toList) = leaves tag texts) :
    (toArray ((value parserOptions (.node name [] children)).field tag.toList)).map
      (fun v => text (some v)) = texts.map Text.trim := by
  rw [toArray_children htag, h, leaves, List.map_map, List.map_map]
  exact List.map_congr_left fun s _ => text_leaf tag.toList s

/-- **The rules come out as they went in**, but for white space and an age that is no number. -/
theorem parseCorsConfiguration_build {parse : Text → Value} {configuration : CorsConfiguration}
    (hparse : Parses parse (buildCorsConfiguration numberText configuration)) :
    parseCorsConfiguration parse (write (buildCorsConfiguration numberText configuration)) =
      .ok ⟨configuration.rules.map (reread numberText)⟩ := by
  have hrules : (configuration.rules.map (corsRuleElement numberText)).filter (Element.hasName "CORSRule".toList) =
      configuration.rules.map (corsRuleElement numberText) := by
    rw [List.filter_eq_self]
    intro e he
    obtain ⟨rule, -, rfl⟩ := List.mem_map.mp he
    rfl
  rw [parseCorsConfiguration, buildCorsConfiguration, parseRoot_write hparse (by simp)]
  show Except.ok _ = _
  rw [toArray_children (by decide), hrules, List.map_map, List.map_map]
  congr 2
  refine List.map_congr_left fun rule _ => ?_
  rw [Function.comp_apply, Function.comp_apply, reread, CorsRule.mk.injEq, corsRuleElement]
  have hage : (rule.maxAgeSeconds.map fun n => n.elim [] numberText).map (fun s => Text.number (Text.trim s)) =
      rule.maxAgeSeconds.map fun n => Text.number (n.elim [] numberText) := by
    rw [Option.map_map]
    exact congrArg (fun f => rule.maxAgeSeconds.map f) (funext fun n => number_trim _)
  rw [← hage]
  refine ⟨field_leaf (by decide) id ?_, texts_field (by decide) ?_, texts_field (by decide) ?_,
    texts_field (by decide) ?_, texts_field (by decide) ?_,
    @field_leaf _ "MaxAgeSeconds" (by decide) _ _ _ Text.number ?_⟩
  all_goals
    simp only [List.filter_append, filter_leaves, String.reduceEq, ↓reduceIte, List.nil_append, List.append_nil]

/-! ## What is stored can be given back -/

/-- What is read from a document: its texts have no white space at their ends. -/
structure Plain (rule : CorsRule) : Prop where
  id : ∀ s ∈ rule.id, Text.trim s = s
  allowedOrigins : ∀ s ∈ rule.allowedOrigins, Text.trim s = s
  allowedMethods : ∀ s ∈ rule.allowedMethods, Text.trim s = s
  allowedHeaders : ∀ s ∈ rule.allowedHeaders, Text.trim s = s
  exposeHeaders : ∀ s ∈ rule.exposeHeaders, Text.trim s = s

/-- **Rules that were read from a document** are plain. -/
theorem plain_of_parsed {parse : Text → Value} {document : Element} (hparse : Parses parse document)
    {configuration : CorsConfiguration}
    (h : parseCorsConfiguration parse (write document) = .ok configuration) :
    ∀ rule ∈ configuration.rules, Plain rule := by
  rw [parseCorsConfiguration] at h
  cases hroot : parseRoot parse (write document) "CORSConfiguration".toList with
  | error e =>
    rw [hroot] at h
    cases h
  | ok root =>
    rw [hroot] at h
    cases h
    have htidy := tidy_parseRoot hparse hroot
    intro rule hrule
    obtain ⟨v, hv, rfl⟩ := List.mem_map.mp hrule
    have hrules := Tidy.toArray (fun x hx => htidy.field (by decide) hx) v hv
    have htexts : ∀ name : String, name.toList.head? ≠ some '@' →
        ∀ s ∈ (toArray (v.field name.toList)).map (fun value => text (some value)), Text.trim s = s := by
      intro name hname s hs
      obtain ⟨x, hx, rfl⟩ := List.mem_map.mp hs
      have hx' := Tidy.toArray (fun y hy => hrules.field hname hy) x hx
      exact hx'.textOf
    refine ⟨fun s hs => ?_, htexts _ (by decide), htexts _ (by decide), htexts _ (by decide),
      htexts _ (by decide)⟩
    obtain ⟨x, hx, rfl⟩ := Option.map_eq_some_iff.mp hs
    exact (hrules.field (by decide) hx).textOf

/-- **When a rule is given back as it is**: unless its age is no number, which is read as zero. -/
theorem reread_eq_iff {rule : CorsRule} (h : Plain rule)
    (hnumber : ∀ q, rule.maxAgeSeconds = some (some q) → Text.number (numberText q) = some q) :
    reread numberText rule = rule ↔ rule.maxAgeSeconds ≠ some none := by
  obtain ⟨id, allowedOrigins, allowedMethods, allowedHeaders, exposeHeaders, maxAgeSeconds⟩ := rule
  have htexts : ∀ texts : List Text, (∀ s ∈ texts, Text.trim s = s) → texts.map Text.trim = texts :=
    fun texts htexts => (List.map_congr_left htexts).trans (List.map_id texts)
  have hid : id.map Text.trim = id := by
    cases id with
    | none => rfl
    | some s => exact congrArg some (h.id s rfl)
  rw [reread, CorsRule.mk.injEq]
  simp only [hid, htexts _ h.allowedOrigins, htexts _ h.allowedMethods, htexts _ h.allowedHeaders,
    htexts _ h.exposeHeaders, true_and]
  cases maxAgeSeconds with
  | none => simp
  | some n =>
    cases n with
    | none =>
      have hzero : Text.number [] = some 0 := rfl
      simp [hzero]
    | some q => simp [hnumber q rfl]

end S3XmlService
end SimpleStorage
