import SimpleStorage.Library.Xml
import SimpleStorage.Objects.ObjectsService

/-!
# Request bodies

The documents a client sends with a `DeleteObjects` and with a `PutBucketAcl`, and what the service
reads in them.  The parser is a parameter: of each document it is only known what it makes of that
one.

* `parseDelete_lists_iff`: the entries come out as they went in, except for white space at the ends
  of a key or a version id.
* `parseAccessControlPolicy_exact_iff`: which grant lists are refused or stored as they are.
-/

namespace SimpleStorage

namespace S3Types

structure DeleteRequest where
  quiet : Bool
  objects : List ObjectsTypes.DeleteEntry
  deriving DecidableEq, Repr

/-- A document the service cannot act on. -/
inductive XmlFault where
  | malformedXml
  deriving DecidableEq, Repr

end S3Types

namespace S3XmlService

open ObjectsTypes S3Types Xml

/-- `{ parseTagValue: false, trimValues: true }`: every leaf is a string, without white space at
its ends. -/
def parserOptions : Options where
  text := Text.trim
  attributePrefix := "@_".toList
  textName := "#text".toList

/-- The parser reads a document as its options say. -/
def Parses (parse : Text → Value) (document : Element) : Prop :=
  parse (write document) = .object [(document.name, value parserOptions document)]

/-! ## Parsed documents -/

mutual

def textOf : Value → Text
  | .text s => s
  | .object fields => textOfFields fields
  | .array items => textOfHead items

def textOfFields : List (Text × Value) → Text
  | [] => []
  | (name, value) :: rest => if name = "#text".toList then textOf value else textOfFields rest

def textOfHead : List Value → Text
  | [] => []
  | value :: _ => textOf value

end

/-- Leaf text of an element, which an empty element or a missing one reduces to `''`. -/
def text (value : Option Value) : Text := value.elim [] textOf

/-- A single repeated element is collapsed into a scalar. -/
def toArray : Option Value → List Value
  | none => []
  | some (.array items) => items
  | some value => [value]

variable (parse : Text → Value)

def parseRoot (xml rootName : Text) : Except XmlFault Value :=
  match (parse xml).field rootName with
  | none | some (.text _) => .error .malformedXml
  | some root => .ok root

/-- `<Delete><Object><Key/><VersionId/></Object>...<Quiet/></Delete>` -/
def parseDelete (xml : Text) : Except XmlFault DeleteRequest := do
  let document ← parseRoot parse xml "Delete".toList
  return {
    quiet := text (document.field "Quiet".toList) = "true".toList
    objects := (toArray (document.field "Object".toList)).map fun entry => {
      key := text (entry.field "Key".toList)
      versionId := (entry.field "VersionId".toList).map fun value => text (some value) } }

/-! ## Elements and their children -/

@[simp] theorem text_leaf (name s : Text) : text (some (value parserOptions (.leaf name [] s))) = s.trim := by
  rw [value_leaf, text, Option.elim_some, textOf]
  rfl

/-- A tag is not the name of an attribute. -/
theorem attribute_ne {tag : Text} (htag : tag.head? ≠ some '@') (attributes : List (Text × Text)) :
    ∀ a ∈ attributes, parserOptions.attributePrefix ++ a.1 ≠ tag := by
  rintro a - rfl
  exact htag rfl

/-- **An array of the children of one name.** -/
theorem toArray_children {tag name : Text} (htag : tag.head? ≠ some '@')
    (attributes : List (Text × Text)) (children : List Element) :
    toArray ((value parserOptions (.node name attributes children)).field tag) =
      (children.filter (Element.hasName tag)).map (value parserOptions) := by
  rw [children_field (attribute_ne htag attributes)]
  rcases children.filter (Element.hasName tag) with _ | ⟨e, _ | ⟨e', rest⟩⟩
  · rfl
  · rw [if_neg (List.cons_ne_nil _ _)]
    have harray := not_isArray_value parserOptions e
    show toArray (some (value parserOptions e)) = [value parserOptions e]
    cases hvalue : value parserOptions e with
    | text | object => rfl
    | array =>
      rw [hvalue] at harray
      exact absurd trivial harray
  · rw [if_neg (List.cons_ne_nil _ _)]
    rfl

/-- The only child of a name. -/
theorem field_child {tag name : Text} (htag : tag.head? ≠ some '@') (attributes : List (Text × Text))
    {children : List Element} {e : Element} (h : children.filter (Element.hasName tag) = [e]) :
    (value parserOptions (.node name attributes children)).field tag =
      some (value parserOptions e) := by
  rw [children_field (attribute_ne htag attributes), h, if_neg (List.cons_ne_nil _ _)]
  rfl

theorem field_no_child {tag name : Text} (htag : tag.head? ≠ some '@') (attributes : List (Text × Text))
    {children : List Element} (h : children.filter (Element.hasName tag) = []) :
    (value parserOptions (.node name attributes children)).field tag = none := by
  rw [children_field (attribute_ne htag attributes), h, if_pos rfl]

variable {parse}

/-- The root of a document that has children. -/
theorem parseRoot_eq {name : Text} {attributes : List (Text × Text)} {children : List Element}
    (hparse : Parses parse (.node name attributes children)) (hne : children ≠ []) :
    parseRoot parse (write (.node name attributes children)) name =
      .ok (value parserOptions (.node name attributes children)) := by
  have hfield : (parse (write (.node name attributes children))).field name =
      some (value parserOptions (.node name attributes children)) := by
    rw [hparse, Value.field, List.find?_cons_of_pos (by simp [Element.name])]
    rfl
  rw [parseRoot, hfield]
  rcases value_node parserOptions name attributes children with ⟨-, -, hnil⟩ | hvalue
  · exact absurd hnil hne
  · rw [hvalue]

/-! ## Deleting a list of objects -/

def objectElement (entry : DeleteEntry) : Element :=
  .node "Object".toList [] (.leaf "Key".toList [] entry.key ::
    (entry.versionId.map fun versionId => .leaf "VersionId".toList [] versionId).toList)

/-- The document that lists some entries. -/
def deleteDocument (attributes : List (Text × Text)) (quiet : Bool) (objects : List DeleteEntry) :
    Element :=
  .node "Delete".toList attributes
    (.leaf "Quiet".toList [] (if quiet then "true" else "false").toList :: objects.map objectElement)

/-- What is left of an entry. -/
def trimmed (entry : DeleteEntry) : DeleteEntry := ⟨entry.key.trim, entry.versionId.map Text.trim⟩

theorem entry_objectElement (entry : DeleteEntry) :
    (⟨text ((value parserOptions (objectElement entry)).field "Key".toList),
      ((value parserOptions (objectElement entry)).field "VersionId".toList).map
        fun value => text (some value)⟩ : DeleteEntry) = trimmed entry := by
  obtain ⟨key, versionId⟩ := entry
  rw [objectElement, field_child (by decide) [] (e := .leaf "Key".toList [] key), text_leaf]
  · cases versionId with
    | none =>
      rw [field_no_child (by decide) [] rfl]
      rfl
    | some v =>
      rw [field_child (by decide) [] (e := .leaf "VersionId".toList [] v) rfl, Option.map_some, text_leaf]
      rfl
  · cases versionId <;> rfl

/-- **What the service reads in the document.** -/
theorem parseDelete_eq {attributes : List (Text × Text)} {quiet : Bool} {objects : List DeleteEntry}
    (hparse : Parses parse (deleteDocument attributes quiet objects)) :
    parseDelete parse (write (deleteDocument attributes quiet objects)) =
      .ok ⟨quiet, objects.map trimmed⟩ := by
  have hquiet : (.leaf "Quiet".toList [] (if quiet then "true" else "false").toList ::
      objects.map objectElement : List Element).filter (Element.hasName "Quiet".toList) =
      [.leaf "Quiet".toList [] (if quiet then "true" else "false").toList] := by
    rw [List.filter_cons_of_pos (by rfl), List.filter_map, List.filter_eq_nil_iff.mpr, List.map_nil]
    intro entry _
    simp [objectElement, Element.name]
  have hobjects : (.leaf "Quiet".toList [] (if quiet then "true" else "false").toList ::
      objects.map objectElement : List Element).filter (Element.hasName "Object".toList) =
      objects.map objectElement := by
    rw [List.filter_cons_of_neg (by simp [Element.name]), List.filter_eq_self]
    intro e he
    obtain ⟨entry, -, rfl⟩ := List.mem_map.mp he
    rfl
  rw [parseDelete, deleteDocument, parseRoot_eq hparse (List.cons_ne_nil _ _)]
  show Except.ok _ = _
  rw [field_child (by decide) attributes hquiet, toArray_children (by decide) attributes, hobjects,
    text_leaf, List.map_map, List.map_map]
  congr 2
  · cases quiet <;> decide
  · exact List.map_congr_left fun entry _ => entry_objectElement entry

/-- No white space at either end. -/
def Unpadded (s : Text) : Prop :=
  (∀ c ∈ s.head?, Text.isSpace c = false) ∧ ∀ c ∈ s.getLast?, Text.isSpace c = false

theorem trimmed_eq_self_iff {entry : DeleteEntry} :
    trimmed entry = entry ↔ Unpadded entry.key ∧ ∀ versionId ∈ entry.versionId, Unpadded versionId := by
  obtain ⟨key, versionId⟩ := entry
  rw [trimmed, DeleteEntry.mk.injEq, Text.trim_eq_self_iff]
  refine and_congr_right fun _ => ?_
  cases versionId with
  | none => simp
  | some v => simp [Text.trim_eq_self_iff, Unpadded]

/-- **When a body deletes the keys it lists**: when none of them, and none of the version ids, has
white space at an end. -/
theorem parseDelete_lists_iff (parse : Text → Value) (attributes : List (Text × Text)) (quiet : Bool)
    (objects : List DeleteEntry) (hparse : Parses parse (deleteDocument attributes quiet objects)) :
    parseDelete parse (write (deleteDocument attributes quiet objects)) = .ok ⟨quiet, objects⟩ ↔
      ∀ entry ∈ objects, Unpadded entry.key ∧ ∀ versionId ∈ entry.versionId, Unpadded versionId := by
  rw [parseDelete_eq hparse, Except.ok.injEq, DeleteRequest.mk.injEq]
  simp only [true_and, ← trimmed_eq_self_iff]
  rw [← List.map_inj_left, List.map_id']

/-- What the parser makes of one document, whatever it is given. -/
def reading (document : Element) : Text → Value := fun _ =>
  .object [(document.name, value parserOptions document)]

theorem parses_reading (document : Element) : Parses (reading document) document := rfl

/-- A key with an entity and a blank in it, and a version. -/
theorem parseDelete_lists_entity :
    parseDelete (reading (deleteDocument [] true [⟨"a &lt; 1".toList, some "null".toList⟩]))
        (write (deleteDocument [] true [⟨"a &lt; 1".toList, some "null".toList⟩])) =
      .ok ⟨true, [⟨"a &lt; 1".toList, some "null".toList⟩]⟩ :=
  (parseDelete_lists_iff _ [] true _ (parses_reading _)).mpr <| by
    intro entry hentry
    rw [List.mem_singleton.mp hentry]
    refine ⟨Text.trim_eq_self_iff.mp (by decide +kernel), ?_⟩
    rintro _ ⟨⟩
    exact Text.trim_eq_self_iff.mp (by decide +kernel)

/-- **Another key is deleted**: a blank in front of the name is lost. -/
theorem padded_key_deletes_other :
    ObjectsService.ValidKey " plan.txt".toList ∧
    parseDelete (reading (deleteDocument [] false [⟨" plan.txt".toList, none⟩]))
        (write (deleteDocument [] false [⟨" plan.txt".toList, none⟩])) =
      .ok ⟨false, [⟨"plan.txt".toList, none⟩]⟩ := by
  refine ⟨by decide +kernel, (parseDelete_eq (parses_reading _)).trans ?_⟩
  rw [show [⟨" plan.txt".toList, none⟩].map trimmed = [(⟨"plan.txt".toList, none⟩ : DeleteEntry)] by
    decide +kernel]

/-! ## Access control lists -/

def s3Namespace : Text := "http://s3.amazonaws.com/doc/2006-03-01/".toList

/-- `ACL_GROUP_URIS`. -/
def allUsersUri : Text := "http://acs.amazonaws.com/groups/global/AllUsers".toList

def authenticatedUsersUri : Text := "http://acs.amazonaws.com/groups/global/AuthenticatedUsers".toList

inductive Grantee where
  | canonicalUser (id : Text)
  | allUsers
  | authenticatedUsers
  deriving DecidableEq, Repr

inductive GrantPermission where
  | read | write | readAcp | writeAcp | fullControl
  deriving DecidableEq, Repr

def GrantPermission.name (permission : GrantPermission) : Text :=
  String.toList <| match permission with
    | .read => "READ"
    | .write => "WRITE"
    | .readAcp => "READ_ACP"
    | .writeAcp => "WRITE_ACP"
    | .fullControl => "FULL_CONTROL"

theorem GrantPermission.name_injective : Function.Injective GrantPermission.name := by
  intro p q h
  cases p <;> cases q <;> first | rfl | exact absurd h (by decide)

structure Grant where
  grantee : Grantee
  permission : GrantPermission
  deriving DecidableEq, Repr

/-- `Grantee`, with its type among its attributes. -/
def granteeElement (grantee : Grantee) : Element :=
  let typed (type : String) (child : Element) : Element :=
    .node "Grantee".toList
      [("xmlns:xsi".toList, "http://www.w3.org/2001/XMLSchema-instance".toList),
        ("xsi:type".toList, type.toList)] [child]
  match grantee with
  | .canonicalUser id => typed "CanonicalUser" (.leaf "ID".toList [] id)
  | .allUsers => typed "Group" (.leaf "URI".toList [] allUsersUri)
  | .authenticatedUsers => typed "Group" (.leaf "URI".toList [] authenticatedUsersUri)

def grantElement (grant : Grant) : Element :=
  .node "Grant".toList []
    [granteeElement grant.grantee, .leaf "Permission".toList [] grant.permission.name]

/-- The document with some grants. -/
def accessControlPolicy (ownerId : Text) (grants : List Grant) : Element :=
  .node "AccessControlPolicy".toList [("xmlns".toList, s3Namespace)]
    [.node "Owner".toList [] [.leaf "ID".toList [] ownerId, .leaf "DisplayName".toList [] ownerId],
      .node "AccessControlList".toList [] (grants.map grantElement)]

/-- The grants a canned ACL stands for. -/
def cannedGrants (acl : BucketAcl) (ownerId : Text) : List Grant :=
  [⟨.canonicalUser ownerId, .fullControl⟩] ++
    (if acl = .publicRead ∨ acl = .publicReadWrite then [⟨.allUsers, .read⟩] else []) ++
    (if acl = .publicReadWrite then [⟨.allUsers, .write⟩] else []) ++
    (if acl = .authenticatedRead then [⟨.authenticatedUsers, .read⟩] else [])

/-- The document a `GetBucketAcl` answers with. -/
def buildAccessControlPolicy (acl : BucketAcl) (ownerId : Text) : Element :=
  accessControlPolicy ownerId (cannedGrants acl ownerId)

/-- What the groups have been granted so far. -/
structure GroupAccess where
  publicRead : Bool := false
  publicWrite : Bool := false
  authenticatedRead : Bool := false
  deriving DecidableEq, Repr

variable (toUpperCase : Text → Text)

/-- One turn of the loop. -/
def acceptGrant (access : GroupAccess) (grant : Value) : Except XmlFault GroupAccess :=
  let grantee := (toArray (grant.field "Grantee".toList)).head?
  let uri := text (grantee.bind (·.field "URI".toList))
  let permission := toUpperCase (text (grant.field "Permission".toList))
  -- A grant to a named user is taken for the owner's own.
  if uri = [] then .ok access
  else
    let isRead := permission = "READ".toList || permission = "FULL_CONTROL".toList
    let isWrite := permission = "WRITE".toList || permission = "FULL_CONTROL".toList
    if uri = allUsersUri then
      .ok { access with
        publicRead := access.publicRead || isRead
        publicWrite := access.publicWrite || isWrite }
    else if uri = authenticatedUsersUri then
      if isWrite then .error .malformedXml
      else .ok { access with authenticatedRead := access.authenticatedRead || isRead }
    else .error .malformedXml

/-- The canned ACL that goes with what the groups have been granted. -/
def GroupAccess.acl (access : GroupAccess) : BucketAcl :=
  if access.publicWrite then .publicReadWrite
  else if access.publicRead then .publicRead
  else if access.authenticatedRead then .authenticatedRead
  else .privateAcl

def parseAccessControlPolicy (parse : Text → Value) (xml : Text) : Except XmlFault BucketAcl := do
  let document ← parseRoot parse xml "AccessControlPolicy".toList
  let list := document.field "AccessControlList".toList
  let grants := toArray (list.bind (·.field "Grant".toList))
  let access ← grants.foldlM (acceptGrant toUpperCase) {}
  return access.acl

/-- A grant of write access to all users that have an account. -/
def Grant.Refused (grant : Grant) : Prop :=
  grant.grantee = .authenticatedUsers ∧ (grant.permission = .write ∨ grant.permission = .fullControl)

instance (grant : Grant) : Decidable grant.Refused := inferInstanceAs (Decidable (_ ∧ _))

/-- What one grant adds. -/
def GroupAccess.accept (access : GroupAccess) : Grant → GroupAccess
  | ⟨.canonicalUser _, _⟩ => access
  | ⟨.allUsers, permission⟩ =>
      { access with
        publicRead := access.publicRead || permission = .read || permission = .fullControl
        publicWrite := access.publicWrite || permission = .write || permission = .fullControl }
  | ⟨.authenticatedUsers, permission⟩ =>
      { access with authenticatedRead := access.authenticatedRead || permission = .read }

variable {toUpperCase}

/-- **One grant.** -/
theorem acceptGrant_value (hupper : ∀ permission : GrantPermission,
    toUpperCase permission.name = permission.name) (access : GroupAccess) (grant : Grant) :
    acceptGrant toUpperCase access (value parserOptions (grantElement grant)) =
      if grant.Refused then .error .malformedXml else .ok (access.accept grant) := by
  obtain ⟨grantee, permission⟩ := grant
  have htrim : ∀ permission : GrantPermission, permission.name.trim = permission.name := by
    intro permission
    cases permission <;> decide +kernel
  have huris : allUsersUri.trim = allUsersUri ∧ authenticatedUsersUri.trim = authenticatedUsersUri ∧
      allUsersUri ≠ [] ∧ authenticatedUsersUri ≠ [] ∧ authenticatedUsersUri ≠ allUsersUri := by
    decide +kernel
  have hpermission : toUpperCase (text ((value parserOptions
      (grantElement ⟨grantee, permission⟩)).field "Permission".toList)) = permission.name := by
    rw [grantElement, field_child (by decide) [] (e := .leaf "Permission".toList [] permission.name),
      text_leaf, htrim, hupper]
    cases grantee <;> rfl
  have hgrantee : (toArray ((value parserOptions
      (grantElement ⟨grantee, permission⟩)).field "Grantee".toList)).head? =
        some (value parserOptions (granteeElement grantee)) := by
    rw [grantElement, toArray_children (by decide)]
    cases grantee <;> rfl
  have hread : permission.name = "READ".toList ↔ permission = .read :=
    @Function.Injective.eq_iff _ _ _ GrantPermission.name_injective permission .read
  have hwrite : permission.name = "WRITE".toList ↔ permission = .write :=
    @Function.Injective.eq_iff _ _ _ GrantPermission.name_injective permission .write
  have hfull : permission.name = "FULL_CONTROL".toList ↔ permission = .fullControl :=
    @Function.Injective.eq_iff _ _ _ GrantPermission.name_injective permission .fullControl
  simp only [acceptGrant, hpermission, hgrantee, Option.bind_some, hread, hwrite, hfull]
  cases grantee with
  | canonicalUser id =>
    have huri : text ((value parserOptions (granteeElement (.canonicalUser id))).field "URI".toList) = [] :=
      congrArg text (field_no_child (by decide) _ rfl)
    rw [if_pos huri, if_neg (by simp [Grant.Refused])]
    rfl
  | allUsers =>
    have huri : text ((value parserOptions (granteeElement .allUsers)).field "URI".toList) = allUsersUri :=
      (congrArg text (field_child (by decide) _ rfl)).trans ((text_leaf _ _).trans huris.1)
    rw [huri, if_neg huris.2.2.1, if_pos rfl, if_neg (by simp [Grant.Refused])]
    simp only [GroupAccess.accept, Bool.or_assoc]
  | authenticatedUsers =>
    have huri : text ((value parserOptions (granteeElement .authenticatedUsers)).field "URI".toList) =
        authenticatedUsersUri :=
      (congrArg text (field_child (by decide) _ rfl)).trans ((text_leaf _ _).trans huris.2.1)
    rw [huri, if_neg huris.2.2.2.1, if_neg huris.2.2.2.2, if_pos rfl]
    cases permission <;> simp [GroupAccess.accept, Grant.Refused]

/-- **The loop** stops at the first grant it refuses, and adds up the others. -/
theorem foldlM_acceptGrant (hupper : ∀ permission : GrantPermission,
    toUpperCase permission.name = permission.name) (grants : List Grant) (access : GroupAccess) :
    (grants.map fun grant => value parserOptions (grantElement grant)).foldlM
        (acceptGrant toUpperCase) access =
      if ∃ grant ∈ grants, grant.Refused then .error .malformedXml
      else .ok (grants.foldl GroupAccess.accept access) := by
  induction grants generalizing access with
  | nil => rw [if_neg (by simp)]; rfl
  | cons grant grants ih =>
    rw [List.map_cons, List.foldlM_cons, acceptGrant_value hupper]
    by_cases hrefused : grant.Refused
    · rw [if_pos hrefused, if_pos ⟨grant, List.mem_cons_self, hrefused⟩]
      rfl
    · rw [if_neg hrefused]
      refine (ih (access.accept grant)).trans ?_
      simp only [List.mem_cons, exists_eq_or_imp, hrefused, false_or, List.foldl_cons]

/-- What some grants add up to. -/
theorem foldl_accept (grants : List Grant) (access : GroupAccess) :
    ((grants.foldl GroupAccess.accept access).publicRead = true ↔
        access.publicRead = true ∨ ⟨.allUsers, .read⟩ ∈ grants ∨ ⟨.allUsers, .fullControl⟩ ∈ grants) ∧
      ((grants.foldl GroupAccess.accept access).publicWrite = true ↔
        access.publicWrite = true ∨ ⟨.allUsers, .write⟩ ∈ grants ∨ ⟨.allUsers, .fullControl⟩ ∈ grants) ∧
      ((grants.foldl GroupAccess.accept access).authenticatedRead = true ↔
        access.authenticatedRead = true ∨ ⟨.authenticatedUsers, .read⟩ ∈ grants) := by
  induction grants generalizing access with
  | nil => simp
  | cons grant grants ih =>
    obtain ⟨hread, hwrite, hauthenticated⟩ := ih (access.accept grant)
    rw [List.foldl_cons, hread, hwrite, hauthenticated]
    obtain ⟨grantee, permission⟩ := grant
    cases grantee <;> cases permission <;> simp [GroupAccess.accept]

/-- **What a canned ACL can express**: the owner's own grant, and beside it read access for one of
the groups, with or without write access for all users. -/
structure Expressible (ownerId : Text) (grants : List Grant) : Prop where
  owner : ⟨.canonicalUser ownerId, .fullControl⟩ ∈ grants
  only : ∀ grant ∈ grants, grant = ⟨.canonicalUser ownerId, .fullControl⟩ ∨
    grant = ⟨.allUsers, .read⟩ ∨ grant = ⟨.allUsers, .write⟩ ∨ grant = ⟨.authenticatedUsers, .read⟩
  write : ⟨.allUsers, .write⟩ ∈ grants → ⟨.allUsers, .read⟩ ∈ grants
  groups : ⟨.allUsers, .read⟩ ∈ grants → ⟨.authenticatedUsers, .read⟩ ∉ grants

theorem Expressible.congr {ownerId : Text} {grants grants' : List Grant}
    (h : ∀ grant, grant ∈ grants ↔ grant ∈ grants') (hgrants : Expressible ownerId grants) :
    Expressible ownerId grants' := by
  obtain ⟨howner, honly, hwrite, hgroups⟩ := hgrants
  simp only [h] at howner honly hwrite hgroups
  exact ⟨howner, honly, hwrite, hgroups⟩

theorem expressible_cannedGrants (acl : BucketAcl) (ownerId : Text) :
    Expressible ownerId (cannedGrants acl ownerId) := by
  cases acl <;> constructor <;> simp [cannedGrants]

/-- The ACL that an expressible list is stored as expands to it. -/
theorem mem_cannedGrants_iff {ownerId : Text} {grants : List Grant} (h : Expressible ownerId grants)
    (grant : Grant) :
    grant ∈ cannedGrants (grants.foldl GroupAccess.accept {}).acl ownerId ↔ grant ∈ grants := by
  obtain ⟨hread, hwrite, hauthenticated⟩ := foldl_accept grants {}
  have hfull : (⟨.allUsers, .fullControl⟩ : Grant) ∉ grants := fun hmem => by
    simpa using h.only _ hmem
  simp only [Bool.false_eq_true, false_or, hfull, or_false] at hread hwrite hauthenticated
  have honly : grant ∈ grants ↔ grant = ⟨.canonicalUser ownerId, .fullControl⟩ ∨
      (grant = ⟨.allUsers, .read⟩ ∧ ⟨.allUsers, .read⟩ ∈ grants) ∨
      (grant = ⟨.allUsers, .write⟩ ∧ ⟨.allUsers, .write⟩ ∈ grants) ∨
      (grant = ⟨.authenticatedUsers, .read⟩ ∧ ⟨.authenticatedUsers, .read⟩ ∈ grants) := by
    constructor
    · intro hmem
      rcases h.only grant hmem with rfl | rfl | rfl | rfl
      · exact Or.inl rfl
      · exact Or.inr (Or.inl ⟨rfl, hmem⟩)
      · exact Or.inr (Or.inr (Or.inl ⟨rfl, hmem⟩))
      · exact Or.inr (Or.inr (Or.inr ⟨rfl, hmem⟩))
    · rintro (rfl | ⟨rfl, hmem⟩ | ⟨rfl, hmem⟩ | ⟨rfl, hmem⟩)
      · exact h.owner
      · exact hmem
      · exact hmem
      · exact hmem
  rw [honly, GroupAccess.acl]
  simp only [hread, hwrite, hauthenticated]
  by_cases hw : (⟨.allUsers, .write⟩ : Grant) ∈ grants
  · have hr := h.write hw
    simp [hw, hr, h.groups hr, cannedGrants]
  · by_cases hr : (⟨.allUsers, .read⟩ : Grant) ∈ grants
    · simp [hw, hr, h.groups hr, cannedGrants]
    · by_cases ha : (⟨.authenticatedUsers, .read⟩ : Grant) ∈ grants <;>
        simp [hw, hr, ha, cannedGrants]

/-- **What a grant list is stored as.** -/
theorem parseAccessControlPolicy_eq {parse : Text → Value} {ownerId : Text} {grants : List Grant}
    (hupper : ∀ permission : GrantPermission, toUpperCase permission.name = permission.name)
    (hparse : Parses parse (accessControlPolicy ownerId grants)) :
    parseAccessControlPolicy toUpperCase parse (write (accessControlPolicy ownerId grants)) =
      if ∃ grant ∈ grants, grant.Refused then .error .malformedXml
      else .ok (grants.foldl GroupAccess.accept {}).acl := by
  have hlist : (value parserOptions (accessControlPolicy ownerId grants)).field
      "AccessControlList".toList =
        some (value parserOptions (.node "AccessControlList".toList [] (grants.map grantElement))) :=
    field_child (by decide) _ rfl
  have hgrants : toArray ((value parserOptions
      (.node "AccessControlList".toList [] (grants.map grantElement))).field "Grant".toList) =
        grants.map fun grant => value parserOptions (grantElement grant) := by
    rw [toArray_children (by decide), List.filter_eq_self.mpr, List.map_map]
    · rfl
    · intro e he
      obtain ⟨grant, -, rfl⟩ := List.mem_map.mp he
      rfl
  rw [parseAccessControlPolicy, accessControlPolicy, parseRoot_eq hparse (List.cons_ne_nil _ _)]
  show ((toArray (Option.bind ((value parserOptions (accessControlPolicy ownerId grants)).field
    "AccessControlList".toList) (·.field "Grant".toList))).foldlM (acceptGrant toUpperCase) {} >>=
      fun access => pure access.acl) = _
  rw [hlist, Option.bind_some, hgrants, foldlM_acceptGrant hupper]
  split_ifs <;> rfl

/-- **Which grant lists are stored as they are, or refused**: those with a grant of write access to
all users with an account, and those a canned ACL can express. -/
theorem parseAccessControlPolicy_exact_iff (toUpperCase : Text → Text) (parse : Text → Value)
    (ownerId : Text) (grants : List Grant)
    (hupper : ∀ permission : GrantPermission, toUpperCase permission.name = permission.name)
    (hparse : Parses parse (accessControlPolicy ownerId grants)) :
    (∀ acl, parseAccessControlPolicy toUpperCase parse (write (accessControlPolicy ownerId grants)) =
        .ok acl → ∀ grant, grant ∈ cannedGrants acl ownerId ↔ grant ∈ grants) ↔
      (∃ grant ∈ grants, grant.Refused) ∨ Expressible ownerId grants := by
  rw [parseAccessControlPolicy_eq hupper hparse]
  by_cases hrefused : ∃ grant ∈ grants, grant.Refused
  · rw [if_pos hrefused]
    exact iff_of_true nofun (Or.inl hrefused)
  · rw [if_neg hrefused, or_iff_right hrefused]
    constructor
    · intro h
      exact (expressible_cannedGrants _ ownerId).congr (h _ rfl)
    · rintro hexpressible acl ⟨⟩
      exact mem_cannedGrants_iff hexpressible

/-- The owner's grant, and one to everybody. -/
def ownerAnd (permission : GrantPermission) : List Grant :=
  [⟨.canonicalUser "ada".toList, .fullControl⟩, ⟨.allUsers, permission⟩]

/-- Read access for everybody is stored. -/
theorem parseAccessControlPolicy_exact_read :
    (⟨.allUsers, .read⟩ : Grant) ∈ cannedGrants .publicRead "ada".toList ↔ ⟨.allUsers, .read⟩ ∈ ownerAnd .read :=
  (parseAccessControlPolicy_exact_iff id (reading (accessControlPolicy "ada".toList (ownerAnd .read)))
    "ada".toList (ownerAnd .read) (fun _ => rfl) (parses_reading _)).mpr
      (Or.inr ⟨by decide, by decide, by decide, by decide⟩) .publicRead
      ((parseAccessControlPolicy_eq (fun _ => rfl) (parses_reading _)).trans (by decide +kernel)) _

/-- **Who may write may read as well**, though nobody has asked for it, and what is granted on the
list itself is forgotten. -/
theorem granted_more_and_less :
    parseAccessControlPolicy id (reading (accessControlPolicy "ada".toList (ownerAnd .write)))
        (write (accessControlPolicy "ada".toList (ownerAnd .write))) = .ok .publicReadWrite ∧
      (⟨.allUsers, .read⟩ ∈ cannedGrants .publicReadWrite "ada".toList ∧
        ⟨.allUsers, .read⟩ ∉ ownerAnd .write) ∧
      parseAccessControlPolicy id (reading (accessControlPolicy "ada".toList (ownerAnd .readAcp)))
        (write (accessControlPolicy "ada".toList (ownerAnd .readAcp))) = .ok .privateAcl ∧
      (⟨.allUsers, .readAcp⟩ ∉ cannedGrants .privateAcl "ada".toList ∧
        ⟨.allUsers, .readAcp⟩ ∈ ownerAnd .readAcp) :=
  ⟨(parseAccessControlPolicy_eq (fun _ => rfl) (parses_reading _)).trans (by decide +kernel), by decide,
    (parseAccessControlPolicy_eq (fun _ => rfl) (parses_reading _)).trans (by decide +kernel), by decide⟩

end S3XmlService
end SimpleStorage
