import SimpleStorage.Auth.AuthService
import SimpleStorage.Library.Fields
import SimpleStorage.Policies.RawPolicies
import SimpleStorage.S3.S3SignatureService

/-!
# The audit log

A handler that is marked with an action leaves one entry in the log whenever it is called, on
success and on failure alike.  The interceptor puts the entry together from the request: who
called, from where, what the path, the query and the body name, and, as the detail, all of the
query and the body with some fields blotted out.

The fields to blot out are a fixed list, and `detail` takes everything else as it is.  So an
entry does not depend on the fields of the list (`params_of_agree`), but of the fields that hold
a credential the list lacks one, the current password that goes with a new one.  Two calls that
differ in nothing but credentials, and end alike, leave the same entry if and only if they give
the same current password (`entry_eq_iff`).
-/

namespace SimpleStorage

inductive AuditAction where
  | userLogin | userCreate | userUpdate | userSetPassword | userSetStatus | userSetQuota | userDelete
  | bucketCreate | bucketDelete | bucketSetAcl | bucketSetVersioning | bucketSetQuota
  | bucketSetGrant | bucketRemoveGrant | bucketSetPolicy | bucketDeletePolicy
  | objectUpload | objectDownload | objectDelete | objectDeletePrefix | objectCreateFolder
  | objectCopy | objectMove | objectPresign
  | accessKeyCreate | accessKeySetStatus | accessKeyDelete
  deriving DecidableEq, Repr

/-- Whether the audited operation completed or was rejected. -/
inductive AuditResult where
  | success | failure
  deriving DecidableEq, Repr

namespace AuditTypes

/-- Body fields that must never reach the audit log, whatever endpoint they arrive on. -/
def REDACTED_FIELDS : List Text :=
  ["password".toList, "secretAccessKey".toList, "refreshToken".toList, "accessToken".toList]

/-- One operation to record. -/
structure RecordParams where
  action : AuditAction
  result : Option AuditResult
  userGuid : Option UserGuid
  userEmail : Option Text
  bucketName : Option Text
  objectKey : Option Text
  targetGuid : Option Text
  sourceIp : Option Text
  userAgent : Option Text
  detail : Option (List (Text × Json))

/-- What a row of the log holds of an operation. -/
structure AuditEntry where
  action : AuditAction
  result : AuditResult
  userGuid : Option UserGuid
  userEmail : Option Text
  bucketName : Option Text
  objectKey : Option Text
  targetGuid : Option Text
  sourceIp : Option Text
  userAgent : Option Text
  detail : Option (List (Text × Json))

end AuditTypes

/-- The values `record` inserts. -/
def AuditService.record (params : AuditTypes.RecordParams) : AuditTypes.AuditEntry where
  action := params.action
  result := params.result.getD .success
  userGuid := params.userGuid
  userEmail := params.userEmail
  bucketName := params.bucketName
  objectKey := params.objectKey
  targetGuid := params.targetGuid
  sourceIp := params.sourceIp
  userAgent := params.userAgent
  detail := params.detail

/-! ## Requests, and how their handlers end -/

/-- A header, which some requests send more than once. -/
inductive HeaderValue where
  | single (value : Text)
  | several (values : List Text)
  deriving DecidableEq, Repr

/-- What the interceptor reads of a call apart from its body, the user the guard found
included. -/
structure CallContext where
  user : Option AuthTypes.Identity
  bucketName : Option Text
  userGuid : Option Text
  accessKeyId : Option Text
  userAgent : Option Text
  forwarded : Option HeaderValue
  remoteAddress : Option Text
  query : List (Text × Json)
  query_nodup : (Fields.names query).Nodup

/-- The own fields of a parsed body; the elements of an array are its fields. -/
def bodyFields : Option Json → List (Text × Json)
  | some (.object fields) => fields
  | some (.array elements) => Json.indexed elements
  | _ => []

/-- A call of a handler. -/
structure AuditedCall extends CallContext where
  body : Option Json
  body_nodup : (Fields.names (bodyFields body)).Nodup

/-- What a handler throws: an object with what it has of a `code`, a `response` and, if it is
an `Error`, a name, or a value of another type. -/
inductive Thrown where
  | object (code response : Option Json) (errorName : Option Text)
  | primitive

inductive Outcome where
  | success
  | failure (err : Thrown)

/-! ## The interceptor -/

namespace AuditInterceptor

open AuditTypes

def string : Option Json → Option Text
  | some (.string value) => some value
  | _ => none

/-- `req.body?.[field]`, if it is a string. -/
def bodyString (call : AuditedCall) (field : Text) : Option Text :=
  string (call.body.bind (·.get field))

/-- `left ?? right`. -/
def nullish (left right : Option Json) : Option Json :=
  match left with
  | none | some .null => right
  | some value => some value

def objectKey (call : AuditedCall) : Option Text :=
  match string (nullish (Fields.lookup call.query "key".toList)
      (Fields.lookup call.query "prefix".toList)) with
  | some fromQuery => some fromQuery
  | none => (bodyString call "key".toList).or (bodyString call "sourceKey".toList)

def sourceIp (call : AuditedCall) : Option Text :=
  let header := match call.forwarded with
    | some (.single value) => some value
    | some (.several values) => values.head?
    | none => none
  match header with
  | some (c :: rest) => (Text.split ',' (c :: rest)).head?.map Text.trim
  | _ => call.remoteAddress

/-- Body and query of the call, minus anything secret. -/
def detail (call : AuditedCall) : List (Text × Json) :=
  REDACTED_FIELDS.foldl
    (fun merged field => Fields.overwrite field (.string "[redacted]".toList) merged)
    (Fields.spread call.query (bodyFields call.body))

def errorCode : Thrown → Text
  | .primitive => "unknown".toList
  | .object code response errorName =>
      match string code with
      | some own => own
      | none =>
          match string (response.bind (·.get "code".toList)) with
          | some code => code
          | none => errorName.getD "unknown".toList

def toParams (action : AuditAction) (call : AuditedCall) (result : AuditResult) : RecordParams where
  action := action
  result := some result
  userGuid := call.user.map (·.guid)
  userEmail := (call.user.map (·.email)).or (bodyString call "email".toList)
  bucketName := call.bucketName
  objectKey := objectKey call
  targetGuid := call.userGuid.or call.accessKeyId
  sourceIp := sourceIp call
  userAgent := call.userAgent
  detail := some (detail call)

/-- What is handed to `record` when the handler has ended. -/
def params (action : AuditAction) (call : AuditedCall) : Outcome → RecordParams
  | .success => toParams action call .success
  | .failure err =>
      { toParams action call .failure with
        detail := some (Fields.spread (detail call) [("error".toList, .string (errorCode err))]) }

/-- The entry a call leaves, if the handler is marked. -/
def intercept (action : Option AuditAction) (call : AuditedCall) (outcome : Outcome) :
    Option AuditEntry :=
  action.map fun action => AuditService.record (params action call outcome)

/-! ## Blotting out -/

theorem names_foldl_overwrite (value : Json) (blotted : List Text) (fields : List (Text × Json)) :
    Fields.names (blotted.foldl (fun merged field => Fields.overwrite field value merged) fields) =
      Fields.names fields := by
  induction blotted generalizing fields with
  | nil => rfl
  | cons field blotted ih => rw [List.foldl_cons, ih, Fields.names_overwrite]

theorem lookup_foldl_overwrite (value : Json) (blotted : List Text) (fields : List (Text × Json))
    (name : Text) :
    Fields.lookup (blotted.foldl (fun merged field => Fields.overwrite field value merged) fields)
        name =
      if name ∈ blotted then (Fields.lookup fields name).map fun _ => value
      else Fields.lookup fields name := by
  induction blotted generalizing fields with
  | nil => rw [List.foldl_nil, if_neg List.not_mem_nil]
  | cons field blotted ih =>
    rw [List.foldl_cons, ih, Fields.lookup_overwrite]
    by_cases hfield : name = field
    · rw [if_pos hfield, if_pos (List.mem_cons.mpr (Or.inl hfield)), Option.map_map]
      by_cases hblotted : name ∈ blotted
      · rw [if_pos hblotted]
        rfl
      · rw [if_neg hblotted]
    · have hmem : name ∈ field :: blotted ↔ name ∈ blotted := by
        rw [List.mem_cons, or_iff_right hfield]
      rw [if_neg hfield]
      simp only [hmem]

theorem names_detail (call : AuditedCall) :
    Fields.names (detail call) = Fields.names (Fields.spread call.query (bodyFields call.body)) :=
  names_foldl_overwrite ..

theorem lookup_detail (call : AuditedCall) (name : Text) :
    Fields.lookup (detail call) name =
      if name ∈ REDACTED_FIELDS then
        ((Fields.lookup (bodyFields call.body) name).or (Fields.lookup call.query name)).map
          fun _ => .string "[redacted]".toList
      else (Fields.lookup (bodyFields call.body) name).or (Fields.lookup call.query name) := by
  unfold detail
  rw [lookup_foldl_overwrite, Fields.lookup_spread]

theorem nodup_detail (call : AuditedCall) : (Fields.names (detail call)).Nodup := by
  rw [names_detail]
  exact Fields.nodup_spread call.query_nodup call.body_nodup

/-! ## What an entry depends on -/

/-- Two bodies are the same but for the values of some fields. -/
def SameBut (secret : List Text) (body body' : Option Json) : Prop :=
  body = body' ∨ ∃ fields fields', body = some (.object fields) ∧ body' = some (.object fields') ∧
    Fields.names fields = Fields.names fields' ∧
    ∀ name ∉ secret, Fields.lookup fields name = Fields.lookup fields' name

/-- Two handlers succeed, or fail with the same error code. -/
def SameEnd : Outcome → Outcome → Prop
  | .success, .success => True
  | .failure err, .failure err' => errorCode err = errorCode err'
  | _, _ => False

theorem SameEnd.refl : ∀ outcome, SameEnd outcome outcome
  | .success => trivial
  | .failure _ => rfl

/-- Bodies that differ in fields of the list only have the same names and strings elsewhere. -/
theorem SameBut.bodyString {secret : List Text} {call call' : AuditedCall}
    (h : SameBut secret call.body call'.body) {field : Text} (hfield : field ∉ secret) :
    bodyString call field = bodyString call' field := by
  unfold AuditInterceptor.bodyString
  rcases h with h | ⟨fields, fields', hbody, hbody', -, hlookup⟩
  · rw [h]
  · rw [hbody, hbody']
    exact congrArg string (hlookup field hfield)

theorem SameBut.names {secret : List Text} {body body' : Option Json}
    (h : SameBut secret body body') :
    Fields.names (bodyFields body) = Fields.names (bodyFields body') := by
  rcases h with h | ⟨fields, fields', rfl, rfl, hnames, -⟩
  · rw [h]
  · exact hnames

theorem SameBut.lookup {secret : List Text} {body body' : Option Json}
    (h : SameBut secret body body') {name : Text} (hname : name ∉ secret) :
    Fields.lookup (bodyFields body) name = Fields.lookup (bodyFields body') name := by
  rcases h with h | ⟨fields, fields', rfl, rfl, -, hlookup⟩
  · rw [h]
  · exact hlookup name hname

section Agree

variable {call call' : AuditedCall} (hcontext : call.toCallContext = call'.toCallContext)
  (hbody : SameBut REDACTED_FIELDS call.body call'.body)

include hcontext hbody

theorem detail_of_agree : detail call = detail call' := by
  have hquery : call.query = call'.query := congrArg CallContext.query hcontext
  refine Fields.ext (nodup_detail call) ?_ fun name => ?_
  · rw [names_detail, names_detail, Fields.names_spread, Fields.names_spread, hquery, hbody.names]
  · rw [lookup_detail, lookup_detail, hquery]
    by_cases hname : name ∈ REDACTED_FIELDS
    · -- Either both calls have the field, and it is blotted out, or neither has.
      rw [if_pos hname, if_pos hname]
      have hnone := Fields.lookup_eq_none_congr hbody.names name
      generalize Fields.lookup (bodyFields call.body) name = value at hnone
      generalize Fields.lookup (bodyFields call'.body) name = value' at hnone
      cases value with
      | none => rw [hnone.mp rfl]
      | some value =>
        cases value' with
        | none => cases hnone.mpr rfl
        | some value' => rfl
    · rw [if_neg hname, if_neg hname, hbody.lookup hname]

theorem toParams_of_agree (action : AuditAction) (result : AuditResult) :
    toParams action call result = toParams action call' result := by
  have hstring (field : Text) (hfield : field ∉ REDACTED_FIELDS) := hbody.bodyString hfield
  have hkey : objectKey call = objectKey call' := by
    unfold objectKey
    rw [congrArg CallContext.query hcontext, hstring "key".toList (by decide),
      hstring "sourceKey".toList (by decide)]
  have hip : sourceIp call = sourceIp call' := by
    unfold sourceIp
    rw [congrArg CallContext.forwarded hcontext, congrArg CallContext.remoteAddress hcontext]
  unfold toParams
  rw [hkey, hip, detail_of_agree hcontext hbody, hstring "email".toList (by decide),
    congrArg CallContext.user hcontext, congrArg CallContext.bucketName hcontext,
    congrArg CallContext.userGuid hcontext, congrArg CallContext.accessKeyId hcontext,
    congrArg CallContext.userAgent hcontext]

/-- **An entry does not depend on what the listed fields hold.** -/
theorem params_of_agree (action : AuditAction) {outcome outcome' : Outcome}
    (hend : SameEnd outcome outcome') :
    params action call outcome = params action call' outcome' := by
  have hparams := toParams_of_agree hcontext hbody action
  cases outcome <;> cases outcome'
  · exact hparams .success
  · exact hend.elim
  · exact hend.elim
  · rename_i err err'
    have hcode : errorCode err = errorCode err' := hend
    show { toParams action call .failure with
      detail := some (Fields.spread (detail call) [("error".toList, .string (errorCode err))]) } = _
    rw [hparams .failure, detail_of_agree hcontext hbody, hcode]
    rfl

end Agree

/-! ## Credentials -/

/-- The fields a body may hold a credential in. -/
def CREDENTIAL_FIELDS : List Text :=
  ["password".toList, "currentPassword".toList, "refreshToken".toList, "accessToken".toList,
    "secretAccessKey".toList]

/-- What a body gives as the current password. -/
def currentPassword (call : AuditedCall) : Option Json :=
  call.body.bind (·.get "currentPassword".toList)

/-- Two calls of an endpoint that differ in credentials only. -/
structure DifferInCredentials (call call' : AuditedCall) : Prop where
  context : call.toCallContext = call'.toCallContext
  body : SameBut CREDENTIAL_FIELDS call.body call'.body

theorem mem_credentials : ∀ name ∈ CREDENTIAL_FIELDS,
    name = "currentPassword".toList ∨ name ∈ REDACTED_FIELDS := by
  decide

/-- With the same current password nothing is left to differ in but fields of the list. -/
theorem DifferInCredentials.redacted {call call' : AuditedCall} (h : DifferInCredentials call call')
    (hcurrent : currentPassword call = currentPassword call') :
    SameBut REDACTED_FIELDS call.body call'.body := by
  rcases h.body with hbody | ⟨fields, fields', hbody, hbody', hnames, hlookup⟩
  · exact Or.inl hbody
  · refine Or.inr ⟨fields, fields', hbody, hbody', hnames, fun name hname => ?_⟩
    by_cases hcredential : name ∈ CREDENTIAL_FIELDS
    · obtain rfl := (mem_credentials name hcredential).resolve_right hname
      unfold currentPassword at hcurrent
      rw [hbody, hbody'] at hcurrent
      exact hcurrent
    · exact hlookup name hcredential

/-- What an entry shows as the current password is what the body gave, or else the query. -/
theorem lookup_params (action : AuditAction) (call : AuditedCall) (outcome : Outcome) :
    Fields.lookup ((params action call outcome).detail.getD []) "currentPassword".toList =
      (Fields.lookup (bodyFields call.body) "currentPassword".toList).or
        (Fields.lookup call.query "currentPassword".toList) := by
  have hdetail : Fields.lookup (detail call) "currentPassword".toList = _ := lookup_detail call _
  rw [if_neg (by decide)] at hdetail
  rw [← hdetail]
  cases outcome with
  | success => rfl
  | failure err =>
    show Fields.lookup (Fields.spread (detail call) [("error".toList, .string (errorCode err))]) _ = _
    rw [Fields.lookup_spread]
    rfl

/-- **What an audited call reveals of its credentials is the current password.** -/
theorem entry_eq_iff (action : AuditAction) {call call' : AuditedCall}
    (hcalls : DifferInCredentials call call') {outcome outcome' : Outcome}
    (hend : SameEnd outcome outcome') :
    intercept (some action) call outcome = intercept (some action) call' outcome' ↔
      currentPassword call = currentPassword call' := by
  constructor
  · intro h
    have hdetail : (params action call outcome).detail = (params action call' outcome').detail :=
      congrArg AuditEntry.detail (Option.some.inj h)
    have hshown := lookup_params action call outcome
    rw [hdetail, lookup_params, congrArg CallContext.query hcalls.context] at hshown
    unfold currentPassword
    rcases hcalls.body with hbody | ⟨fields, fields', hbody, hbody', hnames, -⟩
    · rw [hbody]
    · rw [hbody, hbody'] at hshown ⊢
      show Fields.lookup fields _ = Fields.lookup fields' _
      have hnone := Fields.lookup_eq_none_congr hnames "currentPassword".toList
      unfold bodyFields at hshown
      dsimp only at hshown
      generalize Fields.lookup fields "currentPassword".toList = value at hshown hnone ⊢
      generalize Fields.lookup fields' "currentPassword".toList = value' at hshown hnone ⊢
      cases value with
      | none => rw [hnone.mp rfl]
      | some value =>
        cases value' with
        | none => cases hnone.mpr rfl
        | some value' => exact hshown.symm
  · intro hcurrent
    unfold intercept
    rw [Option.map_some, Option.map_some,
      params_of_agree hcalls.context (hcalls.redacted hcurrent) action hend]

/-! ## Two calls -/

/-- Bodies whose last fields differ in their values, in a field that counts as secret. -/
theorem sameBut_last {secret : List Text} {name : Text} (hname : name ∈ secret)
    (front : List (Text × Json)) (value value' : Json) :
    SameBut secret (some (.object (front ++ [(name, value)])))
      (some (.object (front ++ [(name, value')]))) := by
  refine Or.inr ⟨_, _, rfl, rfl, ?_, fun other hother => ?_⟩
  · unfold Fields.names
    rw [List.map_append, List.map_append]
    rfl
  · have hne : name ≠ other := by
      rintro rfl
      exact hother hname
    rw [Fields.lookup_append, Fields.lookup_append, Fields.lookup_cons, Fields.lookup_cons,
      if_neg hne, if_neg hne]

/-- A user signs in. -/
def signIn (password : Text) : AuditedCall where
  user := none
  bucketName := none
  userGuid := none
  accessKeyId := none
  userAgent := none
  forwarded := none
  remoteAddress := some "192.0.2.1".toList
  query := []
  query_nodup := List.nodup_nil
  body := some (.object
    ([("email".toList, .string "a@b.c".toList)] ++ [("password".toList, .string password)]))
  body_nodup := by
    show ["email".toList, "password".toList].Nodup
    decide

theorem signIn_differ (password password' : Text) :
    DifferInCredentials (signIn password) (signIn password') :=
  ⟨rfl, sameBut_last (by decide) _ _ _⟩

theorem currentPassword_signIn (password : Text) : currentPassword (signIn password) = none := rfl

/-- A user sets a password. -/
def setPassword (password current : Text) : AuditedCall where
  user := some { guid := "u".toList, email := "a@b.c".toList, role := .user }
  bucketName := none
  userGuid := some "u".toList
  accessKeyId := none
  userAgent := none
  forwarded := none
  remoteAddress := some "192.0.2.1".toList
  query := []
  query_nodup := List.nodup_nil
  body := some (.object
    ([("password".toList, .string password)] ++ [("currentPassword".toList, .string current)]))
  body_nodup := by
    show ["password".toList, "currentPassword".toList].Nodup
    decide

theorem setPassword_differ (password current current' : Text) :
    DifferInCredentials (setPassword password current) (setPassword password current') :=
  ⟨rfl, sameBut_last (by decide) _ _ _⟩

theorem lookup_setPassword (password current : Text) (outcome : Outcome) :
    Fields.lookup ((params .userSetPassword (setPassword password current) outcome).detail.getD [])
      "currentPassword".toList = some (.string current) := by
  rw [lookup_params]
  rfl

/-- What is thrown with a code in its response. -/
def rejected (code : Text) : Thrown :=
  .object none (some (.object [("code".toList, .string code)])) (some "HttpException".toList)

/-- Two attempts to sign in cannot be told apart by the passwords. -/
theorem entry_eq_signIn :
    intercept (some .userLogin) (signIn "password1".toList)
        (.failure (rejected "invalid_credentials".toList)) =
      intercept (some .userLogin) (signIn "password2".toList)
        (.failure (rejected "invalid_credentials".toList)) :=
  (entry_eq_iff .userLogin (signIn_differ _ _) (SameEnd.refl _)).mpr
    ((currentPassword_signIn _).trans (currentPassword_signIn _).symm)

/-- Two attempts to set a password can, by what was given as the current one. -/
theorem setPassword_reveals :
    DifferInCredentials (setPassword "password3".toList "password1".toList)
        (setPassword "password3".toList "password2".toList) ∧
      intercept (some .userSetPassword) (setPassword "password3".toList "password1".toList)
          (.failure (rejected "invalid_current_password".toList)) ≠
        intercept (some .userSetPassword) (setPassword "password3".toList "password2".toList)
          (.failure (rejected "invalid_current_password".toList)) := by
  refine ⟨setPassword_differ _ _ _, fun h => ?_⟩
  have hshown := congrArg
    (fun entry => Fields.lookup (entry.detail.getD []) "currentPassword".toList) (Option.some.inj h)
  have hvalues := ((lookup_setPassword _ _ _).symm.trans hshown).trans (lookup_setPassword _ _ _)
  exact absurd (Json.string.inj (Option.some.inj hvalues)) (by decide)

end AuditInterceptor
end SimpleStorage
