import SimpleStorage.Database.Types

/-!
# Policy documents

Bucket policies as the engine reads them, the request they are evaluated against, and
the three answers.
-/

namespace SimpleStorage
namespace PoliciesTypes

inductive Effect where
  | allow | deny
  deriving DecidableEq, Repr

/-- `string | string[]`. -/
inductive OneOrMany where
  | one : Text → OneOrMany
  | many : List Text → OneOrMany
  deriving DecidableEq, Repr

/-- `"*"`, or `{ AWS: ... }` with user guids and access key ids. -/
inductive Principal where
  | everyone : Principal
  | aws : OneOrMany → Principal
  deriving DecidableEq, Repr

/-- Operator, then context key, then the expected values. -/
abbrev Condition := List (Text × List (Text × OneOrMany))

structure PolicyStatement where
  effect : Effect
  principal : Option Principal := none
  notPrincipal : Option Principal := none
  action : OneOrMany
  notAction : Option OneOrMany := none
  resource : OneOrMany
  notResource : Option OneOrMany := none
  condition : Option Condition := none
  deriving DecidableEq, Repr

structure PolicyDocument where
  statement : List PolicyStatement
  deriving DecidableEq, Repr

/-- Values of a `Condition` block by key; a key that is not listed is missing. -/
abbrev PolicyContext := List (Text × OneOrMany)

/-- The request being authorised. -/
structure EvaluationRequest where
  action : Text
  resource : Text
  principalUserGuid : Option Text
  accessKeyId : Option Text
  context : PolicyContext

inductive Decision where
  | allow | deny
  /-- No statement matched: ownership and ACL decide. -/
  | notApplicable
  deriving DecidableEq, Repr

end PoliciesTypes
end SimpleStorage
