import SimpleStorage.Policies.Types

/-!
# What an S3 request is

The actions of the protocol under the names policies give them, who makes a request, and
the values of a request that the conditions of a policy may ask for.
-/

namespace SimpleStorage
namespace S3Types

/-- One action per operation. -/
inductive Action where
  | abortMultipartUpload | createBucket | deleteBucket | deleteBucketPolicy
  | deleteObject | deleteObjectVersion
  | getBucketAcl | getBucketCors | getBucketLocation | getBucketPolicy | getBucketVersioning
  | getObject | getObjectVersion
  | listBucket | listBucketMultipartUploads | listBucketVersions | listMultipartUploadParts
  | putBucketAcl | putBucketCors | putBucketPolicy | putBucketVersioning
  | putObject
  deriving DecidableEq, Repr

/-- The name of an action in a policy. -/
def Action.name (action : Action) : Text :=
  String.toList <| match action with
    | .abortMultipartUpload => "s3:AbortMultipartUpload"
    | .createBucket => "s3:CreateBucket"
    | .deleteBucket => "s3:DeleteBucket"
    | .deleteBucketPolicy => "s3:DeleteBucketPolicy"
    | .deleteObject => "s3:DeleteObject"
    | .deleteObjectVersion => "s3:DeleteObjectVersion"
    | .getBucketAcl => "s3:GetBucketAcl"
    | .getBucketCors => "s3:GetBucketCORS"
    | .getBucketLocation => "s3:GetBucketLocation"
    | .getBucketPolicy => "s3:GetBucketPolicy"
    | .getBucketVersioning => "s3:GetBucketVersioning"
    | .getObject => "s3:GetObject"
    | .getObjectVersion => "s3:GetObjectVersion"
    | .listBucket => "s3:ListBucket"
    | .listBucketMultipartUploads => "s3:ListBucketMultipartUploads"
    | .listBucketVersions => "s3:ListBucketVersions"
    | .listMultipartUploadParts => "s3:ListMultipartUploadParts"
    | .putBucketAcl => "s3:PutBucketAcl"
    | .putBucketCors => "s3:PutBucketCORS"
    | .putBucketPolicy => "s3:PutBucketPolicy"
    | .putBucketVersioning => "s3:PutBucketVersioning"
    | .putObject => "s3:PutObject"

/-- Who makes a request. -/
structure RequestIdentity where
  accessKeyId : Text
  userGuid : UserGuid
  anonymous : Bool
  deriving DecidableEq, Repr

/-- The values of a live request a condition may ask for. -/
structure ConditionValues where
  sourceIp : Option Text := none
  secureTransport : Bool := false
  referer : Option Text := none
  userAgent : Option Text := none
  currentTime : Text := []
  epochTime : Text := []
  pre : Option Text := none
  delimiter : Option Text := none
  maxKeys : Option Text := none
  acl : Option Text := none
  deriving DecidableEq, Repr

/-- `x-amz-copy-source`. -/
structure CopySource where
  bucket : Text
  key : Text
  versionId : Option Text := none
  deriving DecidableEq, Repr

end S3Types
end SimpleStorage
