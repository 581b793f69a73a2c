import SimpleStorage.AccessKeys.KeyHistory
import SimpleStorage.S3.SignedUrls
import SimpleStorage.Auth.RefreshRaces
import SimpleStorage.Auth.PasswordRaces
import SimpleStorage.Audit.AuditInterceptor
import SimpleStorage.Users.LastAdmin
import SimpleStorage.S3.ChunkSizes
import SimpleStorage.S3.ChunkedPayloads
import SimpleStorage.S3.SteeringHeaders
import SimpleStorage.S3.S3Guard
import SimpleStorage.S3.ByteRanges
import SimpleStorage.S3.Addressing
import SimpleStorage.S3.ConditionalRequests
import SimpleStorage.S3.S3XmlService
import SimpleStorage.Storage.ConcatStreams
import SimpleStorage.Policies.TypedPolicies
import SimpleStorage.Policies.Wildcards
import SimpleStorage.Policies.ConditionOperators
import SimpleStorage.Policies.Principals
import SimpleStorage.Policies.SourceIps
import SimpleStorage.Objects.ListExact
import SimpleStorage.Objects.VersionsExact
import SimpleStorage.S3.ListObjectsV1
import SimpleStorage.Objects.UploadPages
import SimpleStorage.Objects.VersionRaces
import SimpleStorage.Objects.CommitOrder
import SimpleStorage.Objects.FilingOperations
import SimpleStorage.Objects.KeyOperations
import SimpleStorage.Objects.UploadOperations
import SimpleStorage.Policies.PoliciesService
import SimpleStorage.Buckets.BucketsService
import SimpleStorage.S3.S3AuthorizationService
import SimpleStorage.S3.Controllers
import SimpleStorage.S3.BulkDelete
import SimpleStorage.S3.MultipartRequests
import SimpleStorage.Buckets.DeleteRaces
import SimpleStorage.Buckets.Probing
import SimpleStorage.Objects.UploadRaces
import SimpleStorage.Objects.ReadRaces
import SimpleStorage.Objects.MoveRaces
import SimpleStorage.Gc.Reclaim
import SimpleStorage.Gc.SweepRaces
import SimpleStorage.Objects.Refinement
import SimpleStorage.Objects.Assembly
import SimpleStorage.Objects.KeyRules
import SimpleStorage.Objects.RefusedWrites
import SimpleStorage.Objects.AcceptedWrites
import SimpleStorage.Objects.FolderCreation
import SimpleStorage.Objects.MoveKeys
import SimpleStorage.Objects.Prefixes
import SimpleStorage.Usage.QuotaRaces
import SimpleStorage.Usage.Balance
import SimpleStorage.Api.Retention
import SimpleStorage.RateLimit.CallRaces
import SimpleStorage.S3.RequestBodies
import SimpleStorage.S3.SignedBodies
import SimpleStorage.Objects.PartPages
import SimpleStorage.Api.GrantChains
import SimpleStorage.Api.Configuration
import SimpleStorage.Api.ConfigurationReads
import SimpleStorage.S3.ObjectReads
import SimpleStorage.Api.ReadBack
import SimpleStorage.Library.WildcardSource
import SimpleStorage.Library.LastWrite
import SimpleStorage.Buckets.CorsRules
import SimpleStorage.Api.Preflights
import SimpleStorage.AccessKeys.SigningKeys
import SimpleStorage.Api.SignedLinks
