import SimpleStorage.Objects.ObjectsService
import SimpleStorage.Storage.ListBlobs

/-!
# The collector

What the write paths leave behind: blobs no row points at, and uploads nobody finishes.  A
sweep aborts the uploads that were abandoned, reads what the tables refer to, and walks over
the data root.

The paths in use are read first and the cut-off is computed after that, so a blob that was
committed in the meantime is told by its age.
-/

namespace SimpleStorage

namespace GcTypes

structure Config where
  multipartMaxAgeHours : ℕ
  blobMinAgeHours : ℕ
  deriving DecidableEq, Repr

/-- What the walk over the data root came to. -/
structure Sweep where
  deletedBlobs : ℕ := 0
  reclaimedBytes : ℕ := 0
  skippedYoungBlobs : ℕ := 0
  deriving DecidableEq, Repr

structure Result extends Sweep where
  abortedUploads : ℕ
  durationMs : ℕ
  deriving DecidableEq, Repr

end GcTypes

namespace GcService

open GcTypes ObjectsService Program Statements

variable (N : Node) (config : Config)

def hourMs : ℕ := 60 * 60 * 1000

/-- The uploads in progress that were created before a time. -/
def staleUploads (deadline : ℤ) (db : Database) : List (Guid × Text) :=
  (db.multipartUploads.filter fun u => u.status = .inProgress && (u.createdAt : ℤ) < deadline).map
    fun u => (u.bucketGuid, u.uploadId)

/-- One upload that does not go does not end the sweep. -/
def abortAbandonedUploads : Service ℕ := do
  let deadline : ℤ := N.now (← World.nextCall) - config.multipartMaxAgeHours * hourMs
  let stale ← World.select (staleUploads deadline)
  stale.foldlM (fun aborted upload =>
    tryCatch (do
      abortMultipartUpload upload.1 upload.2
      return aborted + 1) fun _ => return aborted) 0

/-- **Every path the tables refer to**, versions first. -/
def referencedStoragePaths : Service (List Text) := do
  let versions ← observe (fun w => some (.startedSweep w.calls)) fun w => storagePaths w.db.objectVersions
  let parts ← World.select fun db => db.multipartParts.map (·.storagePath)
  return versions ++ parts

/-- Deletes a blob that is neither referred to nor too young. -/
def sweepBlob (referenced : List Text) (youngerThan : ℤ) (result : Sweep)
    (blob : StorageTypes.BlobEntry) : Service Sweep :=
  if blob.storagePath ∈ referenced then
    return result
  else if (blob.modifiedAt : ℤ) > youngerThan then
    return { result with skippedYoungBlobs := result.skippedYoungBlobs + 1 }
  else do
    StorageService.delete blob.storagePath
    return { result with
      deletedBlobs := result.deletedBlobs + 1
      reclaimedBytes := result.reclaimedBytes + blob.size }

def collectOrphanedBlobs : Service Sweep := do
  let referenced ← referencedStoragePaths
  let youngerThan : ℤ := N.now (← World.nextCallFor .computedCutOff) - config.blobMinAgeHours * hourMs
  StorageService.listBlobs (sweepBlob referenced youngerThan) {}

def collect : Service Result := do
  let startedAt ← World.nextCall
  let abortedUploads ← abortAbandonedUploads N config
  let blobs ← collectOrphanedBlobs N config
  let finishedAt ← World.nextCall
  return { blobs with abortedUploads, durationMs := N.now finishedAt - N.now startedAt }

end GcService
end SimpleStorage
