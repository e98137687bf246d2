import Mathlib.Algebra.GroupWithZero.Nat
import ZkNote.KeyedTable

namespace ZkNote.ServerBlobs
open KeyedTable

structure BlobRow where
  accountId : String
  blobId : String
  size : Nat
  data : List UInt8
  deriving DecidableEq, Repr

abbrev BlobTable := Table (String × String) BlobRow (fun r => (r.accountId,r.blobId))

inductive DbError where
  | blobSizeExceeded (max actual : Nat)
  | accountQuotaExceeded (quota requested : Nat)
  deriving DecidableEq, Repr

structure ErrorResponse where
  status : Nat
  code : String
  message : String
  deriving DecidableEq, Repr

structure BlobConfig where
  maxBlobSize : Nat
  accountBlobQuota : Nat
  deriving DecidableEq, Repr

def isValidBlobId (id : String) : Bool :=
  !id.isEmpty && decide (id.utf8ByteSize ≤ 128) &&
    id.toList.all (fun c => ('a' ≤ c && c ≤ 'z') || ('A' ≤ c && c ≤ 'Z') || ('0' ≤ c && c ≤ '9') || c = '-' || c = '_')

section
variable (blobs : BlobTable) (accountId blobId : String)

def getAccountBlobUsage : Nat := ((blobs.rows.filter (fun r => r.accountId = accountId)).map (·.size)).sum

def getBlob : Option (List UInt8) := (blobs.find (accountId,blobId)).map (·.data)

def putBlob (data : List UInt8) (accountBlobQuota maxBlobSize : Nat) : Except DbError (Nat × BlobTable) :=
  if maxBlobSize < data.length then .error (.blobSizeExceeded maxBlobSize data.length) else
  let existingSize := ((blobs.find (accountId,blobId)).map (·.size)).getD 0
  let projectedUsage := getAccountBlobUsage blobs accountId - existingSize+data.length
  if accountBlobQuota < projectedUsage then .error (.accountQuotaExceeded accountBlobQuota projectedUsage) else
  .ok (data.length,blobs.upsert ⟨accountId,blobId,data.length,data⟩)

def deleteBlob : Bool × BlobTable :=
  match blobs.find (accountId,blobId) with
  | none => (false,blobs)
  | some _ => (true,blobs.delete (fun r => decide ((r.accountId,r.blobId) = (accountId,blobId))))

def invalidBlobId : ErrorResponse := ⟨400,"INVALID_BLOB_ID","Blob ID must be 1-128 alphanumeric, hyphen, or underscore characters"⟩

-- The handlers, for an account that is signed in and a request without headers of its own.
def putBlobHandler (config : BlobConfig) (body : List UInt8) : Except ErrorResponse (Nat × BlobTable) :=
  if isValidBlobId blobId = false then .error invalidBlobId else
  if config.maxBlobSize < body.length then
    .error ⟨413,"PAYLOAD_TOO_LARGE",s!"Blob size ({body.length} bytes) exceeds maximum single blob size limit ({config.maxBlobSize} bytes)"⟩ else
  match putBlob blobs accountId blobId body config.accountBlobQuota config.maxBlobSize with
  | .ok stored => .ok stored
  | .error (.blobSizeExceeded max actual) => .error ⟨413,"PAYLOAD_TOO_LARGE",s!"Blob size ({actual} bytes) exceeds maximum limit ({max} bytes)"⟩
  | .error (.accountQuotaExceeded quota requested) =>
    .error ⟨413,"QUOTA_EXCEEDED",s!"Account storage quota exceeded: requested {requested} bytes, quota {quota} bytes"⟩

def getBlobHandler : Except ErrorResponse (List UInt8) :=
  if isValidBlobId blobId = false then .error invalidBlobId else
  match getBlob blobs accountId blobId with
  | some data => .ok data
  | none => .error ⟨404,"BLOB_NOT_FOUND","Ciphertext blob not found"⟩

end

end ZkNote.ServerBlobs
