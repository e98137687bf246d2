namespace ZkNote.NoteErrors

inductive NoteValidationError where
  | unsupportedSchemaVersion (version : UInt32)
  | titleTooLong (max actual : Nat)
  | bodyTooLarge (max actual : Nat)
  | tooManyTags (max actual : Nat)
  | emptyTag
  | tagTooLong (max actual : Nat)
  | invalidTag (tag : String)
  | tooManyAttachments (max actual : Nat)
  | emptyAttachmentId
  | attachmentIdTooLong (max actual : Nat)
  | invalidAttachmentId (id : String)
  | invalidTimestamp (field value details : String)
  | serializationError (message : String)
  deriving DecidableEq, Repr

-- The cryptographic crate's errors arrive as the text they print.
inductive CoreError where
  | validation (error : NoteValidationError)
  | crypto (message : String)
  deriving DecidableEq, Repr

-- `debug` is how the standard library quotes a string.
def NoteValidationError.display (debug : String → String) : NoteValidationError → String
  | .unsupportedSchemaVersion version => s!"unsupported note schema version: {version} (expected 1)"
  | .titleTooLong max actual => s!"note title exceeds maximum length ({actual} > {max} bytes)"
  | .bodyTooLarge max actual => s!"note body exceeds maximum size ({actual} > {max} bytes)"
  | .tooManyTags max actual => s!"note contains too many tags ({actual} > {max})"
  | .emptyTag => "tag cannot be empty"
  | .tagTooLong max actual => s!"tag exceeds maximum length ({actual} > {max} bytes)"
  | .invalidTag tag => s!"tag contains invalid characters: {tag}"
  | .tooManyAttachments max actual => s!"note contains too many attachments ({actual} > {max})"
  | .emptyAttachmentId => "attachment ID cannot be empty"
  | .attachmentIdTooLong max actual => s!"attachment ID exceeds maximum length ({actual} > {max} bytes)"
  | .invalidAttachmentId id => s!"attachment ID contains invalid characters: {id}"
  | .invalidTimestamp field value details => s!"invalid RFC 3339 timestamp for '{field}' ({debug value}): {details}"
  | .serializationError message => s!"note serialization error: {message}"

def CoreError.display (debug : String → String) : CoreError → String
  | .validation error => s!"note validation error: {error.display debug}"
  | .crypto message => s!"crypto error: {message}"

end ZkNote.NoteErrors
