import Mathlib.Data.UInt
import ZkNote.AttachmentManager
import ZkNote.EditAtomicity

namespace ZkNote.AttachmentReadback
open Fallible Protocol KeyedTable LocalStorage ChunkFormat AttachmentCrypto PlaintextNotes Attachments IndexedDb ServerBlobs AttachmentManager
open LocalEdits (objectKindAttachmentManifest AttachDraw Disk Edit cmdAttach)

-- One account's command line and page, and what the server keeps.
structure World where
  disk : Storage
  page : WebDb
  blobs : BlobTable

structure Account where
  id : String
  vaultKey : SecretKey
  crates : PageCrates
  codec : NoteCodec SecretKey PlaintextNote
  entropy : Nat → Entropy
  config : AttachmentManagerConfig
  account : (authToken : String) → Except ErrorResponse String
  limits : BlobConfig
  clock : (chunkIndex : Nat) → String

def Account.manager (account : Account) : Manager :=
  ⟨account.crates,some account.vaultKey,account.config,account.account,account.limits,account.clock⟩

inductive Writer where
  | cmdAttach (draw : AttachDraw) (noteId : String) (file : SourceFile) (customName customMime : Option String) (faults : Nat → Option StorageError)
  | uploadAttachment (draw : UploadDraw) (file : AttachmentFileSource) (faults : Nat → Option String)

namespace Writer

def bytes : Writer → List UInt8
  | .cmdAttach _ _ file _ _ _ => file.contents
  | .uploadAttachment _ file _ => file.bytes

def attachmentId : Writer → String
  | .cmdAttach draw _ _ _ _ _ => draw.attachmentId
  | .uploadAttachment draw _ _ => draw.attachmentId

-- What a successful return leaves.
def run (account : Account) : Writer → World → Option World
  | .cmdAttach draw noteId file customName customMime faults,w =>
    match LocalEdits.cmdAttach account.codec (attachmentCodec account.crates.toAttachmentCrates account.entropy) account.vaultKey draw noteId (.ok file)
        customName customMime ⟨w.disk,faults,0⟩ with
    | (.ok _,disk) => some {w with disk := disk.storage}
    | (.error _,_) => none
  | .uploadAttachment draw file faults,w =>
    match AttachmentManager.uploadAttachment account.manager draw file ⟨w.page,w.blobs,faults,0⟩ with
    | (.ok _,tab) => some {w with page := tab.db,blobs := tab.blobs}
    | (.error _,_) => none

-- The manifest object, where the writer stores it.
def manifestIn : Writer → World → Option StoredEncryptedObject
  | .cmdAttach draw _ _ _ _ _,w => w.disk.getObject draw.attachmentId
  | .uploadAttachment draw _ _,w => w.page.getObject draw.attachmentId

end Writer

-- Where the reader looks: in the page's database, then at the server.
def World.lookUp (w : World) (account : Account) (blobId : String) : Option (List UInt8) :=
  ((w.page.blobs.find blobId).map (·.data)).or (getBlob w.blobs account.id blobId)

-- Every chunk that the manifest counts is stored, and with the key in the
-- manifest's envelope they open to the file's bytes.
def Readable (crates : PageCrates) (vaultKey : SecretKey) (lookUp : String → Option (List UInt8)) (envelope : EncryptedEnvelope) (bytes : List UInt8) : Prop :=
  ∃ (manifest : AttachmentManifest) (attachmentKey : SecretKey) (pieces : List (List UInt8)),
    decryptAttachmentManifest crates.toAttachmentCrates envelope vaultKey = .ok (manifest,attachmentKey) ∧
    pieces.length = manifest.chunkCount.toNat ∧
    (∀ i piece, pieces[i]? = some piece → ∃ stored, lookUp (blobIdOf manifest.attachmentId i) = some stored ∧
      decryptAttachmentChunk crates (some vaultKey) stored (crates.base64.encodeString attachmentKey.bytes) = .ok piece) ∧
    pieces.flatten = bytes

def Published (account : Account) (writer : Writer) (w : World) : Prop :=
  ∃ stored, writer.manifestIn w = some stored ∧ stored.isDeleted = false ∧
    Readable account.crates account.vaultKey (w.lookUp account) stored.envelope writer.bytes

-- `Uuid::new_v4` and `crypto.randomUUID`: nothing is stored under the id yet.
structure Unused (account : Account) (w : World) (attachmentId : String) : Prop where
  disk : w.disk.getObject attachmentId = none
  blobs : ∀ i, w.lookUp account (blobIdOf attachmentId i) = none

variable {α β : Type} {crates : PageCrates} {vaultKey : SecretKey} {tab tab' : Tab} {a : α} {b : β} {w w' : World}

-- Scripts that returned.
theorem script_bind {x : Script α} {f : α → Script β} (ran : x tab = (.ok a,tab')) : (x >>= f) tab = f a tab' := by
  simp only [bind,ran]

theorem script_error {x : Script α} {f : α → Script β} {e : String} (failed : x tab = (.error e,tab')) : (x >>= f) tab = (.error e,tab') := by
  simp only [bind,failed]

theorem script_done {x : Script α} {f : α → Script β} (done : (x >>= f) tab = (.ok b,tab')) : ∃ a mid, x tab = (.ok a,mid) ∧ f a mid = (.ok b,tab') := by
  cases first : x tab with
  | mk result mid =>
      cases result with
      | error e =>
          rw [script_error first] at done
          cases done
      | ok a =>
          rw [script_bind first] at done
          exact ⟨a,mid,rfl,done⟩

theorem call_done {step : Tab → Except String (α × WebDb × BlobTable)} (done : call step tab = (.ok a,tab')) :
    step tab = .ok (a,tab'.db,tab'.blobs) := by
  unfold call at done
  split at done
  · cases done
  · split at done
    · cases done
    · rename_i stepped
      cases done
      exact stepped

theorem ask_done {answer : Except String α} (done : ask answer tab = (.ok a,tab')) : answer = .ok a ∧ tab'.db = tab.db := by
  have stepped := call_done done
  cases answer with
  | error e => cases stepped
  | ok a' =>
      obtain ⟨rfl,db,_⟩ : a' = a ∧ tab.db = tab'.db ∧ tab.blobs = tab'.blobs := by simpa [Except.map] using stepped
      exact ⟨rfl,db.symm⟩

theorem db_done {step : WebDb → α × WebDb} (done : onDb step tab = (.ok a,tab')) : a = (step tab.db).1 ∧ tab'.db = (step tab.db).2 := by
  obtain ⟨value,db,_⟩ : (step tab.db).1 = a ∧ (step tab.db).2 = tab'.db ∧ tab.blobs = tab'.blobs := by simpa using call_done done
  exact ⟨value.symm,db.symm⟩

theorem request_done {m : Manager} {token : String} {failed : ErrorResponse → String} {handler : BlobTable → String → Except ErrorResponse (α × BlobTable)}
    (done : request m token failed handler tab = (.ok a,tab')) : tab'.db = tab.db := by
  have stepped := call_done done
  split at stepped
  · cases stepped
  · split at stepped
    · cases stepped
    · obtain ⟨_,db,_⟩ : _ ∧ tab.db = tab'.db ∧ _ := by simpa using stepped
      exact db.symm

-- What one side encrypts the other opens.
section
variable {attachmentKey : SecretKey} {nonce payloadNonce wrapNonce : Nonce} {bytes stored : List UInt8} {attachmentId : String} {i n : Nat}
  {manifest : AttachmentManifest} {envelope : EncryptedEnvelope}

theorem key_read (lawful : crates.base64.Lawful) (attachmentKey : SecretKey) :
    readKey crates (crates.base64.encodeString attachmentKey.bytes) = .ok attachmentKey := by
  unfold readKey
  rw [lawful.decodeVec]
  show (SecretKey.fromSlice attachmentKey.bytes).mapError _ = _
  rw [from_slice]
  rfl

theorem chunk_opens (lawful : crates.toAttachmentCrates.Lawful) (short : attachmentId.utf8ByteSize < 2^16) (small : bytes.length ≤ maxAttachmentSize)
    (done : encryptAttachmentChunk crates (some vaultKey) nonce bytes attachmentId i n (crates.base64.encodeString attachmentKey.bytes) = .ok stored) :
    decryptAttachmentChunk crates (some vaultKey) stored (crates.base64.encodeString attachmentKey.bytes) = .ok bytes := by
  unfold encryptAttachmentChunk at done
  obtain ⟨_,done⟩ := passed done
  rw [key_read lawful.crypto.base64] at done
  obtain ⟨_,same,done⟩ := bind_done done
  cases same
  obtain ⟨chunk,made,written⟩ := bind_done done
  have opens := chunk_decrypted lawful.crypto (mapped_done made)
  obtain ⟨ct,is,rfl⟩ := sealed_as (mapped_done made)
  have tagged := lawful.crypto.cipher.tagged _ _ _ _ _ is
  have limit : maxAttachmentSize = 104857600 := rfl
  have shortCt : ct.length < 2^32 := by omega
  obtain ⟨again,wrote,reads⟩ := read_back lawful.crypto.base64 32 ⟨attachmentChunkVersionV1,attachmentId,i.toUInt32,n.toUInt32,
    crates.base64.encodeString nonce.bytes,crates.base64.encodeString ct⟩ nonce.sized rfl rfl short shortCt (by dsimp only; omega)
  obtain rfl : again = stored := by
    have written := mapped_done written
    rw [wrote] at written
    exact Except.ok.inj written
  unfold decryptAttachmentChunk
  rw [if_neg (by simp),key_read lawful.crypto.base64]
  dsimp only [bind,Except.bind]
  rw [reads]
  show (decryptChunk crates.toCryptoCrates _ attachmentKey).mapError _ = _
  rw [opens]
  rfl

theorem manifest_opens (lawful : crates.toAttachmentCrates.Lawful)
    (done : encryptAttachmentManifest crates.toAttachmentCrates payloadNonce wrapNonce manifest attachmentKey vaultKey = .ok envelope) :
    decryptAttachmentManifest crates.toAttachmentCrates envelope vaultKey = .ok (manifest,attachmentKey) := by
  unfold encryptAttachmentManifest at done
  obtain ⟨json,written,done⟩ := bind_done done
  obtain ⟨payload,sealedPayload,done⟩ := bind_done done
  obtain ⟨wrapped,sealedKey,done⟩ := bind_done done
  cases done
  have unwrapped := attachment_key_unwrapped lawful.crypto (mapped_done sealedKey)
  have opened := payload_decrypted lawful.crypto (mapped_done sealedPayload)
  unfold decryptAttachmentManifest
  rw [if_neg (by simp),if_neg (by simp),unwrapped]
  show ((decryptObjectPayload crates.toCryptoCrates _ attachmentKey _ _ _).mapError _ >>= _) = _
  rw [opened]
  show ((crates.fromJson json).mapError _ >>= _) = _
  rw [lawful.json _ _ (mapped_done written)]
  show (if manifest.attachmentId ≠ manifest.attachmentId then _ else _) = _
  rw [if_neg (by simp)]
  rfl

end

-- Blob ids of one attachment differ in their numbers.
theorem blob_ids {attachmentId : String} {i j : Nat} (same : blobIdOf attachmentId i = blobIdOf attachmentId j) : i = j := by
  have lists := congrArg String.toList same
  simp only [blobIdOf,String.toList_append,toString,Nat.toList_repr] at lists
  have digits := List.append_cancel_left lists
  rw [← Nat.ofDigitChars_ten_toDigits (n := i),digits,Nat.ofDigitChars_ten_toDigits]

-- The pieces of a file, which together are the file.
section
variable {bytes : List UInt8} {chunkSize : Nat}

def piecesOf (bytes : List UInt8) (chunkSize count : Nat) : List (List UInt8) := (List.range count).map (chunkAt bytes chunkSize)

theorem pieces_taken (bytes : List UInt8) (chunkSize count : Nat) : (piecesOf bytes chunkSize count).flatten = bytes.take (count*chunkSize) := by
  induction count with
  | zero => rw [Nat.zero_mul,List.take_zero]; rfl
  | succ count ih =>
      have more : count*chunkSize+chunkSize = (count+1)*chunkSize := (Nat.succ_mul count chunkSize).symm
      have last : chunkAt bytes chunkSize count = (bytes.take ((count+1)*chunkSize)).drop (count*chunkSize) := by
        rw [chunkAt,more,List.take_eq_take_min (i := (count+1)*chunkSize)]
      have first : bytes.take (count*chunkSize) = (bytes.take ((count+1)*chunkSize)).take (count*chunkSize) := by
        rw [List.take_take,Nat.min_eq_left (by omega)]
      unfold piecesOf at ih ⊢
      rw [List.range_succ,List.map_append,List.flatten_append,ih,List.map_singleton,List.flatten_singleton,last,first,List.take_append_drop]

theorem pieces_whole (positive : 0 < chunkSize) : (piecesOf bytes chunkSize (totalChunksOf bytes.length chunkSize)).flatten = bytes := by
  rw [pieces_taken]
  refine List.take_of_length_le ?_
  unfold totalChunksOf
  split
  · omega
  · have enough := Nat.div_add_mod (bytes.length+chunkSize-1) chunkSize
    have rest := Nat.mod_lt (bytes.length+chunkSize-1) positive
    rw [Nat.mul_comm]
    omega

theorem piece_small (i : Nat) : (chunkAt bytes chunkSize i).length ≤ bytes.length := by
  rw [chunkAt,List.length_drop,List.length_take]
  omega

theorem piece_empty (empty : bytes.length = 0) (i : Nat) : chunkAt bytes chunkSize i = [] :=
  List.eq_nil_of_length_eq_zero (by have small := @piece_small bytes chunkSize i; omega)

end

-- The upload's loop: each chunk of its range is stored in the page's database and
-- opens to its piece; other blobs stay.
theorem chunks_uploaded {account : Account} (lawful : account.crates.toAttachmentCrates.Lawful) {draw : UploadDraw} {bytes : List UInt8}
    (small : bytes.length ≤ maxAttachmentSize) {chunkSize total left first : Nat}
    (done : uploadChunks account.manager draw bytes chunkSize total (account.crates.base64.encodeString draw.attachmentKey.bytes) left first tab =
      (.ok (),tab')) :
    (∀ i, first ≤ i → i < first+left → ∃ stored, (tab'.db.blobs.find (blobIdOf draw.attachmentId i)).map (·.data) = some stored ∧
      decryptAttachmentChunk account.crates (some account.vaultKey) stored (account.crates.base64.encodeString draw.attachmentKey.bytes) =
        .ok (chunkAt bytes chunkSize i)) ∧
    ∀ i < first, tab'.db.blobs.find (blobIdOf draw.attachmentId i) = tab.db.blobs.find (blobIdOf draw.attachmentId i) := by
  induction left generalizing first tab with
  | zero =>
      cases done
      exact ⟨fun i low high => absurd high (by omega),fun _ _ => rfl⟩
  | succ left ih =>
      unfold uploadChunks at done
      obtain ⟨stored,one,encrypted,done⟩ := script_done done
      obtain ⟨_,two,put,done⟩ := script_done done
      obtain ⟨encrypts,sameDb⟩ := ask_done encrypted
      obtain ⟨_,putDb⟩ := db_done put
      have opens : decryptAttachmentChunk account.crates (some account.vaultKey) stored
          (account.crates.base64.encodeString draw.attachmentKey.bytes) = .ok (chunkAt bytes chunkSize first) := by
        have piece : (if bytes.length = 0 then [] else chunkAt bytes chunkSize first) = chunkAt bytes chunkSize first := by
          split
          · rename_i empty
            exact (piece_empty empty first).symm
          · rfl
        rw [piece] at encrypts
        exact chunk_opens lawful draw.short (piece_small first |>.trans small) encrypts
      -- The server's answer changes nothing in the page's database.
      obtain ⟨three,threeDb,rest⟩ : ∃ three, three.db = two.db ∧ uploadChunks account.manager draw bytes chunkSize total
          (account.crates.base64.encodeString draw.attachmentKey.bytes) left (first+1) three = (.ok (),tab') := by
        cases online : account.manager.config.online with
        | none =>
            rw [online] at done
            exact ⟨two,rfl,done⟩
        | some token =>
            rw [online] at done
            obtain ⟨_,three,uploaded,done⟩ := script_done done
            exact ⟨three,request_done uploaded,done⟩
      obtain ⟨later,kept⟩ := ih rest
      have here : (three.db.blobs.find (blobIdOf draw.attachmentId first)).map (·.data) = some stored := by
        rw [threeDb,putDb]
        exact congrArg (Option.map (fun row : IndexedDb.BlobRow => row.data)) (find_upsert_same one.db.blobs _)
      refine ⟨fun i low high => ?_,fun i below => ?_⟩
      · by_cases isFirst : i = first
        · subst isFirst
          exact ⟨stored,(congrArg (Option.map (fun row : IndexedDb.BlobRow => row.data)) (kept i (Nat.lt_succ_self i))).trans here,opens⟩
        · exact later i (by omega) (by omega)
      · have other : blobIdOf draw.attachmentId first ≠ blobIdOf draw.attachmentId i := fun same => absurd (blob_ids same) (by omega)
        rw [kept i (by omega),threeDb,putDb]
        exact (find_upsert_other one.db.blobs _ other).trans (by rw [sameDb])

theorem parsed {dto : AttachmentManifestDto} {manifest : AttachmentManifest} (done : dto.parse crates = .ok manifest) :
    AttachmentManifestDto.ofManifest manifest = dto := by
  unfold AttachmentManifestDto.parse at done
  split at done
  · rename_i fits
    cases done
    unfold AttachmentManifestDto.ofManifest
    dsimp only
    rw [UInt32.toNat_ofNat_of_lt' fits.2.1,UInt32.toNat_ofNat_of_lt' fits.2.2]
  · cases done

theorem chunk_size_positive (config : AttachmentManagerConfig) : 0 < config.chunkSizeOrDefault := by
  unfold AttachmentManagerConfig.chunkSizeOrDefault
  cases config.chunkSize with
  | none => decide
  | some chunkSize =>
      cases chunkSize with
      | zero => decide
      | succ n => exact Nat.succ_pos n

def dtoOf (account : Account) (draw : UploadDraw) (file : AttachmentFileSource) : AttachmentManifestDto :=
  ⟨draw.attachmentId,WebMerge.orElse file.name "attachment",WebMerge.orElse file.type "application/octet-stream",file.bytes.length,
    totalChunksOf file.bytes.length account.config.chunkSizeOrDefault,account.config.chunkSizeOrDefault,
    some (computeContentHash account.crates.toAttachmentCrates file.bytes)⟩

-- What an upload that returned has stored in the page's database.
theorem upload_stored {account : Account} (lawful : account.crates.toAttachmentCrates.Lawful) {draw : UploadDraw} {file : AttachmentFileSource}
    {faults : Nat → Option String} (ran : (Writer.uploadAttachment draw file faults).run account w = some w') :
    ∃ envelope manifest, w'.page.getObject draw.attachmentId = some ⟨draw.attachmentId,objectKindAttachmentManifest,1,0,false,envelope,draw.now⟩ ∧
      decryptAttachmentManifest account.crates.toAttachmentCrates envelope account.vaultKey = .ok (manifest,draw.attachmentKey) ∧
      AttachmentManifestDto.ofManifest manifest = dtoOf account draw file ∧
      ∀ i < (dtoOf account draw file).chunkCount, ∃ stored, (w'.page.blobs.find (blobIdOf draw.attachmentId i)).map (·.data) = some stored ∧
        decryptAttachmentChunk account.crates (some account.vaultKey) stored (account.crates.base64.encodeString draw.attachmentKey.bytes) =
          .ok (chunkAt file.bytes account.config.chunkSizeOrDefault i) := by
  unfold Writer.run at ran
  dsimp only at ran
  split at ran
  · rename_i dto tab' done
    cases ran
    unfold uploadAttachment at done
    split at done
    · cases done
    · rename_i fits
      obtain ⟨keyText,one,drawn,done⟩ := script_done done
      obtain ⟨fullBuffer,two,read,done⟩ := script_done done
      obtain ⟨contentHash,three,hashed,done⟩ := script_done done
      obtain ⟨_,four,looped,done⟩ := script_done done
      obtain ⟨envelope,five,encrypted,done⟩ := script_done done
      obtain ⟨_,six,stored,done⟩ := script_done done
      obtain ⟨_,seven,queued,done⟩ := script_done done
      cases done
      cases (ask_done drawn).1
      cases (ask_done read).1
      cases (ask_done hashed).1
      obtain ⟨chunks,_⟩ := chunks_uploaded lawful (Nat.le_of_not_lt fits) looped
      obtain ⟨encrypts,fiveDb⟩ := ask_done encrypted
      obtain ⟨_,sixDb⟩ := db_done stored
      obtain ⟨_,sevenDb⟩ := db_done queued
      have sameBlobs : tab'.db.blobs = four.db.blobs := by rw [sevenDb,sixDb,fiveDb]; rfl
      unfold encryptManifest at encrypts
      dsimp only [Account.manager] at encrypts
      obtain ⟨manifest,made,encrypts⟩ := bind_done encrypts
      rw [key_read lawful.crypto.base64] at encrypts
      refine ⟨envelope,manifest,?_,manifest_opens lawful (mapped_done encrypts),parsed (mapped_done made),fun i inside => ?_⟩
      · show tab'.db.objects.find draw.attachmentId = _
        rw [sevenDb,sixDb]
        exact find_upsert_same five.db.objects _
      · rw [show ({w with page := tab'.db,blobs := tab'.blobs} : World).page.blobs = four.db.blobs from sameBlobs]
        exact chunks i (Nat.zero_le i) (by rw [Nat.zero_add]; exact inside)
  · cases ran

theorem upload_published {account : Account} (lawful : account.crates.toAttachmentCrates.Lawful) {draw : UploadDraw} {file : AttachmentFileSource}
    {faults : Nat → Option String} (ran : (Writer.uploadAttachment draw file faults).run account w = some w') :
    Published account (.uploadAttachment draw file faults) w' := by
  obtain ⟨envelope,manifest,held,opens,is,chunks⟩ := upload_stored lawful ran
  have idIs : manifest.attachmentId = draw.attachmentId := congrArg AttachmentManifestDto.attachmentId is
  have countIs : manifest.chunkCount.toNat = (dtoOf account draw file).chunkCount := congrArg AttachmentManifestDto.chunkCount is
  refine ⟨_,held,rfl,manifest,draw.attachmentKey,piecesOf file.bytes account.config.chunkSizeOrDefault (dtoOf account draw file).chunkCount,opens,?_,?_,
    pieces_whole (chunk_size_positive account.config)⟩
  · rw [piecesOf,List.length_map,List.length_range,countIs]
  · intro i piece at_
    rw [piecesOf,List.getElem?_map] at at_
    obtain ⟨i',inside,rfl⟩ := Option.map_eq_some_iff.mp at_
    obtain ⟨below,same⟩ := List.getElem?_eq_some_iff.mp inside
    rw [List.getElem_range] at same
    rw [List.length_range] at below
    subst same
    obtain ⟨blob,found,decrypts⟩ := chunks i below
    refine ⟨blob,?_,decrypts⟩
    rw [World.lookUp,idIs,found]
    rfl

-- A page whose calls do not fail downloads what it has stored.
theorem call_calm {step : Tab → Except String (α × WebDb × BlobTable)} {db : WebDb} {blobs : BlobTable} (calm : ∀ n, tab.faults n = none)
    (done : step tab = .ok (a,db,blobs)) : call step tab = (.ok a,{tab with db := db,blobs := blobs,calls := tab.calls+1}) := by
  unfold call
  rw [calm,done]

theorem ask_calm (tab : Tab) (calm : ∀ n, tab.faults n = none) {answer : Except String α} (is : answer = .ok a) :
    ask answer tab = (.ok a,{tab with calls := tab.calls+1}) := by
  subst is
  exact call_calm calm rfl

theorem db_read (tab : Tab) (calm : ∀ n, tab.faults n = none) (look : WebDb → α) : onDb (fun db => (look db,db)) tab = (.ok (look tab.db),{tab with calls := tab.calls+1}) :=
  call_calm calm rfl

theorem chunks_downloaded {m : Manager} {attachmentId keyText : String} {piece : Nat → List UInt8} (left first : Nat) (calm : ∀ n, tab.faults n = none)
    (stored : ∀ i, first ≤ i → i < first+left → ∃ blob, (tab.db.blobs.find (blobIdOf attachmentId i)).map (·.data) = some blob ∧
      decryptAttachmentChunk m.crates m.session blob keyText = .ok (piece i)) :
    ∃ calls, downloadChunks m attachmentId keyText left first tab = (.ok ((List.range' first left).map piece),{tab with calls := calls}) := by
  induction left generalizing first tab with
  | zero => exact ⟨tab.calls,rfl⟩
  | succ left ih =>
      obtain ⟨blob,found,opens⟩ := stored first (Nat.le_refl first) (by omega)
      obtain ⟨calls,later⟩ := @ih {tab with calls := tab.calls+1+1} (first+1) calm (fun i low high => stored i (by omega) (by omega))
      refine ⟨calls,?_⟩
      have fetched : fetchChunk m (blobIdOf attachmentId first) first tab = (.ok blob,{tab with calls := tab.calls+1}) := by
        have read := db_read tab calm (fun db => (db.blobs.find (blobIdOf attachmentId first)).map (·.data))
        rw [found] at read
        exact script_bind read
      exact (script_bind fetched).trans ((script_bind (ask_calm ({tab with calls := tab.calls+1}) calm opens)).trans (script_bind later))

theorem upload_downloads {account : Account} (lawful : account.crates.toAttachmentCrates.Lawful) {draw : UploadDraw} {file : AttachmentFileSource}
    {faults : Nat → Option String} (ran : (Writer.uploadAttachment draw file faults).run account w = some w') (calls : Nat) :
    (downloadAttachment account.manager draw.attachmentId ⟨w'.page,w'.blobs,fun _ => none,calls⟩).1 =
      .ok ⟨file.bytes,WebMerge.orElse file.name "attachment",WebMerge.orElse file.type "application/octet-stream",file.bytes.length⟩ := by
  obtain ⟨envelope,manifest,held,opens,is,chunks⟩ := upload_stored lawful ran
  have calm : ∀ n, (fun _ : Nat => (none : Option String)) n = none := fun _ => rfl
  have decrypted : decryptManifest account.crates (some account.vaultKey) envelope =
      .ok (dtoOf account draw file,account.crates.base64.encodeString draw.attachmentKey.bytes) := by
    show ((decryptAttachmentManifest account.crates.toAttachmentCrates envelope account.vaultKey).mapError _ >>= _) = _
    rw [opens,← is]
    rfl
  obtain ⟨later,downloaded⟩ := @chunks_downloaded ⟨w'.page,w'.blobs,fun _ => none,calls+1+1⟩ account.manager draw.attachmentId
    (account.crates.base64.encodeString draw.attachmentKey.bytes) (chunkAt file.bytes account.config.chunkSizeOrDefault)
    (dtoOf account draw file).chunkCount 0 calm (fun i _ below => chunks i (by rw [Nat.zero_add] at below; exact below))
  have whole : ((List.range' 0 (dtoOf account draw file).chunkCount).map (chunkAt file.bytes account.config.chunkSizeOrDefault)).flatten = file.bytes := by
    rw [← List.range_eq_range']
    exact pieces_whole (chunk_size_positive account.config)
  have read := db_read (⟨w'.page,w'.blobs,fun _ => none,calls⟩) calm (fun db => db.getObject draw.attachmentId)
  rw [held] at read
  unfold downloadAttachment
  refine (congrArg Prod.fst (script_bind read)).trans ?_
  refine (congrArg Prod.fst (script_bind (ask_calm (⟨w'.page,w'.blobs,fun _ => none,calls+1⟩) calm decrypted))).trans ?_
  refine (congrArg Prod.fst (script_bind downloaded)).trans ?_
  rw [whole]
  show ((if computeContentHash account.crates.toAttachmentCrates file.bytes = "" then _ else _ : Script DownloadedAttachment) _).1 = _
  split
  · rfl
  · refine (congrArg Prod.fst (script_bind (ask_calm (⟨w'.page,w'.blobs,fun _ => none,later⟩) calm rfl))).trans ?_
    show ((if computeContentHash account.crates.toAttachmentCrates file.bytes ≠ computeContentHash account.crates.toAttachmentCrates file.bytes then _
      else _ : Script DownloadedAttachment) _).1 = _
    rw [if_neg (by simp)]
    rfl

-- The command line: edits that returned.
theorem edit_done {x : Edit α} {f : α → Edit β} {d d' : Disk} (done : (x >>= f) d = (.ok b,d')) : ∃ a mid, x d = (.ok a,mid) ∧ f a mid = (.ok b,d') := by
  cases first : x d with
  | mk result mid =>
      cases result with
      | error e =>
          rw [EditCharts.bind_error first] at done
          cases done
      | ok a =>
          rw [EditCharts.bind_ok first] at done
          exact ⟨a,mid,rfl,done⟩

theorem core_done {result : Except String α} {d d' : Disk} (done : LocalEdits.core result d = (.ok a,d')) : result = .ok a ∧ d' = d := by
  unfold LocalEdits.core LocalEdits.check at done
  cases result with
  | error e => cases done
  | ok a' =>
      cases done
      exact ⟨rfl,rfl⟩

theorem storage_done {step : Storage → Except StorageError (α × Storage)} {d d' : Disk} (done : LocalEdits.call step d = (.ok a,d')) :
    step d.storage = .ok (a,d'.storage) := by
  unfold LocalEdits.call at done
  split at done
  · cases done
  · split at done
    · cases done
    · rename_i stepped
      cases done
      exact stepped

theorem record_done {object : StoredEncryptedObject} {mutation : PendingMutation} {d d' : Disk}
    (done : LocalEdits.record object mutation d = (.ok (),d')) (id : String) :
    d'.storage.getObject id = if id = object.objectId then some object else d.storage.getObject id := by
  obtain ⟨_,mid,put,queued⟩ := edit_done done
  obtain putIs : d.storage.putObject object = mid.storage := by simpa using storage_done put
  have queuedIs := storage_done queued
  have objects : d'.storage.objects = mid.storage.objects := by
    unfold Storage.enqueueMutation at queuedIs
    split at queuedIs
    · cases queuedIs
    · simp only [Except.map,Except.ok.injEq,Prod.mk.injEq,true_and] at queuedIs
      rw [← queuedIs]
  show d'.storage.objects.find id = if id = object.objectId then some object else d.storage.objects.find id
  rw [objects,← putIs]
  by_cases same : id = object.objectId
  · rw [if_pos same,same]
    exact find_upsert_same d.storage.objects object
  · rw [if_neg same]
    exact find_upsert_other d.storage.objects object (Ne.symm same)

-- What an edit's preparation finds when it returns.
theorem prepares_done {x : Edit α} {s : Storage} {n : Nat} {found : Option α} (prepares : EditCharts.Prepares x s n found)
    {f : Nat → Option StorageError} {c : Nat} {d : Disk} (done : x ⟨s,f,c⟩ = (.ok a,d)) : found = some a ∧ EditCharts.heads d.storage = EditCharts.heads s := by
  by_cases stops : found = none ∨ ∃ k < n, (f (c+k)).isSome = true
  · obtain ⟨e,d',refused,_⟩ := prepares.stopped f c stops
    rw [refused] at done
    cases done
  · obtain ⟨some_,calm⟩ := not_or.mp stops
    obtain ⟨a',is⟩ := Option.ne_none_iff_exists'.mp some_
    obtain ⟨t,ran,same⟩ := prepares.ready f c a' is (fun k inside => by
      cases faulty : f (c+k) with
      | none => rfl
      | some e => exact absurd ⟨k,inside,by rw [faulty]; rfl⟩ calm)
    rw [ran] at done
    cases done
    exact ⟨is,same⟩

theorem attach_stored {account : Account} {draw : AttachDraw} {noteId : String} {file : SourceFile} {customName customMime : Option String}
    {faults : Nat → Option StorageError} (unused : w.disk.getObject draw.attachmentId = none)
    (ran : (Writer.cmdAttach draw noteId file customName customMime faults).run account w = some w') :
    w'.page = w.page ∧ w'.blobs = w.blobs ∧ ∃ envelope manifest chunks,
      w'.disk.getObject draw.attachmentId = some ⟨draw.attachmentId,objectKindAttachmentManifest,initialObjectRevision,initialServerSeq,false,
        envelope,draw.now⟩ ∧
      encryptAttachmentFile account.crates.toAttachmentCrates (account.entropy draw.seed).nonces file draw.attachmentId
        (account.entropy draw.seed).attachmentKey customName customMime none = .ok (manifest,chunks) ∧
      encryptAttachmentManifest account.crates.toAttachmentCrates (account.entropy draw.seed).payloadNonce (account.entropy draw.seed).wrapNonce manifest
        (account.entropy draw.seed).attachmentKey account.vaultKey = .ok envelope := by
  unfold Writer.run at ran
  dsimp only at ran
  split at ran
  · rename_i id disk done
    cases ran
    refine ⟨rfl,rfl,?_⟩
    rw [EditAtomicity.attach_read] at done
    obtain ⟨stored,one,found,done⟩ := edit_done done
    cases finds : Notes.findNoteObject w.disk noteId false with
    | error e => cases (prepares_done (EditAtomicity.prepares_missing finds) found).1
    | ok held =>
        obtain ⟨is,_⟩ := prepares_done (EditAtomicity.prepares_found finds) found
        cases is
        have apart : draw.attachmentId ≠ stored.objectId := by
          intro same
          rw [same,(NoteEdits.note_found finds).1] at unused
          cases unused
        unfold EditAtomicity.attachTo at done
        obtain ⟨note,two,_,done⟩ := edit_done done
        obtain ⟨envelope,three,manifested,done⟩ := edit_done done
        obtain ⟨_,four,recorded,done⟩ := edit_done done
        obtain ⟨attached,five,added,done⟩ := edit_done done
        obtain ⟨noteEnvelope,six,encrypted,done⟩ := edit_done done
        obtain ⟨_,seven,updated,done⟩ := edit_done done
        cases done
        obtain ⟨manifested,_⟩ := core_done manifested
        obtain ⟨_,fiveIs⟩ := core_done added
        obtain ⟨_,sixIs⟩ := core_done encrypted
        obtain ⟨⟨manifest,chunks⟩,made,sealed_⟩ := bind_done (mapped_done manifested)
        refine ⟨envelope,manifest,chunks,?_,made,sealed_⟩
        refine (record_done updated _).trans ((if_neg apart).trans ?_)
        rw [sixIs,fiveIs]
        exact (record_done recorded _).trans (if_pos rfl)
  · cases ran

theorem count_positive {size chunkSize : Nat} (small : size ≤ maxAttachmentSize) (positive : 0 < chunkSize) :
    0 < (calculateChunkCount size chunkSize).toNat := by
  have limit : maxAttachmentSize = 104857600 := rfl
  unfold calculateChunkCount
  split
  · decide
  · have one : 1 ≤ (size+chunkSize-1) / chunkSize := (Nat.one_le_div_iff positive).mpr (by omega)
    have few : (size+chunkSize-1) / chunkSize ≤ size := (Nat.div_le_iff_le_mul_add_pred positive).mpr (by
      have grows := Nat.le_mul_of_pos_left size positive
      omega)
    rw [UInt32.toNat_ofNat_of_lt' (show _ < 2^32 by omega)]
    exact one

-- A manifest that is made names the attachment and counts at least one chunk.
theorem stream_manifest {σ : Type} {nonces : Nat → Nonce} {reader : Reader} {totalSize : Nat} {params : AttachmentEncryptParams} {key : SecretKey}
    {onChunk : σ → EncryptedChunk → Except Attachments.CoreError σ} {sink sink' : σ} {manifest : AttachmentManifest}
    (done : encryptAttachmentStreamWithSink crates.toAttachmentCrates nonces reader totalSize params key onChunk sink = .ok (manifest,sink')) :
    manifest.attachmentId = params.attachmentId ∧ 0 < manifest.chunkCount.toNat := by
  unfold encryptAttachmentStreamWithSink at done
  obtain ⟨fits,done⟩ := passed done
  dsimp only at done
  split at done
  · obtain ⟨_,_,done⟩ := bind_done done
    obtain ⟨_,_,done⟩ := bind_done done
    cases done
    exact ⟨rfl,Nat.one_pos⟩
  · obtain ⟨st,_,done⟩ := bind_done done
    obtain ⟨_,done⟩ := passed done
    cases done
    exact ⟨rfl,count_positive (Nat.le_of_not_lt fits) params.positive⟩

theorem attach_unreadable {account : Account} (lawful : account.crates.toAttachmentCrates.Lawful) {draw : AttachDraw} {noteId : String}
    {file : SourceFile} {customName customMime : Option String} {faults : Nat → Option StorageError} (unused : Unused account w draw.attachmentId)
    (ran : (Writer.cmdAttach draw noteId file customName customMime faults).run account w = some w') :
    ¬Published account (.cmdAttach draw noteId file customName customMime faults) w' := by
  rintro ⟨stored,held,_,manifest,attachmentKey,pieces,opens,count,chunks,_⟩
  obtain ⟨page,blobs,envelope,made,_,is,encrypted,sealed_⟩ := attach_stored unused.disk ran
  rw [show Writer.manifestIn (.cmdAttach draw noteId file customName customMime faults) w' = w'.disk.getObject draw.attachmentId from rfl,is] at held
  cases held
  rw [manifest_opens lawful sealed_] at opens
  cases opens
  obtain ⟨idIs,positive⟩ := stream_manifest encrypted
  obtain ⟨piece,first⟩ : ∃ piece, pieces[0]? = some piece := ⟨_,List.getElem?_eq_getElem (by omega)⟩
  obtain ⟨chunk,found,_⟩ := chunks 0 piece first
  rw [idIs,show w'.lookUp account = w.lookUp account by unfold World.lookUp; rw [page,blobs]] at found
  rw [unused.blobs 0] at found
  cases found

theorem published_iff {account : Account} (lawful : account.crates.toAttachmentCrates.Lawful) {writer : Writer}
    (unused : Unused account w writer.attachmentId) (ran : writer.run account w = some w') :
    Published account writer w' ↔ ∃ draw file faults, writer = .uploadAttachment draw file faults := by
  cases writer with
  | cmdAttach draw noteId file customName customMime faults =>
      refine iff_of_false (attach_unreadable lawful unused ran) ?_
      rintro ⟨_,_,_,is⟩
      cases is
  | uploadAttachment draw file faults =>
      exact iff_of_true (upload_published lawful ran) ⟨draw,file,faults,rfl⟩

-- Small stand-ins: every byte a letter, a ciphertext that shows its text before a
-- checksum, and one manifest that can be written down.
def letters : Base64 where
  encodeString bytes := String.ofList (bytes.map (fun b => Char.ofNat b.toNat))
  decode room text := if text.length ≤ room then .ok (text.toList.map (fun c => c.toNat.toUInt8)) else .error "invalid Base64 length"
  decodeVec text := .ok (text.toList.map (fun c => c.toNat.toUInt8))

def checksum (key nonce aad msg : List UInt8) : List UInt8 := List.replicate 16 (key ++ nonce ++ aad ++ msg).sum

def checked : Cipher where
  encrypt key nonce aad msg := .ok (msg ++ checksum key nonce aad msg)
  decrypt key nonce aad ciphertext :=
    let msg := ciphertext.take (ciphertext.length-16)
    if ciphertext = msg ++ checksum key nonce aad msg then some msg else none

def standInCrates (only : AttachmentManifest) : PageCrates where
  base64 := letters
  cipher := checked
  blake2b512 bytes := [bytes.sum]
  toJson manifest := if manifest = only then .ok [123,125] else .error "not written down"
  fromJson _ := .ok only
  outOfRange _ := "invalid value"
  errorText e := e.message

theorem stand_in_lawful (only : AttachmentManifest) : (standInCrates only).toAttachmentCrates.Lawful := by
  have back : ∀ bytes : List UInt8, (bytes.map (fun b => Char.ofNat b.toNat)).map (fun c => c.toNat.toUInt8) = bytes := by
    intro bytes
    rw [List.map_map]
    refine (List.map_congr_left (fun b _ => ?_)).trans (List.map_id bytes)
    have small := b.toNat_lt
    have valid : b.toNat.isValidChar := .inl (by omega)
    show (Char.ofNat b.toNat).toNat.toUInt8 = b
    have code : (Char.ofNat b.toNat).toNat = b.toNat := by
      rw [Char.ofNat,dif_pos valid]
      rfl
    rw [code,Nat.toUInt8_eq,UInt8.ofNat_toNat]
  refine ⟨⟨⟨fun bytes room fits => ?_,fun bytes => ?_⟩,⟨fun key nonce aad msg sealed_ done => ?_,fun key nonce aad msg sealed_ done => ?_⟩⟩,
    fun manifest bytes done => ?_⟩
  · show (if (String.ofList _).length ≤ room then Except.ok (List.map _ (String.ofList _).toList) else _) = _
    rw [String.length_ofList,List.length_map,if_pos fits,String.toList_ofList,back]
  · show Except.ok (List.map _ (String.ofList _).toList) = _
    rw [String.toList_ofList,back]
  · cases done
    show (if _ then some _ else none) = some msg
    have length : (msg ++ checksum key nonce aad msg).length-16 = msg.length := by
      rw [List.length_append,checksum,List.length_replicate,Nat.add_sub_cancel]
    rw [length,List.take_left,if_pos rfl]
  · cases done
    rw [List.length_append,checksum,List.length_replicate]
  · change (if manifest = only then _ else _) = _ at done
    split at done
    · rename_i same
      rw [same]
      rfl
    · cases done

-- A note in the command line's store, and a file of two bytes.
def plainCodec : NoteCodec SecretKey PlaintextNote where
  decrypt envelope _ :=
    match (envelope.payload.ciphertext.toList.splitOn ',').map String.ofList with
    | body :: attachments => .ok ⟨noteSchemaVersionV1,"",body,[],"t0","t0",attachments⟩
    | [] => .error "empty"
  encrypt _ note _ objectId :=
    .ok ⟨envelopeVersionV1,objectId,objectKindNote,⟨"AAAA","AAAA"⟩,⟨"AAAA",String.intercalate "," (note.body :: note.attachments)⟩⟩
  build title body tags _ now := .ok ⟨noteSchemaVersionV1,title,body,tags,now,now,[]⟩
  threeWayMergeNote _ mine _ := mine
  blank := ⟨noteSchemaVersionV1,"","",[],"t0","t0",[]⟩
  createdAt note := note.createdAt
  updatedAt note := note.updatedAt

def smallKey : SecretKey := ⟨List.replicate 32 7,rfl⟩
def smallNonce : Nonce := ⟨List.replicate 24 1,rfl⟩
def smallId : String := "0d0c0b0a"

def smallAccount (manifest : AttachmentManifest) : Account where
  id := "alice"
  vaultKey := smallKey
  crates := standInCrates manifest
  codec := plainCodec
  entropy _ := ⟨smallKey,fun _ => smallNonce,smallNonce,smallNonce⟩
  config := ⟨none,none,some 1⟩
  account _ := .ok "alice"
  limits := ⟨1024,4096⟩
  clock _ := "t1"

def oneNote : World :=
  ⟨Storage.new.putObject ⟨"note",objectKindNote,1,1,false,⟨envelopeVersionV1,"note",objectKindNote,⟨"AAAA","AAAA"⟩,⟨"AAAA","body"⟩⟩,"t0"⟩,WebDb.new,.empty⟩

def attaching : Writer := .cmdAttach ⟨smallId,"mutation1","mutation2","t1","t2",0⟩ "note" ⟨some "hi.txt",[104,105],fun _ => .ok 1⟩ none none (fun _ => none)

def uploading : Writer :=
  .uploadAttachment ⟨smallId,by decide +kernel,smallKey,fun _ => smallNonce,smallNonce,smallNonce,"mutation1","t1"⟩ ⟨"hi.txt","text/plain",[104,105]⟩ (fun _ => none)

def attachedManifest : AttachmentManifest := ⟨smallId,"hi.txt","application/octet-stream",2,1,4194304,some "d1"⟩
def uploadedManifest : AttachmentManifest := ⟨smallId,"hi.txt","text/plain",2,2,1,some "d1"⟩

theorem small_unused (manifest : AttachmentManifest) : Unused (smallAccount manifest) oneNote smallId :=
  ⟨by decide +kernel,fun _ => rfl⟩

def afterwards (manifest : AttachmentManifest) (writer : Writer) : World := (writer.run (smallAccount manifest) oneNote).getD oneNote

theorem afterwards_ran {manifest : AttachmentManifest} {writer : Writer} (returns : (writer.run (smallAccount manifest) oneNote).isSome = true) :
    writer.run (smallAccount manifest) oneNote = some (afterwards manifest writer) := by
  obtain ⟨w,is⟩ := Option.isSome_iff_exists.mp returns
  rw [afterwards,is]
  rfl

theorem upload_reads_back : Published (smallAccount uploadedManifest) uploading (afterwards uploadedManifest uploading) :=
  (published_iff (stand_in_lawful _) (small_unused _) (afterwards_ran (by decide +kernel))).mpr ⟨_,_,_,rfl⟩

theorem attach_keeps_no_chunk : (attaching.run (smallAccount attachedManifest) oneNote).isSome = true ∧
    ¬Published (smallAccount attachedManifest) attaching (afterwards attachedManifest attaching) :=
  ⟨by decide +kernel,attach_unreadable (stand_in_lawful _) (small_unused _) (afterwards_ran (by decide +kernel))⟩

end ZkNote.AttachmentReadback
