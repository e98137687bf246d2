import ZkNote.AttachmentReadback
import ZkNote.StreamOpening

namespace ZkNote.StrictDownload
open Fallible Protocol KeyedTable LocalStorage ChunkFormat AttachmentCrypto Attachments AttachmentStreams StreamOpening IndexedDb ServerBlobs AttachmentManager
open LocalEdits (objectKindAttachmentManifest)
open AttachmentReadback (script_bind script_error)

variable {α β : Type} {m : Manager} {db : WebDb} {blobs : BlobTable} {calls : Nat}

-- What the page gets for a blob id: its own copy, or else the server's.
def served (m : Manager) (blobs : BlobTable) (blobId : String) : Option (List UInt8) :=
  match m.config.online with
  | none => none
  | some token => (m.account token).toOption.bind (fun account => (getBlobHandler blobs account blobId).toOption)

def lookUp (m : Manager) (db : WebDb) (blobs : BlobTable) (blobId : String) : Option (List UInt8) :=
  ((db.blobs.find blobId).map (·.data)).or (served m blobs blobId)

-- A tab none of whose calls fails of itself.
def quiet (db : WebDb) (blobs : BlobTable) (calls : Nat) : Tab := ⟨db,blobs,fun _ => none,calls⟩

theorem ask_quiet (answer : Except String α) : ask answer (quiet db blobs calls) = (answer,quiet db blobs (calls+1)) := by
  cases answer <;> rfl

theorem db_quiet (step : WebDb → α × WebDb) : onDb step (quiet db blobs calls) = (.ok (step db).1,quiet (step db).2 blobs (calls+1)) := rfl

-- A request for a blob, and the copy that is kept of its answer.
theorem request_quiet (token blobId : String) :
    (downloadCiphertextBlobFromServer m token blobId (quiet db blobs calls)).2 = quiet db blobs (calls+1) ∧
      (downloadCiphertextBlobFromServer m token blobId (quiet db blobs calls)).1.toOption =
        (m.account token).toOption.bind (fun account => (getBlobHandler blobs account blobId).toOption) := by
  unfold downloadCiphertextBlobFromServer request call
  cases m.account token with
  | error e => exact ⟨rfl,rfl⟩
  | ok account =>
      dsimp only [quiet]
      have bound : (Except.ok account : Except ErrorResponse String).toOption.bind (fun account => (getBlobHandler blobs account blobId).toOption) =
          (getBlobHandler blobs account blobId).toOption := rfl
      rw [bound]
      cases getBlobHandler blobs account blobId with
      | error e => exact ⟨rfl,rfl⟩
      | ok data => exact ⟨rfl,rfl⟩

theorem kept_copy {blobId : String} {data : List UInt8} (missing : db.blobs.find blobId = none) (answer : served m blobs blobId = some data)
    (size : Nat) (createdAt : String) (id : String) :
    lookUp m {db with blobs := db.blobs.upsert ⟨blobId,data,size,createdAt⟩} blobs id = lookUp m db blobs id := by
  unfold lookUp
  rw [find_upsert]
  split
  · rename_i same
    obtain rfl : blobId = id := same
    rw [missing,answer]
    rfl
  · rfl

theorem fetch_chunk (m : Manager) (db : WebDb) (blobs : BlobTable) (calls : Nat) (blobId : String) (chunkIndex : Nat) :
    ∃ result db' calls', fetchChunk m blobId chunkIndex (quiet db blobs calls) = (result,quiet db' blobs calls') ∧
      result.toOption = lookUp m db blobs blobId ∧ ∀ id, lookUp m db' blobs id = lookUp m db blobs id := by
  unfold fetchChunk
  have got : AttachmentManager.getBlob blobId (quiet db blobs calls) = (.ok ((db.blobs.find blobId).map (·.data)),quiet db blobs (calls+1)) := rfl
  rw [script_bind got]
  cases found : db.blobs.find blobId with
  | some row => exact ⟨.ok row.data,db,calls+1,rfl,by rw [lookUp,found]; rfl,fun _ => rfl⟩
  | none =>
      dsimp only [Option.map]
      cases online : m.config.online with
      | none => exact ⟨.error _,db,calls+1,rfl,by rw [lookUp,found,served,online]; rfl,fun _ => rfl⟩
      | some token =>
          obtain ⟨still,answer⟩ := @request_quiet m db blobs (calls+1) token blobId
          have same : served m blobs blobId = (downloadCiphertextBlobFromServer m token blobId (quiet db blobs (calls+1))).1.toOption := by
            rw [answer,served,online]
          cases result : (downloadCiphertextBlobFromServer m token blobId (quiet db blobs (calls+1))).1 with
          | error e =>
              have whole : downloadCiphertextBlobFromServer m token blobId (quiet db blobs (calls+1)) = (.error e,quiet db blobs (calls+2)) :=
                Prod.ext result still
              rw [result] at same
              exact ⟨.error e,db,calls+2,by dsimp only; rw [script_error whole],by rw [lookUp,found,same]; rfl,fun _ => rfl⟩
          | ok data =>
              have whole : downloadCiphertextBlobFromServer m token blobId (quiet db blobs (calls+1)) = (.ok data,quiet db blobs (calls+2)) :=
                Prod.ext result still
              rw [result] at same
              refine ⟨.ok data,_,calls+3,by dsimp only; rw [script_bind whole]; rfl,by rw [lookUp,found,same]; rfl,?_⟩
              exact kept_copy found same data.length (m.clock chunkIndex)

-- The chunk that some bytes hold, and what it opens to.
def parseChunk (crates : PageCrates) (stored : List UInt8) : Option EncryptedChunk :=
  (EncryptedChunk.fromBytes crates.base64 32 stored).bind Except.toOption

def openChunk (crates : PageCrates) (key : SecretKey) (chunk : EncryptedChunk) : Option (List UInt8) :=
  (decryptChunk crates.toCryptoCrates chunk key).toOption

theorem chunk_read {crates : PageCrates} (lawful : crates.base64.Lawful) (vaultKey key : SecretKey) (stored : List UInt8) :
    (decryptAttachmentChunk crates (some vaultKey) stored (crates.base64.encodeString key.bytes)).toOption =
      (parseChunk crates stored).bind (openChunk crates key) := by
  unfold decryptAttachmentChunk parseChunk
  rw [if_neg (by simp),AttachmentReadback.key_read lawful]
  dsimp only [bind,Except.bind]
  cases EncryptedChunk.fromBytes crates.base64 32 stored with
  | none => rfl
  | some parsed =>
      cases parsed with
      | error e => rfl
      | ok chunk =>
          show (Except.mapError _ (decryptChunk crates.toCryptoCrates chunk key)).toOption = openChunk crates key chunk
          unfold openChunk
          cases decryptChunk crates.toCryptoCrates chunk key <;> rfl

def chunkFor (m : Manager) (db : WebDb) (blobs : BlobTable) (attachmentId : String) (i : Nat) : Option EncryptedChunk :=
  (lookUp m db blobs (blobIdOf attachmentId i)).bind (parseChunk m.crates)

-- The loop gives what the chunks open to, as they were when it began.
theorem download_chunks {vaultKey key : SecretKey} (unlocked : m.session = some vaultKey) (lawful : m.crates.base64.Lawful) (blobs : BlobTable)
    (attachmentId : String) (left first : Nat) (db : WebDb) (calls : Nat) :
    ∃ result db' calls', downloadChunks m attachmentId (m.crates.base64.encodeString key.bytes) left first (quiet db blobs calls) =
        (result,quiet db' blobs calls') ∧
      result.toOption = (List.range' first left).mapM (fun i => (chunkFor m db blobs attachmentId i).bind (openChunk m.crates key)) := by
  induction left generalizing first db calls with
  | zero => exact ⟨.ok [],db,calls,rfl,rfl⟩
  | succ left ih =>
      unfold downloadChunks
      obtain ⟨fetched,db',calls',got,found,same⟩ := fetch_chunk m db blobs calls (blobIdOf attachmentId first) first
      have still : ∀ i, chunkFor m db' blobs attachmentId i = chunkFor m db blobs attachmentId i := fun i => by rw [chunkFor,chunkFor,same]
      rw [List.range'_succ,List.mapM_cons]
      cases fetched with
      | error e =>
          refine ⟨.error e,db',calls',script_error got,?_⟩
          rw [chunkFor,← found]
          rfl
      | ok stored =>
          rw [script_bind got]
          have here : chunkFor m db blobs attachmentId first = parseChunk m.crates stored := by
            rw [chunkFor,← found]
            rfl
          have read := chunk_read lawful vaultKey key stored
          rw [← unlocked,← here] at read
          rw [← read]
          cases opened : decryptAttachmentChunk m.crates m.session stored (m.crates.base64.encodeString key.bytes) with
          | error e => exact ⟨.error e,db',calls'+1,script_error (ask_quiet _),rfl⟩
          | ok piece =>
              rw [script_bind (ask_quiet _)]
              obtain ⟨rest,last,ends,went,all⟩ := ih (first+1) db' (calls'+1)
              simp only [still] at all
              rw [← all]
              cases rest with
              | error e => exact ⟨.error e,last,ends,script_error went,rfl⟩
              | ok pieces => exact ⟨.ok (piece :: pieces),last,ends,script_bind went,rfl⟩

-- `if (manifest.content_hash)`: an empty hash is not compared.
def Hashes (crates : AttachmentCrates) (manifest : AttachmentManifest) (bytes : List UInt8) : Prop :=
  ∀ contentHash, manifest.contentHash = some contentHash → contentHash ≠ "" → computeContentHash crates bytes = contentHash

-- What the page returns, and what the core makes of the same chunks.
def downloaded (m : Manager) (db : WebDb) (blobs : BlobTable) (attachmentId : String) : Option (List UInt8) :=
  (downloadAttachment m attachmentId (quiet db blobs 0)).1.toOption.map (·.bytes)

def assigned (m : Manager) (db : WebDb) (blobs : BlobTable) (manifest : AttachmentManifest) : Option (List EncryptedChunk) :=
  (List.range manifest.chunkCount.toNat).mapM (chunkFor m db blobs manifest.attachmentId)

def coreReads (m : Manager) (db : WebDb) (blobs : BlobTable) (manifest : AttachmentManifest) (key : SecretKey) : Option (List UInt8) :=
  (assigned m db blobs manifest).bind (fun chunks =>
    (decryptAttachmentStreamWithSource m.crates.toAttachmentCrates key (some manifest) vec chunks []).toOption.map (·.2))

theorem mapM_after {γ : Type} (list : List α) (f : α → Option β) (g : β → Option γ) :
    list.mapM (fun a => (f a).bind g) = (list.mapM f).bind (fun bs => bs.mapM g) := by
  induction list with
  | nil => rfl
  | cons a list ih =>
      rw [List.mapM_cons,List.mapM_cons,ih]
      cases f a with
      | none => rfl
      | some b =>
          dsimp only [bind,Option.bind,pure]
          cases list.mapM f with
          | none => cases g b <;> rfl
          | some bs =>
              dsimp only
              rw [List.mapM_cons]
              rfl

theorem hash_checked (crates : AttachmentCrates) (contentHash : String) (file : DownloadedAttachment) (bytes : List UInt8) :
    ((if contentHash = "" then pure file else do
        let actualHash ← ask (.ok (computeContentHash crates file.bytes))
        if actualHash ≠ contentHash then do
          check (.error "Attachment integrity verification failed: hash mismatch.")
          pure file
        else pure file : Script DownloadedAttachment) (quiet db blobs calls)).1.toOption.map (·.bytes) = some bytes ↔
      file.bytes = bytes ∧ (contentHash ≠ "" → computeContentHash crates bytes = contentHash) := by
  by_cases empty : contentHash = ""
  · rw [if_pos empty]
    exact ⟨fun same => ⟨Option.some.inj same,fun some => absurd empty some⟩,fun same => congrArg some same.1⟩
  · rw [if_neg empty,script_bind (ask_quiet _)]
    by_cases differs : computeContentHash crates file.bytes = contentHash
    · rw [if_neg (not_not.mpr differs)]
      exact ⟨fun same => ⟨Option.some.inj same,fun _ => Option.some.inj same ▸ differs⟩,fun same => congrArg some same.1⟩
    · rw [if_pos differs]
      exact iff_of_false (fun none => by cases none) (fun same => differs (by rw [same.1]; exact same.2 empty))

-- A download in which nothing fails but what the bytes make fail.
theorem download_result {vaultKey key : SecretKey} {attachmentId : String} {stored : StoredEncryptedObject} {manifest : AttachmentManifest}
    (unlocked : m.session = some vaultKey) (lawful : m.crates.base64.Lawful) (held : db.getObject attachmentId = some stored)
    (live : stored.isDeleted = false)
    (opened : decryptAttachmentManifest m.crates.toAttachmentCrates stored.envelope vaultKey = .ok (manifest,key)) (bytes : List UInt8) :
    downloaded m db blobs attachmentId = some bytes ↔
      ∃ chunks pieces, assigned m db blobs manifest = some chunks ∧ chunks.mapM (openChunk m.crates key) = some pieces ∧ pieces.flatten = bytes ∧
        Hashes m.crates.toAttachmentCrates manifest bytes := by
  unfold downloaded downloadAttachment
  rw [script_bind (db_quiet _),held]
  dsimp only
  rw [live]
  rw [if_neg (by decide)]
  have decrypted : decryptManifest m.crates m.session stored.envelope = .ok (.ofManifest manifest,m.crates.base64.encodeString key.bytes) := by
    unfold decryptManifest
    rw [unlocked]
    dsimp only
    rw [opened]
    rfl
  have asked : ask (decryptManifest m.crates m.session stored.envelope) (quiet db blobs (0+1)) =
      (.ok (.ofManifest manifest,m.crates.base64.encodeString key.bytes),quiet db blobs 2) := by rw [ask_quiet,decrypted]
  rw [script_bind asked]
  obtain ⟨result,db',calls',went,all⟩ := @download_chunks m vaultKey key unlocked lawful blobs manifest.attachmentId manifest.chunkCount.toNat 0 db 2
  rw [← List.range_eq_range',mapM_after] at all
  change _ = (assigned m db blobs manifest).bind _ at all
  dsimp only [AttachmentManifestDto.ofManifest]
  cases result with
  | error e =>
      rw [script_error went]
      refine iff_of_false (fun none => by cases none) ?_
      rintro ⟨chunks,pieces,is,opens,_⟩
      rw [is] at all
      exact absurd (all.trans opens) (by simp [Except.toOption])
  | ok pieces =>
      rw [script_bind went]
      obtain ⟨chunks,is,opens⟩ := Option.bind_eq_some_iff.mp all.symm
      refine Iff.trans (b := pieces.flatten = bytes ∧ Hashes m.crates.toAttachmentCrates manifest bytes) ?_ ?_
      · cases hash : manifest.contentHash with
        | none =>
            have unchecked : Hashes m.crates.toAttachmentCrates manifest bytes := fun contentHash some => by
              rw [hash] at some
              cases some
            exact ⟨fun same => ⟨Option.some.inj same,unchecked⟩,fun same => congrArg some same.1⟩
        | some contentHash =>
            have only : Hashes m.crates.toAttachmentCrates manifest bytes ↔
                (contentHash ≠ "" → computeContentHash m.crates.toAttachmentCrates bytes = contentHash) := by
              unfold Hashes
              rw [hash]
              exact ⟨fun all => all contentHash rfl,fun one _ same => by cases same; exact one⟩
            rw [only]
            exact hash_checked m.crates.toAttachmentCrates contentHash ⟨pieces.flatten,manifest.name,manifest.mime,manifest.size⟩ bytes
      · constructor
        · rintro ⟨same,hashes⟩
          exact ⟨chunks,pieces,is,opens,same,hashes⟩
        · rintro ⟨chunks',pieces',is',opens',same,hashes⟩
          obtain rfl := Option.some.inj (is.symm.trans is')
          obtain rfl := Option.some.inj (opens.symm.trans opens')
          exact ⟨same,hashes⟩

-- What the core checks of the chunks besides opening them.
structure InOrder (crates : AttachmentCrates) (manifest : AttachmentManifest) (chunks : List EncryptedChunk) (pieces : List (List UInt8)) : Prop where
  counted : 0 < manifest.chunkCount.toNat
  placed : ∀ (i : Nat) (chunk : EncryptedChunk), chunks[i]? = some chunk →
    chunk.chunkIndex.toNat = i ∧ chunk.attachmentId = manifest.attachmentId ∧ chunk.totalChunks = manifest.chunkCount
  sized : pieces.flatten.length = manifest.size
  hashed : manifest.contentHash = some "" → computeContentHash crates pieces.flatten = ""

section
variable {crates : PageCrates} {key : SecretKey} {manifest : AttachmentManifest} {i : Nat} {pieces : List (List UInt8)} {chunks : List EncryptedChunk}

theorem mapM_length {list : List α} {f : α → Option β} {bs : List β} (mapped : list.mapM f = some bs) : bs.length = list.length := by
  induction list generalizing bs with
  | nil =>
      cases mapped
      rfl
  | cons a list ih =>
      rw [List.mapM_cons] at mapped
      obtain ⟨b,_,mapped⟩ := Option.bind_eq_some_iff.mp mapped
      obtain ⟨rest,more,is⟩ := Option.bind_eq_some_iff.mp mapped
      cases is
      rw [List.length_cons,List.length_cons,ih more]

theorem opens_mapM (opens : OpensFrom crates.toAttachmentCrates key manifest i pieces chunks) : chunks.mapM (openChunk crates key) = some pieces := by
  induction opens with
  | nil i => rfl
  | cons index mine counted opens rest ih =>
      rw [List.mapM_cons,openChunk,opens,ih]
      rfl

theorem opens_placed (opens : OpensFrom crates.toAttachmentCrates key manifest i pieces chunks) {k : Nat} {chunk : EncryptedChunk}
    (is : chunks[k]? = some chunk) :
    chunk.chunkIndex = (i+k).toUInt32 ∧ chunk.attachmentId = manifest.attachmentId ∧ chunk.totalChunks = manifest.chunkCount := by
  induction opens generalizing k with
  | nil i => cases is
  | @cons i piece first pieces chunks index mine counted opens rest ih =>
      cases k with
      | zero =>
          obtain rfl : first = chunk := Option.some.inj is
          exact ⟨index,mine,counted⟩
      | succ k =>
          obtain ⟨later,others⟩ := ih is
          refine ⟨?_,others⟩
          rw [later,Nat.add_assoc,Nat.add_comm 1 k]

theorem opens_when (opened : chunks.mapM (openChunk crates key) = some pieces) (placed : ∀ k chunk, chunks[k]? = some chunk →
    chunk.chunkIndex = (i+k).toUInt32 ∧ chunk.attachmentId = manifest.attachmentId ∧ chunk.totalChunks = manifest.chunkCount) :
    OpensFrom crates.toAttachmentCrates key manifest i pieces chunks := by
  induction chunks generalizing i pieces with
  | nil =>
      cases opened
      exact .nil i
  | cons chunk chunks ih =>
      rw [List.mapM_cons] at opened
      obtain ⟨piece,opens,opened⟩ := Option.bind_eq_some_iff.mp opened
      obtain ⟨rest,more,is⟩ := Option.bind_eq_some_iff.mp opened
      cases is
      obtain ⟨index,mine,counted⟩ := placed 0 chunk rfl
      have reads : decryptChunk crates.toCryptoCrates chunk key = .ok piece := by
        unfold openChunk at opens
        cases result : decryptChunk crates.toCryptoCrates chunk key with
        | error e =>
            rw [result] at opens
            cases opens
        | ok piece' =>
            rw [result] at opens
            cases opens
            rfl
      refine .cons index mine counted reads (ih more (fun k chunk is => ?_))
      have later := placed (k+1) chunk is
      rwa [Nat.add_comm k 1,← Nat.add_assoc] at later

theorem contents_iff (crates : AttachmentCrates) (manifest : AttachmentManifest) (bytes : List UInt8) :
    checkContents crates (some manifest) bytes = .ok () ↔
      bytes.length = manifest.size ∧ ∀ contentHash, manifest.contentHash = some contentHash → computeContentHash crates bytes = contentHash := by
  unfold checkContents
  dsimp only
  by_cases sized : bytes.length = manifest.size
  · rw [if_neg (not_not.mpr sized)]
    cases manifest.contentHash with
    | none => exact iff_of_true rfl ⟨sized,fun _ none => by cases none⟩
    | some contentHash =>
        dsimp only
        by_cases hashed : computeContentHash crates bytes = contentHash
        · rw [if_neg (not_not.mpr hashed)]
          exact iff_of_true rfl ⟨sized,fun _ same => by cases same; exact hashed⟩
        · rw [if_pos hashed]
          exact iff_of_false (fun error => by cases error) (fun both => hashed (both.2 _ rfl))
  · rw [if_pos sized]
    exact iff_of_false (fun error => by cases error) (fun both => sized both.1)

theorem whole_iff (length : chunks.length = manifest.chunkCount.toNat) (opened : chunks.mapM (openChunk crates key) = some pieces)
    (hashes : Hashes crates.toAttachmentCrates manifest pieces.flatten) :
    Whole crates.toAttachmentCrates key manifest pieces chunks ↔ InOrder crates.toAttachmentCrates manifest chunks pieces := by
  have few : chunks.length < 2^32 := length ▸ manifest.chunkCount.toNat_lt
  have code : ∀ {k : Nat} {chunk : EncryptedChunk}, chunks[k]? = some chunk → k.toUInt32.toNat = k := fun is =>
    UInt32.toNat_ofNat_of_lt' (Nat.lt_trans (List.getElem?_eq_some_iff.mp is).1 few)
  constructor
  · intro whole
    obtain ⟨sized,hashed⟩ := (contents_iff _ _ _).mp whole.contents
    refine ⟨length ▸ List.length_pos_of_ne_nil whole.nonempty,fun k chunk is => ?_,sized,hashed ""⟩
    obtain ⟨index,others⟩ := opens_placed whole.opens is
    rw [Nat.zero_add] at index
    exact ⟨by rw [index,code is],others⟩
  · intro ordered
    refine ⟨opens_when opened (fun k chunk is => ?_),List.ne_nil_of_length_pos (length ▸ ordered.counted),by rw [length]; exact UInt32.ofNat_toNat,?_⟩
    · obtain ⟨index,others⟩ := ordered.placed k chunk is
      refine ⟨?_,others⟩
      rw [Nat.zero_add]
      exact UInt32.toNat_inj.mp (index.trans (code is).symm)
    · refine (contents_iff _ _ _).mpr ⟨ordered.sized,fun contentHash is => ?_⟩
      by_cases empty : contentHash = ""
      · subst empty
        exact ordered.hashed is
      · exact hashes contentHash is empty

end

theorem assigned_length {manifest : AttachmentManifest} {chunks : List EncryptedChunk} (is : assigned m db blobs manifest = some chunks) :
    chunks.length = manifest.chunkCount.toNat := (mapM_length is).trans List.length_range

theorem vec_written (pieces : List (List UInt8)) : pieces.foldl (fun w piece => w ++ piece) [] = pieces.flatten := by
  rw [List.foldl_append_eq_append,List.map_id',List.nil_append]

theorem core_result {key : SecretKey} {manifest : AttachmentManifest} (bytes : List UInt8) :
    coreReads m db blobs manifest key = some bytes ↔
      ∃ chunks pieces, assigned m db blobs manifest = some chunks ∧ Whole m.crates.toAttachmentCrates key manifest pieces chunks ∧ pieces.flatten = bytes := by
  unfold coreReads
  constructor
  · intro reads
    obtain ⟨chunks,is,reads⟩ := Option.bind_eq_some_iff.mp reads
    obtain ⟨⟨length,written⟩,done,same⟩ := Option.map_eq_some_iff.mp reads
    cases result : decryptAttachmentStreamWithSource m.crates.toAttachmentCrates key (some manifest) vec chunks [] with
    | error e =>
        rw [result] at done
        cases done
    | ok value =>
        obtain ⟨pieces,whole⟩ := stream_done result
        rw [stream_reads vec_takes whole [],vec_written] at done
        cases done
        exact ⟨chunks,pieces,is,whole,same⟩
  · rintro ⟨chunks,pieces,is,whole,rfl⟩
    rw [is,Option.bind_some,stream_reads vec_takes whole [],vec_written]
    rfl

-- Whatever opens under the attachment's key is in order too.
def InOrderWhenOpened (m : Manager) (db : WebDb) (blobs : BlobTable) (manifest : AttachmentManifest) (key : SecretKey) : Prop :=
  ∀ chunks pieces, assigned m db blobs manifest = some chunks → chunks.mapM (openChunk m.crates key) = some pieces →
    Hashes m.crates.toAttachmentCrates manifest pieces.flatten → InOrder m.crates.toAttachmentCrates manifest chunks pieces

-- The page is as strict as the core unless it lets something pass that only the
-- core checks.
theorem download_strict_iff {vaultKey key : SecretKey} {attachmentId : String} {stored : StoredEncryptedObject} {manifest : AttachmentManifest}
    (unlocked : m.session = some vaultKey) (lawful : m.crates.base64.Lawful) (held : db.getObject attachmentId = some stored)
    (live : stored.isDeleted = false)
    (opened : decryptAttachmentManifest m.crates.toAttachmentCrates stored.envelope vaultKey = .ok (manifest,key)) :
    downloaded m db blobs attachmentId = coreReads m db blobs manifest key ↔ InOrderWhenOpened m db blobs manifest key := by
  have page := @download_result m db blobs vaultKey key attachmentId stored manifest unlocked lawful held live opened
  constructor
  · intro agree chunks pieces is opens hashes
    have core : coreReads m db blobs manifest key = some pieces.flatten := by
      rw [← agree]
      exact (page _).mpr ⟨chunks,pieces,is,opens,rfl,hashes⟩
    obtain ⟨chunks',pieces',is',whole,_⟩ := (core_result _).mp core
    obtain rfl := Option.some.inj (is.symm.trans is')
    obtain rfl := Option.some.inj (opens.symm.trans (opens_mapM whole.opens))
    exact (whole_iff (assigned_length is) opens hashes).mp whole
  · intro ordered
    apply Option.ext
    intro bytes
    rw [page,core_result]
    constructor
    · rintro ⟨chunks,pieces,is,opens,rfl,hashes⟩
      exact ⟨chunks,pieces,is,(whole_iff (assigned_length is) opens hashes).mpr (ordered chunks pieces is opens hashes),rfl⟩
    · rintro ⟨chunks,pieces,is,whole,rfl⟩
      exact ⟨chunks,pieces,is,opens_mapM whole.opens,rfl,fun contentHash same _ => ((contents_iff _ _ _).mp whole.contents).2 contentHash same⟩

-- Two bytes in two chunks, whose manifest has no hash; the blobs may be swapped.
open AttachmentReadback (smallKey smallNonce smallId standInCrates stand_in_lawful)

def unhashed : AttachmentManifest := ⟨smallId,"hi.txt","text/plain",2,2,1,none⟩
def smallManager : Manager := ⟨standInCrates unhashed,some smallKey,⟨none,none,none⟩,fun _ => .ok "alice",⟨1024,4096⟩,fun _ => "t1"⟩

def sealedManifest : EncryptedEnvelope :=
  (encryptAttachmentManifest smallManager.crates.toAttachmentCrates smallNonce smallNonce unhashed smallKey smallKey).toOption.getD ⟨0,"",0,⟨"",""⟩,⟨"",""⟩⟩

def sealedPiece (byte : UInt8) (i : Nat) : List UInt8 :=
  (encryptAttachmentChunk smallManager.crates smallManager.session smallNonce [byte] smallId i 2
    (smallManager.crates.base64.encodeString smallKey.bytes)).toOption.getD []

def storedManifest : StoredEncryptedObject := ⟨smallId,objectKindAttachmentManifest,1,0,false,sealedManifest,"t1"⟩

def pageWith (first second : List UInt8) : WebDb :=
  {WebDb.new.putObject storedManifest with
    blobs := (Table.empty.upsert ⟨blobIdOf smallId 0,first,first.length,"t1"⟩).upsert ⟨blobIdOf smallId 1,second,second.length,"t1"⟩}

theorem small_manifest_opens : decryptAttachmentManifest smallManager.crates.toAttachmentCrates storedManifest.envelope smallKey = .ok (unhashed,smallKey) := by
  cases made : encryptAttachmentManifest smallManager.crates.toAttachmentCrates smallNonce smallNonce unhashed smallKey smallKey with
  | error e =>
      have fine : (encryptAttachmentManifest smallManager.crates.toAttachmentCrates smallNonce smallNonce unhashed smallKey smallKey).toOption.isSome = true := by
        decide +kernel
      rw [made] at fine
      cases fine
  | ok envelope =>
      have is : storedManifest.envelope = envelope := by
        show sealedManifest = envelope
        rw [sealedManifest,made]
        rfl
      rw [is]
      exact AttachmentReadback.manifest_opens (stand_in_lawful _) made

theorem swapped_blobs_returned :
    decryptAttachmentManifest smallManager.crates.toAttachmentCrates storedManifest.envelope smallKey = .ok (unhashed,smallKey) ∧
      downloaded smallManager (pageWith (sealedPiece 105 1) (sealedPiece 104 0)) .empty smallId = some [105,104] ∧
      coreReads smallManager (pageWith (sealedPiece 105 1) (sealedPiece 104 0)) .empty unhashed smallKey = none :=
  ⟨small_manifest_opens,by decide +kernel,by decide +kernel⟩

theorem honest_blobs_in_order : InOrderWhenOpened smallManager (pageWith (sealedPiece 104 0) (sealedPiece 105 1)) .empty unhashed smallKey := by
  have lawful : smallManager.crates.base64.Lawful := (stand_in_lawful unhashed).crypto.base64
  have held : (pageWith (sealedPiece 104 0) (sealedPiece 105 1)).getObject smallId = some storedManifest := by decide +kernel
  exact (download_strict_iff rfl lawful held rfl small_manifest_opens).mp (by decide +kernel)

end ZkNote.StrictDownload
