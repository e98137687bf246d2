import ZkNote.Fallible
import ZkNote.Runs
import ZkNote.VaultLinking

namespace ZkNote.LinkRuns
open Fallible KeyedTable ServerStore VaultIdentity VaultStore VaultLinking Runs

variable {s : Setting} {w w' : World} {client client' : Client} {loc other : Local} {b : VaultBootstrap} {i id : Nat} {task : Task} {text : String}

-- A vault fingerprint is one that a saved link may hold.
theorem letter_bytes : ∀ n < 16, ∃ b, String.utf8EncodeChar (hexLetter n) = [b] ∧ (48 ≤ b ∧ b ≤ 57 ∨ 97 ≤ b ∧ b ≤ 102) := by
  intro n small
  have one : ∀ n < 16, (String.utf8EncodeChar (hexLetter n)).length = 1 ∧
      ∀ b ∈ String.utf8EncodeChar (hexLetter n), 48 ≤ b ∧ b ≤ 57 ∨ 97 ≤ b ∧ b ≤ 102 := by decide +kernel
  obtain ⟨length,all⟩ := one n small
  obtain ⟨b,is⟩ := List.length_eq_one_iff.mp length
  exact ⟨b,is,all b (by rw [is]; exact List.mem_cons_self)⟩

theorem hex_bytes (digest : List UInt8) : ((hex digest).flatMap String.utf8EncodeChar).length = 2 * digest.length ∧
    ∀ b ∈ (hex digest).flatMap String.utf8EncodeChar, 48 ≤ b ∧ b ≤ 57 ∨ 97 ≤ b ∧ b ≤ 102 := by
  induction digest with
  | nil => exact ⟨rfl,fun b inside => by cases inside⟩
  | cons d rest ih =>
      have small := d.toNat_lt
      obtain ⟨high,isHigh,goodHigh⟩ := letter_bytes (d.toNat / 16) (by omega)
      obtain ⟨low,isLow,goodLow⟩ := letter_bytes (d.toNat % 16) (by omega)
      obtain ⟨length,all⟩ := ih
      have split : (hex (d :: rest)).flatMap String.utf8EncodeChar = high :: low :: (hex rest).flatMap String.utf8EncodeChar := by
        rw [hex,List.flatMap_cons,List.flatMap_append,← hex]
        simp only [List.flatMap_cons,List.flatMap_nil,isHigh,isLow,List.append_nil,List.cons_append,List.nil_append]
      rw [split]
      refine ⟨?_,fun b inside => ?_⟩
      · simp only [List.length_cons,length]
        omega
      · rcases List.mem_cons.mp inside with rfl | inside
        · exact goodHigh
        · rcases List.mem_cons.mp inside with rfl | inside
          · exact goodLow
          · exact all b inside

theorem spelled_valid {digest : List UInt8} (sized : digest.length = 32) : validFingerprint (spelledFingerprint digest) = true := by
  obtain ⟨length,all⟩ := hex_bytes digest
  have split : asBytes (spelledFingerprint digest) = asBytes "blake2s-v1:" ++ (hex digest).flatMap String.utf8EncodeChar := by
    simp only [asBytes,spelledFingerprint,String.toList_append,String.toList_ofList,List.flatMap_append]
  have front : (asBytes "blake2s-v1:").length = 11 := by decide
  rw [validFingerprint,split]
  simp only [Bool.and_eq_true,decide_eq_true_eq]
  refine ⟨⟨List.isPrefixOf_iff_prefix.mpr (List.prefix_append _ _),?_⟩,?_⟩
  · rw [List.length_append,front,length,sized]
  · rw [← front,List.drop_left]
    exact List.all_eq_true.mpr (fun b inside => decide_eq_true (all b inside))

theorem fingerprint_made (valid : validateBootstrap s.crates.toIdentityCrates b = .ok ()) :
    ∃ text, vaultFingerprint s.crates.toIdentityCrates b = .ok text ∧ validFingerprint text = true := by
  obtain ⟨_,nonce,ciphertext,readNonce,_,readText,_⟩ := wrapper_parts (accepted_iff.mp valid).recovery
  refine ⟨_,?_,spelled_valid (s.crates.digest (identityBytes b.cryptoVersion (asBytes b.recoveryWrappedVaultKey.cipherSuite) nonce ciphertext))⟩
  simp only [vaultFingerprint,valid,bind,Except.bind,readNonce,readText]
  rfl

theorem fingerprint_ok (made : vaultFingerprint s.crates.toIdentityCrates b = .ok text) : fingerprint s b = .ok text := by
  rw [fingerprint,made]

theorem made_fingerprint (made : fingerprint s b = .ok text) : vaultFingerprint s.crates.toIdentityCrates b = .ok text := by
  unfold fingerprint at made
  split at made
  · cases made
  · rename_i is
    cases made
    exact is

-- The web's equality of all fields, the native client's equality of fingerprints.
def Matches (s : Setting) : Local → VaultBootstrap → Prop
  | .web localBootstrap,remote => areBootstrapsEqual (.data localBootstrap) (.dto remote) = true
  | .native vault,remote => ∃ text, vaultFingerprint s.crates.toIdentityCrates vault = .ok text ∧ vaultFingerprint s.crates.toIdentityCrates remote = .ok text

-- A vault an attempt may go on with: a native one was validated.
def Sane (s : Setting) : Local → Prop
  | .web _ => True
  | .native vault => validateBootstrap s.crates.toIdentityCrates vault = .ok ()

def SameKind : Client → Local → Prop
  | .web .., .web _ => True
  | .native .., .native _ => True
  | _,_ => False

-- A client whose saved link is to another account or origin, or cannot be read.
def Foreign (s : Setting) : Client → Prop
  | .web serverOrigin item => item = .corrupt ∨ ∃ link, item = .held link ∧
      (link.accountId ≠ s.account ∨ s.normalizeServerOrigin link.serverOrigin ≠ s.normalizeServerOrigin serverOrigin)
  | .native serverUrl file => file = .corrupt ∨ ∃ link, file = .held link ∧
      (link.accountId ≠ s.account ∨ s.normalizeUrl serverUrl ≠ some link.serverOrigin)

-- A client that has its link to the account at its own origin.
def Associated (s : Setting) : Client → Prop
  | .web serverOrigin item => ∃ origin linkedAt, s.normalizeServerOrigin serverOrigin = some origin ∧ item = .held ⟨s.account,origin,linkedAt⟩
  | .native serverUrl file => ∃ origin text, s.normalizeUrl serverUrl = some origin ∧ file = .held ⟨1,origin,s.account,text⟩

def Ready (s : Setting) (client : Client) (loc : Local) : Prop := begin s client loc = some (.ok ())

theorem associated_home (associated : Associated s client) : ¬Foreign s client := by
  intro foreign
  cases client with
  | web serverOrigin item =>
      obtain ⟨origin,linkedAt,normal,rfl⟩ := associated
      rcases foreign with is | ⟨link,is,unlike⟩
      · cases is
      · cases is
        rw [normal,(s.origin_again normal).1] at unlike
        rcases unlike with unlike | unlike <;> exact unlike rfl
  | native serverUrl file =>
      obtain ⟨origin,text,normal,rfl⟩ := associated
      rcases foreign with is | ⟨link,is,unlike⟩
      · cases is
      · cases is
        rw [normal] at unlike
        rcases unlike with unlike | unlike <;> exact unlike rfl

theorem read_cases {item : Slot VaultLinkRecord} {existing : Option VaultLinkRecord} (read : readVaultLink s item = .ok existing) :
    item = .absent ∧ existing = none ∨ ∃ link origin, item = .held link ∧ s.normalizeServerOrigin link.serverOrigin = some origin ∧
      existing = some {link with serverOrigin := origin} := by
  cases item with
  | absent =>
      cases read
      exact .inl ⟨rfl,rfl⟩
  | corrupt => cases read
  | held link =>
      simp only [readVaultLink] at read
      split at read
      · cases read
      · split at read
        · cases read
        · split at read
          · cases read
          · rename_i origin normal
            cases read
            exact .inr ⟨link,origin,rfl,normal,rfl⟩

theorem check_home {serverOrigin origin : String} {item : Slot VaultLinkRecord} (checked : checkLink s serverOrigin item = .ok origin) :
    s.normalizeServerOrigin serverOrigin = some origin ∧ ¬Foreign s (.web serverOrigin item) := by
  unfold checkLink at checked
  split at checked
  · cases checked
  · rename_i normal
    split at checked
    · cases checked
    · rename_i read
      cases checked
      refine ⟨normal,?_⟩
      rcases read_cases read with ⟨rfl,_⟩ | ⟨link,origin,_,_,is⟩
      · rintro (is | ⟨link,is,_⟩)
        · cases is
        · cases is
      · cases is
    · rename_i existing read
      rcases read_cases read with ⟨_,is⟩ | ⟨link,linked,rfl,own,is⟩
      · cases is
      · cases is
        rw [(s.origin_again own).1] at checked
        dsimp only at checked
        split at checked
        · cases checked
        · rename_i agree
          split at checked
          · cases checked
          · rename_i mine
            cases checked
            refine ⟨normal,?_⟩
            rintro (is | ⟨link,is,unlike⟩)
            · cases is
            · cases is
              rcases unlike with unlike | unlike
              · exact mine unlike
              · refine unlike ?_
                rw [own,normal]
                exact congrArg some (by simpa using agree)

theorem check_associated {serverOrigin origin linkedAt : String} (normal : s.normalizeServerOrigin serverOrigin = some origin) :
    checkLink s serverOrigin (.held ⟨s.account,origin,linkedAt⟩) = .ok origin := by
  obtain ⟨again,written⟩ := s.origin_again normal
  have read : readVaultLink s (.held ⟨s.account,origin,linkedAt⟩) = .ok (some ⟨s.account,origin,linkedAt⟩) := by
    simp only [readVaultLink,s.accountSpelled,written,again,Bool.false_eq_true,if_false]
  simp only [checkLink,normal,read,again,ne_eq,not_true_eq_false,if_false]

theorem load_cases {file : Slot VaultLink} (missing : loadLink s file = .error .missingLink) : file = .absent := by
  cases file with
  | absent => rfl
  | corrupt => cases missing
  | held link =>
      simp only [loadLink,VaultLink.validate] at missing
      split at missing <;> cases missing

theorem load_held {file : Slot VaultLink} {link : VaultLink} (loaded : loadLink s file = .ok link) : file = .held link := by
  cases file with
  | absent => cases loaded
  | corrupt => cases loaded
  | held other =>
      simp only [loadLink,VaultLink.validate] at loaded
      split at loaded <;> cases loaded
      rfl

theorem local_ok {vault : VaultBootstrap} (read : localBootstrap s vault = .ok b) :
    b = vault ∧ validateBootstrap s.crates.toIdentityCrates vault = .ok () := by
  unfold localBootstrap at read
  split at read
  · cases read
  · rename_i valid
    cases read
    exact ⟨rfl,valid⟩

theorem validate_local {serverUrl : String} {file : Slot VaultLink} {link : VaultLink} (valid : validateLocalLink s serverUrl file b = .ok link) :
    file = .held link ∧ link.accountId = s.account ∧ s.normalizeUrl serverUrl = some link.serverOrigin := by
  obtain ⟨held,loaded,rest⟩ := bind_done valid
  split at rest
  · cases rest
  · rename_i mine
    split at rest
    · cases rest
    · rename_i origin normal
      split at rest
      · cases rest
      · rename_i agree
        obtain ⟨_,_,rest⟩ := bind_done rest
        obtain ⟨_,_,rest⟩ := bind_done rest
        split at rest
        · cases rest
        · cases rest
          exact ⟨load_held loaded,by simpa using mine,by rw [normal]; exact congrArg some (by simpa using agree : link.serverOrigin = origin).symm⟩

theorem prepare_home {serverUrl : String} {file : Slot VaultLink} {vault : VaultBootstrap} {link : VaultLink}
    (prepared : prepareLink s serverUrl file vault = .ok link) :
    validateBootstrap s.crates.toIdentityCrates vault = .ok () ∧ (∃ origin, s.normalizeUrl serverUrl = some origin) ∧ ¬Foreign s (.native serverUrl file) := by
  obtain ⟨b,read,rest⟩ := bind_done prepared
  obtain ⟨rfl,valid⟩ := local_ok read
  obtain ⟨_,_,rest⟩ := bind_done rest
  obtain ⟨_,made,rest⟩ := bind_done rest
  refine ⟨valid,?_,?_⟩
  · unfold VaultLink.new at made
    split at made
    · cases made
    · rename_i origin normal
      exact ⟨origin,normal⟩
  · split at rest
    · obtain ⟨_,held,_⟩ := bind_done rest
      obtain ⟨rfl,mine,agree⟩ := validate_local held
      rintro (is | ⟨link,is,unlike⟩)
      · cases is
      · cases is
        rcases unlike with unlike | unlike
        · exact unlike mine
        · exact unlike agree
    · rename_i missing
      rw [load_cases missing]
      rintro (is | ⟨link,is,_⟩)
      · cases is
      · cases is
    · cases rest

theorem prepare_associated {serverUrl origin : String} {vault : VaultBootstrap} (valid : validateBootstrap s.crates.toIdentityCrates vault = .ok ())
    (normal : s.normalizeUrl serverUrl = some origin) (made : vaultFingerprint s.crates.toIdentityCrates vault = .ok text)
    (spelled : validFingerprint text = true) :
    prepareLink s serverUrl (.held ⟨1,origin,s.account,text⟩) vault = .ok ⟨1,origin,s.account,text⟩ := by
  have read : localBootstrap s vault = .ok vault := by rw [localBootstrap,valid]
  have loaded : loadLink s (.held ⟨1,origin,s.account,text⟩) = .ok ⟨1,origin,s.account,text⟩ := by
    simp [loadLink,VaultLink.validate,s.url_again normal,spelled,bind,Except.bind,pure,Except.pure]
  simp [prepareLink,validateLocalLink,read,loaded,fingerprint_ok made,VaultLink.new,normal,bind,Except.bind,pure,Except.pure]

theorem ready_cases (ready : Ready s client loc) : SameKind client loc ∧ Sane s loc ∧ ¬Foreign s client := by
  cases client with
  | web serverOrigin item =>
      cases loc with
      | web localBootstrap =>
          refine ⟨trivial,trivial,?_⟩
          simp only [Ready,begin,Option.some.injEq] at ready
          split at ready
          · cases ready
          · rename_i checked
            exact (check_home checked).2
      | native vault => cases ready
  | native serverUrl file =>
      cases loc with
      | web localBootstrap => cases ready
      | native vault =>
          simp only [Ready,begin,Option.some.injEq] at ready
          split at ready
          · cases ready
          · rename_i prepared
            obtain ⟨valid,_,home⟩ := prepare_home prepared
            exact ⟨trivial,valid,home⟩

theorem save_valid {link : VaultLink} {file : Slot VaultLink} (saved : VaultLink.save s link = .ok file) :
    file = .held link ∧ validFingerprint link.vaultFingerprint = true := by
  obtain ⟨_,valid,is⟩ := bind_done saved
  cases is
  refine ⟨rfl,?_⟩
  unfold VaultLink.validate at valid
  split at valid
  · cases valid
  · rename_i parts
    simpa using (not_or.mp (not_or.mp parts).2).2

-- What an attempt records is its link to the account.
theorem record_web {serverOrigin linkedAt : String} {item : Slot VaultLinkRecord} {localBootstrap : VaultBootstrapData}
    (recorded : record s (.web serverOrigin item) (.web localBootstrap) linkedAt = .ok client') :
    ∃ origin, s.normalizeServerOrigin serverOrigin = some origin ∧ client' = .web serverOrigin (.held ⟨s.account,origin,linkedAt⟩) := by
  simp only [record] at recorded
  split at recorded
  · cases recorded
  · rename_i item saved
    cases recorded
    unfold saveWeb at saved
    split at saved
    · cases saved
    · rename_i origin normal
      simp only [writeVaultLink,(s.origin_again normal).1] at saved
      cases saved
      exact ⟨origin,normal,rfl⟩

theorem record_native {serverUrl linkedAt : String} {file : Slot VaultLink} {vault : VaultBootstrap}
    (recorded : record s (.native serverUrl file) (.native vault) linkedAt = .ok client') :
    ∃ origin text, s.normalizeUrl serverUrl = some origin ∧ vaultFingerprint s.crates.toIdentityCrates vault = .ok text ∧
      validFingerprint text = true ∧ client' = .native serverUrl (.held ⟨1,origin,s.account,text⟩) := by
  simp only [record] at recorded
  split at recorded
  · cases recorded
  · rename_i file saved
    cases recorded
    obtain ⟨own,print,rest⟩ := bind_done saved
    obtain ⟨link,made,rest⟩ := bind_done rest
    obtain ⟨rfl,spelled⟩ := save_valid rest
    unfold VaultLink.new at made
    split at made
    · cases made
    · rename_i origin normal
      cases made
      exact ⟨origin,own,normal,made_fingerprint print,spelled,rfl⟩

theorem record_associated {linkedAt : String} (recorded : record s client loc linkedAt = .ok client') (same : SameKind client loc) :
    Associated s client' := by
  cases client with
  | web serverOrigin item =>
      cases loc with
      | native vault => cases same
      | web localBootstrap =>
          obtain ⟨origin,normal,rfl⟩ := record_web recorded
          exact ⟨origin,linkedAt,normal,rfl⟩
  | native serverUrl file =>
      cases loc with
      | web localBootstrap => cases same
      | native vault =>
          obtain ⟨origin,text,normal,_,_,rfl⟩ := record_native recorded
          exact ⟨origin,text,normal,rfl⟩

theorem record_kind {linkedAt : String} (recorded : record s client other linkedAt = .ok client') : SameKind client' loc ↔ SameKind client loc := by
  cases client with
  | web serverOrigin item =>
      cases other with
      | native vault =>
          cases recorded
          exact Iff.rfl
      | web localBootstrap =>
          obtain ⟨origin,_,rfl⟩ := record_web recorded
          cases loc <;> exact Iff.rfl
  | native serverUrl file =>
      cases other with
      | web localBootstrap =>
          cases recorded
          exact Iff.rfl
      | native vault =>
          obtain ⟨origin,text,_,_,_,rfl⟩ := record_native recorded
          cases loc <;> exact Iff.rfl

-- An attempt that could begin can record.
theorem ready_records (ready : Ready s client loc) (linkedAt : String) : ∃ client', record s client loc linkedAt = .ok client' := by
  cases client with
  | web serverOrigin item =>
      cases loc with
      | native vault => cases ready
      | web localBootstrap =>
          simp only [Ready,begin,Option.some.injEq] at ready
          split at ready
          · cases ready
          · rename_i checked
            obtain ⟨normal,_⟩ := check_home checked
            exact ⟨_,by simp only [record,saveWeb,normal,writeVaultLink,(s.origin_again normal).1]; rfl⟩
  | native serverUrl file =>
      cases loc with
      | web localBootstrap => cases ready
      | native vault =>
          simp only [Ready,begin,Option.some.injEq] at ready
          split at ready
          · cases ready
          · rename_i prepared
            obtain ⟨valid,⟨origin,normal⟩,_⟩ := prepare_home prepared
            obtain ⟨text,made,spelled⟩ := fingerprint_made valid
            have checked : VaultLink.validate s ⟨1,origin,s.account,text⟩ = .ok () := by
              simp [VaultLink.validate,s.url_again normal,spelled]
            exact ⟨.native serverUrl (.held ⟨1,origin,s.account,text⟩),by
              simp only [record,saveNative,fingerprint_ok made,VaultLink.new,normal,VaultLink.save,checked,bind,Except.bind,pure,Except.pure]⟩

-- A link recorded for one vault does not stop an attempt for another that matches the same bootstrap.
theorem recorded_ready {linkedAt : String} (ready : Ready s client loc) (mine : Matches s loc b) (theirs : Matches s other b)
    (recorded : record s client other linkedAt = .ok client') : Ready s client' loc := by
  obtain ⟨same,sane,_⟩ := ready_cases ready
  cases client with
  | web serverOrigin item =>
      cases other with
      | native vault =>
          cases recorded
          exact ready
      | web otherBootstrap =>
          obtain ⟨origin,normal,rfl⟩ := record_web recorded
          cases loc with
          | native vault => cases same
          | web localBootstrap => simp only [Ready,begin,check_associated normal]
  | native serverUrl file =>
      cases other with
      | web otherBootstrap =>
          cases recorded
          exact ready
      | native otherVault =>
          obtain ⟨origin,text,normal,made,spelled,rfl⟩ := record_native recorded
          cases loc with
          | web localBootstrap => cases same
          | native vault =>
              obtain ⟨theirText,own,remote⟩ := theirs
              obtain ⟨myText,print,remote'⟩ := mine
              have agree : text = myText := by
                rw [own] at made
                rw [remote] at remote'
                cases made
                cases remote'
                rfl
              simp only [Ready,begin,prepare_associated sane normal (agree ▸ print) spelled]

theorem body_match (sane : Sane s loc) (sent : body loc = some b) : Matches s loc b := by
  cases loc with
  | web localBootstrap =>
      have read : (WebBootstrap.data localBootstrap).read = some b := sent
      exact (equal_iff read rfl).mpr rfl
  | native vault =>
      cases sent
      obtain ⟨text,made,_⟩ := fingerprint_made sane
      exact ⟨text,made,made⟩

theorem same_vault_iff {vault : VaultBootstrap} {done : Unit} : sameVault s vault b = .ok done ↔ Matches s (.native vault) b := by
  constructor
  · intro same
    obtain ⟨theirs,remote,rest⟩ := bind_done same
    obtain ⟨ours,own,rest⟩ := bind_done rest
    split at rest
    · cases rest
    · rename_i agree
      have agree : theirs = ours := by simpa using agree
      exact ⟨ours,made_fingerprint own,agree ▸ made_fingerprint remote⟩
  · rintro ⟨text,own,remote⟩
    simp [sameVault,fingerprint_ok own,fingerprint_ok remote,bind,Except.bind,pure,Except.pure]

-- An attempt records on a bootstrap that matches its own, or on its upload.
theorem resume_record {phase : Phase} {reply : Reply} (recording : resume s loc phase reply = .record) :
    (∃ b, reply = .found b ∧ Matches s loc b) ∨ reply = .created := by
  cases loc with
  | web localBootstrap =>
      simp only [resume] at recording
      unfold resumeWeb at recording
      split at recording
      · split at recording
        · exact .inl ⟨_,rfl,by assumption⟩
        · cases recording
      · cases recording
      · exact .inr rfl
      · cases recording
      · split at recording
        · exact .inl ⟨_,rfl,by assumption⟩
        · cases recording
      · cases recording
      · cases recording
  | native vault =>
      simp only [resume] at recording
      unfold resumeNative at recording
      split at recording
      · split at recording
        · cases recording
        · cases recording
      · cases recording
      · cases recording
      · split at recording
        · cases recording
        · rename_i same
          exact .inl ⟨_,rfl,same_vault_iff.mp same⟩
      · cases recording
      · cases recording

-- An attempt that finds its own vault records, a native one after a second look.
theorem resume_match {phase : Phase} (found : Matches s loc b) (sent : phase ≠ .upload) :
    resume s loc phase (.found b) = .record ∨ phase = .inspect ∧ resume s loc phase (.found b) = .request .recheck := by
  cases loc with
  | web localBootstrap =>
      have equal : areBootstrapsEqual (.data localBootstrap) (.dto b) = true := found
      cases phase with
      | upload => exact absurd rfl sent
      | inspect => exact .inl (if_pos equal)
      | recheck => exact .inl (if_pos equal)
  | native vault =>
      have same : sameVault s vault b = .ok () := same_vault_iff.mpr found
      cases phase with
      | upload => exact absurd rfl sent
      | inspect => exact .inr ⟨rfl,by simp only [resume,resumeNative,same]⟩
      | recheck => exact .inl (by simp only [resume,resumeNative,same])

end ZkNote.LinkRuns
