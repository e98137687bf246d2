import ZkNote.Base64Text
import ZkNote.RequestHash
import ZkNote.ServerHistory

namespace ZkNote.RequestSeparation
open Protocol ServerStore ServerHistory ServerRoutes RequestHash

def isHex (c : Char) : Bool := hexDigit c || decide ('A' ≤ c ∧ c ≤ 'F')

def Hyphenated (text : List Char) : Prop :=
  text.length = 36 ∧ ∀ i c, text[i]? = some c → if i ∈ [8,13,18,23] then c = '-' else isHex c = true

-- The spellings that the documentation of `Uuid::parse_str` lists.
inductive Form : List Char → Prop where
  | simple {text} (sized : text.length = 32) (digits : ∀ c ∈ text, isHex c = true) : Form text
  | hyphenated {text} (is : Hyphenated text) : Form text
  | braced {text} (is : Hyphenated text) : Form ('{' :: (text ++ ['}']))
  | urn {text} (is : Hyphenated text) : Form ("urn:uuid:".toList ++ text)

def Forms (crates : Crates) : Prop := ∀ text spelling, crates.parseUuid text = .ok spelling → Form text.toList

section
variable {text other : List Char} {c d : Char}

theorem hex_ascii (hex : isHex c = true) : c.toNat < 128 ∧ c ≠ '-' ∧ c ≠ '{' ∧ c ≠ 'u' := by
  have between : ∀ low high : Char, low ≤ c ∧ c ≤ high → low.toNat ≤ c.toNat ∧ c.toNat ≤ high.toNat := fun _ _ both => both
  have range : 48 ≤ c.toNat ∧ c.toNat ≤ 102 := by
    simp only [isHex,hexDigit,Bool.or_eq_true,decide_eq_true_eq] at hex
    rcases hex with (digit | lower) | upper
    · have bounds := between _ _ digit
      exact ⟨bounds.1,Nat.le_trans bounds.2 (by decide)⟩
    · have bounds := between _ _ lower
      exact ⟨Nat.le_trans (by decide) bounds.1,bounds.2⟩
    · have bounds := between _ _ upper
      exact ⟨Nat.le_trans (by decide) bounds.1,Nat.le_trans bounds.2 (by decide)⟩
  refine ⟨by omega,?_,?_,?_⟩
  all_goals
    intro is
    rw [is] at range
    exact absurd range (by decide)

theorem hyphenated_ascii (is : Hyphenated text) : ∀ c ∈ text, c.toNat < 128 := by
  intro c inside
  obtain ⟨i,at_⟩ := List.getElem?_of_mem inside
  have allowed := is.2 i c at_
  split at allowed
  · rw [allowed]
    decide
  · exact (hex_ascii allowed).1

theorem form_ascii (form : Form text) : ∀ c ∈ text, c.toNat < 128 := by
  intro c inside
  cases form with
  | simple sized digits => exact (hex_ascii (digits c inside)).1
  | hyphenated is => exact hyphenated_ascii is c inside
  | braced is =>
      rw [List.mem_cons,List.mem_append,List.mem_singleton] at inside
      rcases inside with rfl | inside | rfl
      · decide
      · exact hyphenated_ascii is c inside
      · decide
  | urn is =>
      rcases List.mem_append.mp inside with inside | inside
      · have start : ∀ c ∈ "urn:uuid:".toList, c.toNat < 128 := by simp
        exact start c inside
      · exact hyphenated_ascii is c inside

-- The first and the ninth character give the length away.
def formLength (first ninth : Char) : Nat :=
  if first = '{' then 38 else if first = 'u' then 45 else if ninth = '-' then 36 else 32

theorem form_length (form : Form text) : ∃ first ninth, text[0]? = some first ∧ text[8]? = some ninth ∧ text.length = formLength first ninth := by
  cases form with
  | simple sized digits =>
      have first := hex_ascii (digits text[0] (List.getElem_mem _))
      have ninth := hex_ascii (digits text[8] (List.getElem_mem _))
      refine ⟨text[0],text[8],List.getElem?_eq_getElem _,List.getElem?_eq_getElem _,?_⟩
      rw [formLength,if_neg first.2.2.1,if_neg first.2.2.2,if_neg ninth.2.1,sized]
  | hyphenated is =>
      have sized := is.1
      have first := is.2 0 text[0] (List.getElem?_eq_getElem _)
      have ninth := is.2 8 text[8] (List.getElem?_eq_getElem _)
      rw [if_neg (by decide)] at first
      rw [if_pos (by decide)] at ninth
      refine ⟨text[0],text[8],List.getElem?_eq_getElem _,List.getElem?_eq_getElem _,?_⟩
      rw [formLength,if_neg (hex_ascii first).2.2.1,if_neg (hex_ascii first).2.2.2,if_pos ninth,sized]
  | @braced text is =>
      have sized := is.1
      have seven : 7 < (text ++ ['}']).length := by
        rw [List.length_append]
        omega
      refine ⟨'{',(text ++ ['}'])[7],rfl,List.getElem?_eq_getElem seven,?_⟩
      rw [formLength,if_pos rfl,List.length_cons,List.length_append,sized]
      rfl
  | urn is =>
      refine ⟨'u',':',rfl,rfl,?_⟩
      rw [List.length_append,is.1]
      rfl

theorem ascii_map (ascii : ∀ c ∈ text, c.toNat < 128) : text.flatMap String.utf8EncodeChar = text.map (fun c => UInt8.ofNat c.toNat) := by
  induction text with
  | nil => rfl
  | cons c rest ih =>
      have one : String.utf8EncodeChar c = [UInt8.ofNat c.toNat] := by
        have small : c.val.toNat ≤ 0x7f := Nat.le_of_lt_succ (ascii c List.mem_cons_self)
        unfold String.utf8EncodeChar
        dsimp only
        rw [if_pos small]
        rfl
      rw [List.flatMap_cons,one,List.map_cons,ih (fun x inside => ascii x (List.mem_cons_of_mem _ inside))]
      rfl

theorem ascii_letter (one : c.toNat < 128) (two : d.toNat < 128) (same : UInt8.ofNat c.toNat = UInt8.ofNat d.toNat) : c = d := by
  have same := congrArg UInt8.toNat same
  rw [UInt8.toNat_ofNat_of_lt' (show _ < 2^8 by omega),UInt8.toNat_ofNat_of_lt' (show _ < 2^8 by omega)] at same
  exact Char.ext (UInt32.toNat_inj.mp same)

-- No spelling of an id starts another one that is longer.
theorem form_prefix {a b : String} {s t : List UInt8} (one : Form a.toList) (two : Form b.toList) (same : asBytes a ++ s = asBytes b ++ t) : a = b ∧ s = t := by
  have bytesA : asBytes a = _ := ascii_map (form_ascii one)
  have bytesB : asBytes b = _ := ascii_map (form_ascii two)
  obtain ⟨first,ninth,firstAt,ninthAt,size⟩ := form_length one
  obtain ⟨first',ninth',firstAt',ninthAt',size'⟩ := form_length two
  have agree : ∀ (i : Nat) (x y : Char), a.toList[i]? = some x → b.toList[i]? = some y → x = y := by
    intro i x y atX atY
    have insideX : (asBytes a)[i]? = some (UInt8.ofNat x.toNat) := by rw [bytesA,List.getElem?_map,atX]; rfl
    have insideY : (asBytes b)[i]? = some (UInt8.ofNat y.toNat) := by rw [bytesB,List.getElem?_map,atY]; rfl
    have byte : (asBytes a ++ s)[i]? = (asBytes b ++ t)[i]? := by rw [same]
    rw [List.getElem?_append_left (List.getElem?_eq_some_iff.mp insideX).1,List.getElem?_append_left (List.getElem?_eq_some_iff.mp insideY).1,
      insideX,insideY] at byte
    exact ascii_letter (form_ascii one x (List.mem_of_getElem? atX)) (form_ascii two y (List.mem_of_getElem? atY)) (Option.some.inj byte)
  have lengths : (asBytes a).length = (asBytes b).length := by
    rw [bytesA,bytesB,List.length_map,List.length_map,size,size',agree 0 first first' firstAt firstAt',agree 8 ninth ninth' ninthAt ninthAt']
  obtain ⟨same,rest⟩ := head_inj same lengths
  exact ⟨as_bytes_inj same,rest⟩

end

-- A request as it reaches the store: the handler let it pass, and the revision
-- it expects is a `u64`.
structure Received (crates : Crates) (request : PushRequest) : Prop extends Admitted crates request where
  revision : request.expectedRevision < 2^64

-- Another request than `x`, whatever the mutation ids are.
def Differ (x y : PushRequest) : Prop := {x with mutationId := y.mutationId} ≠ y

instance (x y : PushRequest) : Decidable (Differ x y) := inferInstanceAs (Decidable (_ ≠ _))

def envelopeText (envelope : EncryptedEnvelope) : String :=
  envelope.wrappedKey.nonce ++ envelope.wrappedKey.ciphertext ++ envelope.payload.nonce ++ envelope.payload.ciphertext

-- The two say the same everywhere before the envelope's texts, and these are one
-- text cut in other places.
structure Recut (x y : PushRequest) : Prop where
  object : x.objectId = y.objectId
  expected : x.expectedRevision = y.expectedRevision
  kind : x.objectKind = y.objectKind
  deleted : x.isDeleted = y.isDeleted
  envelopeKind : x.envelope.objectKind = y.envelope.objectKind
  joined : envelopeText x.envelope = envelopeText y.envelope

section
variable {crates : Crates} {x y : PushRequest}

theorem bytes_append (a b : String) : asBytes (a ++ b) = asBytes a ++ asBytes b := by
  rw [asBytes,String.toList_append,List.flatMap_append]
  rfl

theorem envelope_bytes (envelope : EncryptedEnvelope) : asBytes (envelopeText envelope) =
    asBytes envelope.wrappedKey.nonce ++ (asBytes envelope.wrappedKey.ciphertext ++ (asBytes envelope.payload.nonce ++ asBytes envelope.payload.ciphertext)) := by
  rw [envelopeText,bytes_append,bytes_append,bytes_append,List.append_assoc,List.append_assoc]

-- Ids and integers can be read off the hashed bytes; the four texts after them
-- can only be read off as a whole.
theorem request_bytes_iff (forms : Forms crates) (one : Received crates x) (two : Received crates y) :
    mutationRequestBytes x = mutationRequestBytes y ↔ Recut x y := by
  have formed : ∀ {request}, Received crates request → Form request.objectId.toList := by
    intro request received
    obtain ⟨o,read⟩ := received.object
    exact forms _ _ read
  have widths : ∀ width m n, (toLeBytes width m).length = (toLeBytes width n).length := by
    intro width m n
    rw [le_bytes_length,le_bytes_length]
  simp only [mutationRequestBytes,List.append_assoc,← envelope_bytes]
  constructor
  · intro same
    obtain ⟨object,same⟩ := form_prefix (formed one) (formed two) same
    obtain ⟨expected,same⟩ := head_inj same (widths 8 _ _)
    obtain ⟨kind,same⟩ := head_inj same (widths 2 _ _)
    obtain ⟨deleted,same⟩ := head_inj same (by rfl)
    obtain ⟨_,same⟩ := head_inj same (widths 4 _ _)
    obtain ⟨_,same⟩ := head_inj same (by rw [one.envelope,two.envelope,object])
    obtain ⟨envelopeKind,joined⟩ := head_inj same (widths 2 _ _)
    refine ⟨object,le_bytes_inj 8 one.revision two.revision expected,?_,?_,?_,as_bytes_inj joined⟩
    · exact UInt16.toNat_inj.mp (le_bytes_inj 2 x.objectKind.toNat_lt y.objectKind.toNat_lt kind)
    · cases first : x.isDeleted <;> cases second : y.isDeleted <;> simp [first,second] at deleted ⊢
    · exact UInt16.toNat_inj.mp (le_bytes_inj 2 x.envelope.objectKind.toNat_lt y.envelope.objectKind.toNat_lt envelopeKind)
  · intro recut
    rw [recut.object,recut.expected,recut.kind,recut.deleted,recut.envelopeKind,recut.joined,one.version,two.version,one.envelope,two.envelope,
      recut.object]

theorem handler_passes (received : Received crates y) (db : ServerDb) (account : String) :
    (pushMutationHandler crates db account y).1 = pushReply (pushMutation crates db account y).1 := by
  unfold pushMutationHandler
  rw [admitted_passes received.toAdmitted]

-- What comes under a recorded mutation id is held against the recorded digest.
theorem replay_cases (forms : Forms crates) {log : List Acceptance} {db : ServerDb} (rep : Represents crates log db) {e : Acceptance} (inside : e ∈ log)
    (one : Received crates e.request) (two : Received crates y) (named : crates.parseUuid y.mutationId = .ok e.mutationId)
    (apart : crates.blake2s (mutationRequestBytes e.request) = crates.blake2s (mutationRequestBytes y) →
      mutationRequestBytes e.request = mutationRequestBytes y) :
    (Recut e.request y → (pushMutation crates db e.accountId y).1 = .ok (.success (responseOf e))) ∧
    (¬Recut e.request y → ∃ message, (pushMutation crates db e.accountId y).1 = .ok (.replayMismatch message)) := by
  obtain ⟨o,object⟩ := two.object
  rw [push_replayed rep ⟨object,named⟩ (logged_mutation rep inside)]
  constructor
  · intro recut
    have sameObject : o = e.objectId := by
      have read := (rep.parsed e inside).object
      rw [recut.object,object] at read
      exact Except.ok.inj read
    have sameHash : computeMutationRequestHash crates y = computeMutationRequestHash crates e.request := by
      unfold computeMutationRequestHash
      rw [(request_bytes_iff forms one two).mpr recut]
    simp only [replayOutcome,processedOf,sameObject,sameHash,ne_eq,not_true,if_false]
  · intro other
    have hashes : computeMutationRequestHash crates e.request ≠ computeMutationRequestHash crates y :=
      fun same => other ((request_bytes_iff forms one two).mp (apart same))
    unfold replayOutcome
    split
    · exact ⟨_,rfl⟩
    · simp only [processedOf]
      rw [if_pos hashes]
      exact ⟨_,rfl⟩

end

theorem requests_separated_iff {crates : Crates} (forms : Forms crates) :
    (∀ x y, Received crates x → Received crates y → Differ x y → (mutationRequestBytes x ≠ mutationRequestBytes y ↔ ¬Recut x y)) ∧
    ∀ calls : List Call, (∀ call ∈ calls, Received crates call.2) → ∀ e ∈ acceptedBy crates .newInMemory calls, ∀ y, Received crates y →
      Differ e.request y → crates.parseUuid y.mutationId = .ok e.mutationId →
      (crates.blake2s (mutationRequestBytes e.request) = crates.blake2s (mutationRequestBytes y) →
        mutationRequestBytes e.request = mutationRequestBytes y) →
      let reply := (pushMutationHandler crates (pushAll crates .newInMemory calls) e.accountId y).1
      ((∃ message, reply = errorReply 409 errorMutationReplayMismatch message) ↔ ¬Recut e.request y) ∧
      (reply = .response 200 ⟨.ok (responseOf e),none,none,""⟩ ↔ Recut e.request y) := by
  refine ⟨fun x y one two _ => not_congr (request_bytes_iff forms one two),?_⟩
  intro calls received e inside y two differ named apart reply
  obtain ⟨call,member,_,same,_⟩ := accepted_call inside
  have one : Received crates e.request := same ▸ received call member
  obtain ⟨recut,other⟩ := replay_cases forms (reached_represents calls) inside one two named apart
  have answered : reply = _ := handler_passes two (pushAll crates .newInMemory calls) e.accountId
  by_cases cut : Recut e.request y
  · rw [recut cut] at answered
    refine ⟨iff_of_false (fun mismatch => ?_) (fun apart => apart cut),iff_of_true answered cut⟩
    obtain ⟨message,is⟩ := mismatch
    cases answered.symm.trans is
  · obtain ⟨message,is⟩ := other cut
    rw [is] at answered
    refine ⟨iff_of_true ⟨message,answered⟩ cut,iff_of_false (fun success => ?_) cut⟩
    cases answered.symm.trans success

-- The stand-in with Base64 itself.
def paddedCrates : Crates := {Crates.standIn with decodable := fun text => (Base64Text.decode text.toList).isSome}

theorem padded_forms : Forms paddedCrates := by
  intro text spelling read
  dsimp only [paddedCrates,Crates.standIn] at read
  split at read
  · rename_i canonical
    rw [hyphenated,Bool.and_eq_true,decide_eq_true_eq,List.all_eq_true] at canonical
    refine .hyphenated ⟨by rw [String.length_toList,canonical.1],fun i c at_ => ?_⟩
    have allowed := canonical.2 (c,i) (List.mem_zipIdx_iff_getElem?.mpr at_)
    dsimp only at allowed
    split at allowed
    · rename_i place
      rw [if_pos place]
      exact eq_of_beq allowed
    · rename_i place
      rw [if_neg place,isHex,allowed]
      rfl
  · cases read

def pushOf (keyNonce keyText : String) : PushRequest :=
  ⟨change1,firstNote,0,1,⟨1,firstNote,1,⟨keyNonce,keyText⟩,⟨"AAAA","AAAA"⟩⟩,false⟩

theorem push_received (nonce : (Base64Text.decode keyNonce.toList).isSome = true) (text : (Base64Text.decode keyText.toList).isSome = true) :
    Received paddedCrates (pushOf keyNonce keyText) := by
  have mutation : paddedCrates.parseUuid change1 = .ok change1 := by decide
  have object : paddedCrates.parseUuid firstNote = .ok firstNote := by decide
  have payload : paddedCrates.decodable "AAAA" = true := by decide
  exact ⟨⟨⟨change1,mutation⟩,⟨firstNote,object⟩,rfl,rfl,nonce,text,payload,payload⟩,show 0 < 2^64 by decide⟩

def storedPush : Acceptance := ⟨"alice",firstNote,change1,pushOf "AAAA" "BBBBCCCC",1,1⟩

theorem changed_key_refused :
    mutationRequestBytes (pushOf "AAAA" "BBBBCCCC") ≠ mutationRequestBytes (pushOf "AAAA" "BBBBDDDD") ∧
    ∃ message, (pushMutationHandler paddedCrates (pushAll paddedCrates .newInMemory [("alice",pushOf "AAAA" "BBBBCCCC")]) "alice"
      (pushOf "AAAA" "BBBBDDDD")).1 = errorReply 409 errorMutationReplayMismatch message := by
  have one : Received paddedCrates (pushOf "AAAA" "BBBBCCCC") := push_received (by decide) (by decide)
  have two : Received paddedCrates (pushOf "AAAA" "BBBBDDDD") := push_received (by decide) (by decide)
  have differ : Differ (pushOf "AAAA" "BBBBCCCC") (pushOf "AAAA" "BBBBDDDD") := by decide
  have uncut : ¬Recut (pushOf "AAAA" "BBBBCCCC") (pushOf "AAAA" "BBBBDDDD") :=
    fun recut => absurd recut.joined (by decide)
  refine ⟨((requests_separated_iff padded_forms).1 _ _ one two differ).mpr uncut,?_⟩
  exact ((requests_separated_iff padded_forms).2 [("alice",pushOf "AAAA" "BBBBCCCC")] (by simpa using one) storedPush (by decide) _ two differ
    (by decide) id).1.mpr uncut

theorem recut_acknowledged :
    Received paddedCrates (pushOf "AAAA" "BBBBCCCC") ∧ Received paddedCrates (pushOf "AAAABBBB" "CCCC") ∧
    Differ (pushOf "AAAA" "BBBBCCCC") (pushOf "AAAABBBB" "CCCC") ∧
    mutationRequestBytes (pushOf "AAAA" "BBBBCCCC") = mutationRequestBytes (pushOf "AAAABBBB" "CCCC") ∧
    (pushMutationHandler paddedCrates (pushAll paddedCrates .newInMemory [("alice",pushOf "AAAA" "BBBBCCCC")]) "alice"
      (pushOf "AAAABBBB" "CCCC")).1 = .response 200 ⟨.ok ⟨firstNote,1,1⟩,none,none,""⟩ := by
  have two : Received paddedCrates (pushOf "AAAABBBB" "CCCC") := push_received (by decide) (by decide)
  have answered : (pushMutation paddedCrates (pushAll paddedCrates .newInMemory [("alice",pushOf "AAAA" "BBBBCCCC")]) "alice"
      (pushOf "AAAABBBB" "CCCC")).1 = .ok (.success ⟨firstNote,1,1⟩) := by decide
  exact ⟨push_received (by decide) (by decide),two,by decide,by decide,(handler_passes two _ _).trans (congrArg pushReply answered)⟩

end ZkNote.RequestSeparation
