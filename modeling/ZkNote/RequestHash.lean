import ZkNote.WorkerStore

namespace ZkNote.RequestHash
open Protocol ServerStore WorkerStore

theorem as_bytes_inj {a b : String} (same : asBytes a = asBytes b) : a = b := by
  have bytes : a.toByteArray = b.toByteArray := by
    rw [← String.utf8Encode_toList,← String.utf8Encode_toList]
    exact congrArg List.toByteArray same
  exact String.toByteArray_inj.mp bytes

theorem le_bytes_length (width n : Nat) : (toLeBytes width n).length = width := by
  induction width generalizing n with
  | zero => rfl
  | succ width ih => simp [toLeBytes,ih]

theorem le_bytes_inj (width : Nat) {m n : Nat} (small : m < 256^width) (other : n < 256^width)
    (same : toLeBytes width m = toLeBytes width n) : m = n := by
  induction width generalizing m n with
  | zero =>
      simp at small other
      omega
  | succ width ih =>
      rw [toLeBytes,toLeBytes,List.cons.injEq] at same
      have low : m % 256 = n % 256 := by
        have bytes := congrArg UInt8.toNat same.1
        simpa using bytes
      have high := ih (by rw [Nat.pow_succ] at small; omega) (by rw [Nat.pow_succ] at other; omega) same.2
      omega

-- What the crates' documentation says of the spellings: an id is written with
-- 36 characters, and padded Base64 takes four characters for three bytes.
structure Spelling (crates : Crates) where
  decodeBase64 : String → Option (List UInt8)
  decodable : ∀ text, crates.decodable text = (decodeBase64 text).isSome
  padded : ∀ text bytes, decodeBase64 text = some bytes → (asBytes text).length = 4 * ((bytes.length+2) / 3)
  hyphenated : ∀ text spelling, crates.parseUuid text = .ok spelling → (asBytes spelling).length = 36

variable {crates : Crates} {spelling : Spelling crates} {x y : PushRequest}

def OfSize (spelling : Spelling crates) (size : Nat) (text : String) : Prop :=
  ∃ bytes, spelling.decodeBase64 text = some bytes ∧ bytes.length = size

-- A request as the clients build it: canonical ids, an envelope that repeats the
-- request's id and kind, nonces of 24 bytes and wrapped keys of 48.
structure Fit (spelling : Spelling crates) (request : PushRequest) : Prop where
  object : crates.parseUuid request.objectId = .ok request.objectId
  mutation : crates.parseUuid request.mutationId = .ok request.mutationId
  envelopeObject : request.envelope.objectId = request.objectId
  envelopeKind : request.envelope.objectKind = request.objectKind
  keyNonce : OfSize spelling 24 request.envelope.wrappedKey.nonce
  wrappedKey : OfSize spelling 48 request.envelope.wrappedKey.ciphertext
  payloadNonce : OfSize spelling 24 request.envelope.payload.nonce
  exact : request.expectedRevision < 2^53-1

theorem size_bytes (sized : OfSize spelling size text) : (asBytes text).length = 4 * ((size+2) / 3) := by
  obtain ⟨bytes,read,rfl⟩ := sized
  exact spelling.padded text bytes read

theorem size_decodable (sized : OfSize spelling size text) : crates.decodable text = true := by
  obtain ⟨bytes,read,_⟩ := sized
  rw [spelling.decodable,read]
  rfl

theorem head_inj {a b : List UInt8} (same : a ++ c = b ++ d) (length : a.length = b.length) : a = b ∧ c = d :=
  List.append_inj same length

-- The concatenation that the native server hashes gives every field back: all
-- but the last of them have a fixed length.
theorem request_bytes_inj (one : Fit spelling x) (two : Fit spelling y) (named : x.mutationId = y.mutationId)
    (same : mutationRequestBytes x = mutationRequestBytes y) : x = y := by
  have bytes : ∀ (a b : String), crates.parseUuid a = .ok a → crates.parseUuid b = .ok b → (asBytes a).length = (asBytes b).length := by
    intro a b readA readB
    rw [spelling.hyphenated a a readA,spelling.hyphenated b b readB]
  have sized : ∀ {size a b}, OfSize spelling size a → OfSize spelling size b → (asBytes a).length = (asBytes b).length := by
    intro size a b sizeA sizeB
    rw [size_bytes sizeA,size_bytes sizeB]
  have widths : ∀ width m n, (toLeBytes width m).length = (toLeBytes width n).length := by
    intro width m n
    rw [le_bytes_length,le_bytes_length]
  simp only [mutationRequestBytes,List.append_assoc] at same
  obtain ⟨object,same⟩ := head_inj same (bytes _ _ one.object two.object)
  obtain ⟨expected,same⟩ := head_inj same (widths 8 _ _)
  obtain ⟨kind,same⟩ := head_inj same (widths 2 _ _)
  obtain ⟨deleted,same⟩ := head_inj same (by rfl)
  obtain ⟨version,same⟩ := head_inj same (widths 4 _ _)
  obtain ⟨_,same⟩ := head_inj same (by rw [one.envelopeObject,two.envelopeObject]; exact bytes _ _ one.object two.object)
  obtain ⟨_,same⟩ := head_inj same (widths 2 _ _)
  obtain ⟨keyNonce,same⟩ := head_inj same (sized one.keyNonce two.keyNonce)
  obtain ⟨wrappedKey,same⟩ := head_inj same (sized one.wrappedKey two.wrappedKey)
  obtain ⟨payloadNonce,payload⟩ := head_inj same (sized one.payloadNonce two.payloadNonce)
  have object := as_bytes_inj object
  have exactX := one.exact
  have exactY := two.exact
  have expected := le_bytes_inj 8 (by omega) (by omega) expected
  have kind : x.objectKind = y.objectKind := UInt16.toNat_inj.mp (le_bytes_inj 2 x.objectKind.toNat_lt y.objectKind.toNat_lt kind)
  have version : x.envelope.envelopeVersion = y.envelope.envelopeVersion :=
    UInt32.toNat_inj.mp (le_bytes_inj 4 x.envelope.envelopeVersion.toNat_lt y.envelope.envelopeVersion.toNat_lt version)
  have deleted : x.isDeleted = y.isDeleted := by
    cases first : x.isDeleted <;> cases second : y.isDeleted <;> simp [first,second] at deleted ⊢
  have envelopeObject := one.envelopeObject.trans (object.trans two.envelopeObject.symm)
  have envelopeKind := one.envelopeKind.trans (kind.trans two.envelopeKind.symm)
  have keyNonce := as_bytes_inj keyNonce
  have wrappedKey := as_bytes_inj wrappedKey
  have payloadNonce := as_bytes_inj payloadNonce
  have payload := as_bytes_inj payload
  obtain ⟨mutX,objX,expX,kindX,⟨versionX,eobjX,ekindX,⟨knX,kcX⟩,⟨pnX,pcX⟩⟩,delX⟩ := x
  obtain ⟨mutY,objY,expY,kindY,⟨versionY,eobjY,ekindY,⟨knY,kcY⟩,⟨pnY,pcY⟩⟩,delY⟩ := y
  subst named object expected kind version deleted envelopeObject envelopeKind keyNonce wrappedKey payloadNonce payload
  rfl

-- Blake2s finds no two of these requests alike, and JSON loses none of them.
structure Apart (c : WorkerCrates) (requests : List PushRequest) : Prop where
  native : ∀ x ∈ requests, ∀ y ∈ requests,
    c.crates.blake2s (mutationRequestBytes x) = c.crates.blake2s (mutationRequestBytes y) → mutationRequestBytes x = mutationRequestBytes y
  worker : ∀ x ∈ requests, ∀ y ∈ requests, c.crates.blake2s (c.encode x) = c.crates.blake2s (c.encode y) → c.encode x = c.encode y
  lossless : ∀ x ∈ requests, ∀ y ∈ requests, c.encode x = c.encode y → x = y

-- Under one mutation id the two hashes tell the same requests apart.
theorem hashes_agree {c : WorkerCrates} {spelling : Spelling c.crates} {requests : List PushRequest} (apart : Apart c requests) (inX : x ∈ requests)
    (inY : y ∈ requests) (one : Fit spelling x) (two : Fit spelling y) (named : x.mutationId = y.mutationId) :
    computeMutationRequestHash c.crates x = computeMutationRequestHash c.crates y ↔ c.crates.blake2s (c.encode x) = c.crates.blake2s (c.encode y) := by
  constructor
  · intro same
    rw [request_bytes_inj one two named (apart.native x inX y inY same)]
  · intro same
    rw [apart.lossless x inX y inY (apart.worker x inX y inY same)]

end ZkNote.RequestHash
