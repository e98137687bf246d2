import ZkNote.KeyedTable
import ZkNote.Protocol
import ZkNote.VaultIdentity

namespace ZkNote.VaultStore
open KeyedTable Protocol VaultIdentity

structure StoredKdfParams where
  memoryKib : UInt32
  iterations : UInt32
  parallelism : UInt32
  deriving DecidableEq, Repr

-- base64ct's encoder and serde_json, which reads back what it wrote; a Blake2s256
-- digest has 32 bytes.
structure VaultCrates extends IdentityCrates where
  encode : List UInt8 → String
  encoded : ∀ bytes, decode (encode bytes) = some bytes
  kdfToString : StoredKdfParams → String
  kdfFromStr : String → Option StoredKdfParams
  kdfRead : ∀ params, kdfFromStr (kdfToString params) = some params
  keyToVec : WrappedVaultKey → List UInt8
  keyFromSlice : List UInt8 → Option WrappedVaultKey
  keyRead : ∀ key, keyFromSlice (keyToVec key) = some key
  digest : ∀ bytes, (blake2s bytes).length = 32

structure VaultRow where
  accountId : String
  cryptoVersion : Int
  kdfAlgorithm : String
  kdfParams : String
  kdfSalt : List UInt8
  wrappedVaultKey : List UInt8
  recoveryWrappedVaultKey : List UInt8
  deriving DecidableEq, Repr

abbrev Vaults := Table String VaultRow (·.accountId)

inductive DbError where
  | vaultAlreadyExists (accountId : String)
  | invalidBase64
  | constraint
  | serialization
  deriving DecidableEq, Repr

def vaultRow (c : VaultCrates) (accountId : String) (b : VaultBootstrap) (salt : List UInt8) : VaultRow where
  accountId := accountId
  cryptoVersion := b.cryptoVersion.toNat
  kdfAlgorithm := b.kdf.algorithm
  kdfParams := c.kdfToString ⟨b.kdf.memoryKib,b.kdf.iterations,b.kdf.parallelism⟩
  kdfSalt := salt
  wrappedVaultKey := c.keyToVec b.wrappedVaultKey
  recoveryWrappedVaultKey := c.keyToVec b.recoveryWrappedVaultKey

def createVaultBootstrap (c : VaultCrates) (vaults : Vaults) (accountId : String) (b : VaultBootstrap) : Except DbError Vaults :=
  if 0 < (vaults.rows.filter (fun row => row.accountId = accountId)).length then .error (.vaultAlreadyExists accountId)
  else match c.decode b.kdf.salt with
  | none => .error .invalidBase64
  | some salt =>
    match vaults.insert (vaultRow c accountId b salt) with
    | none => .error .constraint
    | some vaults => .ok vaults

def readVaultRow (c : VaultCrates) (row : VaultRow) : Except DbError VaultBootstrap :=
  match c.kdfFromStr row.kdfParams,c.keyFromSlice row.wrappedVaultKey,c.keyFromSlice row.recoveryWrappedVaultKey with
  | some params,some wrapped,some recovery =>
    .ok
      { cryptoVersion := UInt32.ofNat (row.cryptoVersion % 2^32).toNat
        kdf := ⟨row.kdfAlgorithm,c.encode row.kdfSalt,params.memoryKib,params.iterations,params.parallelism⟩
        wrappedVaultKey := wrapped
        recoveryWrappedVaultKey := recovery }
  | _,_,_ => .error .serialization

def getVaultBootstrap (c : VaultCrates) (vaults : Vaults) (accountId : String) : Except DbError (Option VaultBootstrap) :=
  match vaults.find accountId with
  | none => .ok none
  | some row => (readVaultRow c row).map some

-- `trim().is_empty()`: Rust's white space, and JavaScript's.
def rustSpaces : List Nat := [9,10,11,12,13,32,133,160,5760,8192,8193,8194,8195,8196,8197,8198,8199,8200,8201,8202,8232,8233,8239,8287,12288]
def jsSpaces : List Nat := [9,10,11,12,13,32,160,5760,8192,8193,8194,8195,8196,8197,8198,8199,8200,8201,8202,8232,8233,8239,8287,12288,65279]
def blank (spaces : List Nat) (text : String) : Bool := text.toList.all (fun letter => spaces.contains letter.toNat)

inductive Reply where
  | created
  | found (b : VaultBootstrap)
  | notFound
  | conflict
  | badRequest (code : String)
  | serverFailure
  | refused
  deriving DecidableEq, Repr

-- `none` is a body that is no bootstrap, such as one with a null for a number.
def createVaultBootstrapHandler (c : VaultCrates) (vaults : Vaults) (accountId : String) : Option VaultBootstrap → Vaults × Reply
  | none => (vaults,.badRequest "INVALID_VAULT_BOOTSTRAP")
  | some b =>
    if b.cryptoVersion ≠ 1 then (vaults,.badRequest errorCryptoUnsupportedVersion)
    else if blank rustSpaces b.kdf.algorithm ∨ b.kdf.memoryKib = 0 ∨ b.kdf.iterations = 0 ∨ b.kdf.parallelism = 0 then
      (vaults,.badRequest "INVALID_VAULT_BOOTSTRAP")
    else if c.decode b.kdf.salt = none then (vaults,.badRequest "INVALID_VAULT_BOOTSTRAP")
    else match createVaultBootstrap c vaults accountId b with
    | .ok vaults => (vaults,.created)
    | .error (.vaultAlreadyExists _) => (vaults,.conflict)
    | .error _ => (vaults,.serverFailure)

def getVaultBootstrapHandler (c : VaultCrates) (vaults : Vaults) (accountId : String) : Reply :=
  match getVaultBootstrap c vaults accountId with
  | .ok (some b) => .found b
  | .ok none => .notFound
  | .error _ => .serverFailure

variable {c : VaultCrates} {vaults vaults' : Vaults} {accountId : String} {b : VaultBootstrap}

-- What a bootstrap was stored from is what is read back.
theorem row_read {salt : List UInt8} (decoded : c.decode b.kdf.salt = some salt) : readVaultRow c (vaultRow c accountId b salt) = .ok b := by
  have salted : c.encode salt = b.kdf.salt := c.canonical _ _ salt (c.encoded salt) decoded
  have version : UInt32.ofNat ((b.cryptoVersion.toNat : Int) % 2^32).toNat = b.cryptoVersion := by
    apply UInt32.toNat_inj.mp
    have small := b.cryptoVersion.toNat_lt
    rw [UInt32.toNat_ofNat']
    omega
  simp only [readVaultRow,vaultRow,c.kdfRead,c.keyRead,salted,version]

theorem create_done (done : createVaultBootstrap c vaults accountId b = .ok vaults') :
    vaults.find accountId = none ∧ getVaultBootstrap c vaults' accountId = .ok (some b) ∧ ∀ other, other ≠ accountId → vaults'.find other = vaults.find other := by
  unfold createVaultBootstrap at done
  split at done
  · cases done
  · split at done
    · cases done
    · rename_i salt decoded
      split at done
      · cases done
      · rename_i inserted
        cases done
        obtain ⟨fresh,rfl⟩ := insert_cases inserted
        refine ⟨fresh,?_,fun other unlike => find_upsert_other vaults (vaultRow c accountId b salt) (fun same => unlike same.symm)⟩
        have found : (vaults.upsert (vaultRow c accountId b salt)).find accountId = some (vaultRow c accountId b salt) :=
          find_upsert_same vaults (vaultRow c accountId b salt)
        rw [getVaultBootstrap,found]
        exact congrArg (Except.map some) (row_read decoded)

-- A POST writes the bootstrap of an account that had none, or it writes nothing.
theorem posted_cases {body : Option VaultBootstrap} (posted : createVaultBootstrapHandler c vaults accountId body = (vaults',reply)) :
    vaults' = vaults ∧ reply ≠ .created ∨
    reply = .created ∧ vaults.find accountId = none ∧ ∃ b, body = some b ∧ getVaultBootstrap c vaults' accountId = .ok (some b) := by
  unfold createVaultBootstrapHandler at posted
  split at posted
  · cases posted
    exact .inl ⟨rfl,by decide⟩
  · rename_i b
    split at posted
    · cases posted
      exact .inl ⟨rfl,by decide⟩
    · split at posted
      · cases posted
        exact .inl ⟨rfl,by decide⟩
      · split at posted
        · cases posted
          exact .inl ⟨rfl,by decide⟩
        · split at posted
          · rename_i done
            cases posted
            obtain ⟨fresh,stored,_⟩ := create_done done
            exact .inr ⟨rfl,fresh,b,rfl,stored⟩
          · cases posted
            exact .inl ⟨rfl,by decide⟩
          · cases posted
            exact .inl ⟨rfl,by decide⟩

theorem post_unfound {body : Option VaultBootstrap} : (createVaultBootstrapHandler c vaults accountId body).2 ≠ .found b := by
  unfold createVaultBootstrapHandler
  split
  · intro is
    cases is
  · split
    · intro is
      cases is
    · split
      · intro is
        cases is
      · split
        · intro is
          cases is
        · split <;>
          · intro is
            cases is

theorem got_found (got : getVaultBootstrapHandler c vaults accountId = .found b) : getVaultBootstrap c vaults accountId = .ok (some b) := by
  unfold getVaultBootstrapHandler at got
  split at got
  · rename_i stored
    cases got
    exact stored
  · cases got
  · cases got

end ZkNote.VaultStore
