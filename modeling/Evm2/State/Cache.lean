import Evm2.Lib.Op
import Evm2.State.Account

/-!
# The cache database

`CacheDB` serves reads from a `Cache` and falls back to the wrapped `Database`, caching what it
reads. Entries of the cache are authoritative: a cached `none` account or a wiped storage shadows
the database. No block access list is attached.
-/

namespace Evm2

/-- The backing database (`DynDatabase`). -/
structure Database where
  getAccount : Address → Except DatabaseError (Option AccountInfo)
  getCodeByHash : B256 → Except DatabaseError Bytecode
  getStorage : Address → Word → Except DatabaseError Word
  getBlockHash : Word → Except DatabaseError B256

def Database.empty [Keccak] : Database where
  getAccount _ := .ok none
  getCodeByHash _ := .ok Bytecode.new
  getStorage _ _ := .ok 0
  getBlockHash number :=
    .ok (keccak256 ((Nat.toDigits 10 number.toNat).map fun c => BitVec.ofNat 8 c.toNat))

structure AccountStorageCache where
  slots : Map Word Word
  wiped : Bool

namespace AccountStorageCache

def default : AccountStorageCache := ⟨∅, false⟩

instance : Inhabited AccountStorageCache := ⟨default⟩

def wipe (_ : AccountStorageCache) : AccountStorageCache := ⟨∅, true⟩

end AccountStorageCache

structure Cache where
  accounts : Map Address (Option AccountInfo)
  contracts : Map B256 Bytecode
  storage : Map Address AccountStorageCache
  blockHashes : Map Word B256

def normalizeCodeHash (info : AccountInfo) : AccountInfo :=
  if info.codeHash = 0 then { info with codeHash := KECCAK256_EMPTY } else info

namespace Cache

def default : Cache := ⟨∅, AList.singleton KECCAK256_EMPTY Bytecode.new, ∅, ∅⟩

variable (db : Database)

def getCodeByHash (codeHash : B256) : Op Cache DatabaseError Bytecode where
  run c :=
    let codeHash := if codeHash = 0 then KECCAK256_EMPTY else codeHash
    match c.contracts.lookup codeHash with
    | some code => (.ok code, c)
    | none =>
      match db.getCodeByHash codeHash with
      | .error e => (.error e, c)
      | .ok code => (.ok code, { c with contracts := c.contracts.set codeHash code })

def knownAbsent (c : Cache) (a : Address) : Bool :=
  match c.accounts.lookup a with
  | some none => true
  | _ => false

def getStorage (a : Address) (key : Word) : Op Cache DatabaseError Word where
  run c :=
    let storage := (c.storage.lookup a).getD .default
    match storage.slots.lookup key with
    | some value => (.ok value, c)
    | none =>
      if storage.wiped then (.ok 0, c)
      else if c.knownAbsent a then (.ok 0, c)
      else
        match db.getStorage a key with
        | .error e => (.error e, c)
        | .ok value =>
          (.ok value,
            { c with storage := c.storage.set a { storage with
                slots := storage.slots.set key value } })

def getBlockHash (number : Word) : Op Cache DatabaseError B256 where
  run c :=
    match c.blockHashes.lookup number with
    | some hash => (.ok hash, c)
    | none =>
      match db.getBlockHash number with
      | .error e => (.error e, c)
      | .ok hash => (.ok hash, { c with blockHashes := c.blockHashes.set number hash })

variable [Keccak]

def insertContractInner (contracts : Map B256 Bytecode) (info : AccountInfo) :
    Map B256 Bytecode × AccountInfo :=
  let info := normalizeCodeHash info
  match info.code with
  | none => (contracts, info)
  | some code =>
    if code.isEmpty then (contracts, info)
    else
      let info := if info.isEmptyCodeHash then { info with codeHash := code.hashSlow } else info
      (contracts.adjust info.codeHash code id, info)

def insertAccountInfo (c : Cache) (a : Address) (info : AccountInfo) : Cache :=
  let r := insertContractInner c.contracts info
  { c with contracts := r.1, accounts := c.accounts.set a (some { r.2 with code := none }) }

def getAccount (a : Address) : Op Cache DatabaseError (Option AccountInfo) where
  run c :=
    match c.accounts.lookup a with
    | some account => (.ok (account.map normalizeCodeHash), c)
    | none =>
      match db.getAccount a with
      | .error e => (.error e, c)
      | .ok none => (.ok none, { c with accounts := c.accounts.set a none })
      | .ok (some info) =>
        let r := insertContractInner c.contracts info
        let info := { r.2 with code := none }
        (.ok (some (normalizeCodeHash info)),
          { c with contracts := r.1, accounts := c.accounts.set a (some info) })

end Cache

end Evm2
