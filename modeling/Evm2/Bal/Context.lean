import Evm2.Bal.List
import Evm2.State.CacheSink
import Evm2.State.Finalize

/-!
# Block access lists beside the cache database

`CacheDB` carries a `BalContext`: a list that is consulted on reads, and a list that is built from
the transactions that are committed. Both are used at one block access index.
-/

namespace Evm2

inductive BalError
  | accountNotFound (address : Address)
  | slotNotFound (address : Address) (slot : Word)
  deriving DecidableEq, Repr

structure BalContext where
  bal : Option Bal
  balBuilder : Option Bal
  balIndex : ℕ
  allowDbFallback : Bool

namespace BalContext

def new : BalContext := ⟨none, none, 0, false⟩

variable (ctx : BalContext)

/-- `BalContext` as a sink: nothing is done if no list is built. -/
def sink (change : StateChange) : BalContext :=
  { ctx with balBuilder := ctx.balBuilder.map fun bal => BalWriter.sink ctx.balIndex bal change }

def commit (pending : PendingState) : BalContext :=
  { ctx with balBuilder := ctx.balBuilder.map fun bal => bal.commit ctx.balIndex pending }

def getBalAccount (address : Address) : Except BalError (Option AccountBal) :=
  match ctx.bal with
  | none => .ok none
  | some bal =>
    match bal.accounts.lookup address with
    | some balAccount => .ok (some balAccount)
    | none => if ctx.allowDbFallback then .ok none else .error (.accountNotFound address)

/-- `BalContext::populate_bal_account`: an account without writes stays absent. -/
def populateBalAccount (balAccount : AccountBal) (account : Option AccountInfo) :
    Option AccountInfo :=
  let r := balAccount.accountInfo.populateAccountInfo ctx.balIndex (account.getD .default)
  if r.1 || account.isSome then some r.2 else none

def balStorage (address : Address) (key : Word) : Except BalError (Option Word) :=
  match ctx.bal with
  | none => .ok none
  | some bal =>
    match bal.accounts.lookup address with
    | none => if ctx.allowDbFallback then .ok none else .error (.accountNotFound address)
    | some balAccount =>
      match balAccount.storage.lookup key with
      | some changes => .ok (changes.get ctx.balIndex)
      | none => if ctx.allowDbFallback then .ok none else .error (.slotNotFound address key)

end BalContext

/-- The errors of `CacheDB`. The code erases the errors of the list to a `DatabaseError` that is not
fatal. -/
inductive CacheDBError
  | database (e : DatabaseError)
  | bal (e : BalError)
  deriving DecidableEq, Repr

/-- `CacheDB`, over a database that is a parameter of its operations. -/
structure CacheDB where
  cache : Cache
  balContext : BalContext

namespace CacheDB

def onCache {α : Type} (x : Op Cache DatabaseError α) : Op CacheDB CacheDBError α where
  run d := ((x.run d.cache).1.mapError .database, { d with cache := (x.run d.cache).2 })

def getCodeByHash (db : Database) (codeHash : B256) : Op CacheDB CacheDBError Bytecode :=
  onCache (Cache.getCodeByHash db codeHash)

def getStorage (db : Database) (address : Address) (key : Word) : Op CacheDB CacheDBError Word where
  run d :=
    match d.balContext.balStorage address key with
    | .ok (some value) => (.ok value, d)
    | .ok none => (onCache (Cache.getStorage db address key)).run d
    | .error e => (.error (.bal e), d)

variable [Keccak]

def getAccount (db : Database) (address : Address) :
    Op CacheDB CacheDBError (Option AccountInfo) where
  run d :=
    match d.balContext.getBalAccount address with
    | .error e => (.error (.bal e), d)
    | .ok none => (onCache (Cache.getAccount db address)).run d
    | .ok (some balAccount) =>
      let r := (onCache (Cache.getAccount db address)).run d
      (r.1.map (d.balContext.populateBalAccount balAccount), r.2)

def sink (d : CacheDB) (change : StateChange) : CacheDB :=
  ⟨d.cache.sink change, d.balContext.sink change⟩

def commitSource (d : CacheDB) (source : List StateChange) : CacheDB := source.foldl sink d

def commitPending (d : CacheDB) (pending : PendingState) : CacheDB :=
  ⟨d.cache.commit pending.accounts, d.balContext.commit pending⟩

end CacheDB

end Evm2
