import Evm2.State.Cache
import Evm2.State.PrewarmSet
import Evm2.Features

/-!
# The revert journal and the account and slot handles

A mutation session on an account goes through an `AccountHandle`. The first mutation takes a
snapshot, and the snapshot becomes one `JournalEntry.accountChange` when the handle is dropped;
slot mutations write their entries at once. Loads are never journaled.

The journal is kept newest entry first.
-/

namespace Evm2

inductive JournalEntry
  | accountChange (address : Address) (previous : Option AccountInfo)
      (previousFlags : AccountFlags)
  | storageChange (address : Address) (key previous : Word)
  | transientStorageChange (address : Address) (key : Word) (previous : Option Word)
  | storageWarmed (address : Address) (key : Word)
  deriving DecidableEq, Repr

structure StateInner where
  cache : Cache
  journal : List JournalEntry
  logs : List Log
  prewarmSet : PrewarmSet

def StateInner.pushJournal (inner : StateInner) (e : JournalEntry) : StateInner :=
  { inner with journal := e :: inner.journal }

def StateInner.onCache {ε α : Type} (x : Op Cache ε α) : Op StateInner ε α where
  run inner := ((x.run inner.cache).1, { inner with cache := (x.run inner.cache).2 })

def StateInner.readUnloadedSlot (db : Database) (a : Address) (key : Word) (readsZero : Bool) :
    Op StateInner DatabaseError Word :=
  if readsZero then pure 0 else onCache (Cache.getStorage db a key)

/-! ## Account handles -/

structure AccountHandle where
  address : Address
  tracked : Account
  inner : StateInner
  snapshot : Option JournalEntry

namespace AccountHandle

variable (h : AccountHandle)

def recordChange : AccountHandle :=
  { h with
    snapshot :=
      some (h.snapshot.getD (.accountChange h.address h.tracked.present h.tracked.flags)) }

def exists' : Bool := h.tracked.present.isSome

def balance : Word := h.tracked.present.elim 0 AccountInfo.balance

def nonce : U64 := h.tracked.present.elim 0 AccountInfo.nonce

def isEmptyCodeHash : Bool := h.tracked.present.elim true AccountInfo.isEmptyCodeHash

def isWarm : Bool := h.tracked.flags.warm || h.inner.prewarmSet.isWarm h.address

def isCreated : Bool := h.exists' && h.tracked.flags.created

def isEmptyForNewAccountGas (features : EvmFeatures) : Bool :=
  if features.contains .eip161 then h.tracked.present.elim true AccountInfo.isEmpty
  else h.tracked.present.isNone && !h.tracked.flags.touched

def touch : AccountHandle :=
  if h.tracked.flags.touched then h
  else
    let h := h.recordChange
    { h with tracked := { h.tracked with flags := { h.tracked.flags with touched := true } } }

def markDestructed : AccountHandle :=
  let h' :=
    if h.tracked.flags.destroyed then h
    else
      let h := h.recordChange
      { h with tracked := { h.tracked with flags := { h.tracked.flags with destroyed := true } } }
  h'.touch

def warm : Bool × AccountHandle :=
  if h.isWarm then (false, h)
  else
    let h := h.recordChange
    (true,
      { h with tracked := { h.tracked with flags := { h.tracked.flags with warm := true } } })

/-- `AccountHandle::present_mut` (and `get_or_insert`), followed by a write through the
reference. -/
def presentMut (f : AccountInfo → AccountInfo) : AccountHandle :=
  let h := h.recordChange
  { h with tracked := { h.tracked with present := some (f (h.tracked.present.getD .default)) } }

def setBalance (balance : Word) : AccountHandle :=
  h.touch.presentMut fun info => { info with balance := balance }

def addBalance (delta : Word) : AccountHandle :=
  if delta = 0 then h.touch else h.setBalance (h.balance + delta)

def setNonce (nonce : U64) : AccountHandle :=
  h.touch.presentMut fun info => { info with nonce := nonce }

def bumpNonce : Bool × AccountHandle :=
  let h := h.touch
  if h.nonce = BitVec.allOnes 64 then (false, h)
  else (true, h.presentMut fun info => { info with nonce := h.nonce + 1 })

def setCode (codeHash : B256) (code : Bytecode) : AccountHandle :=
  h.touch.presentMut fun info => { info with codeHash := codeHash, code := some code }

def setCodeSlow [Keccak] (code : Bytecode) : AccountHandle := h.setCode code.hashSlow code

def setDelegation [Keccak] (delegated : Address) : AccountHandle :=
  let code := if delegated = 0 then Bytecode.new else Bytecode.newEip7702 delegated
  (h.setCodeSlow code).bumpNonce.2

def markCreated : AccountHandle :=
  let h := h.recordChange
  { h with tracked := h.tracked.markCreated }

def markCreatedDiscardingStorage : AccountHandle :=
  let h := h.recordChange
  { h with tracked := h.tracked.markCreatedDiscardingStorage }

/-- The code of `info`: cached with it, or looked up by its hash. The common body of
`AccountHandle::load_code`, `AccountHandle::original_code` and `State::code_untracked`. -/
def codeOf (db : Database) (info : Option AccountInfo) : Op StateInner DatabaseError Bytecode :=
  match info with
  | none => pure Bytecode.new
  | some info =>
    if info.isEmptyCodeHash then pure Bytecode.new
    else
      match info.code with
      | some code =>
        if !code.isEmpty then pure code
        else StateInner.onCache (Cache.getCodeByHash db info.codeHash)
      | none => StateInner.onCache (Cache.getCodeByHash db info.codeHash)

def onInner {ε α : Type} (x : Op StateInner ε α) : Op AccountHandle ε α where
  run h := ((x.run h.inner).1, { h with inner := (x.run h.inner).2 })

def loadCode (db : Database) : Op AccountHandle DatabaseError Bytecode where
  run h := (onInner (codeOf db h.tracked.present)).run h

def originalCode (db : Database) : Op AccountHandle DatabaseError Bytecode where
  run h := (onInner (codeOf db h.tracked.original)).run h

end AccountHandle

/-! ## Storage and slot handles -/

structure StorageHandle where
  address : Address
  storage : StorageOverlay
  discardsStorage : Bool
  inner : StateInner

structure StorageSlotHandle where
  address : Address
  key : Word
  slot : StorageSlot
  inner : StateInner

namespace StorageSlotHandle

variable (h : StorageSlotHandle)

def isWarm : Bool := h.slot.isWarm || h.inner.prewarmSet.isStorageWarm h.address h.key

def warm : Bool × StorageSlotHandle :=
  if h.isWarm then (false, h)
  else (true, { h with
    slot := h.slot.setWarm true
    inner := h.inner.pushJournal (.storageWarmed h.address h.key) })

def set (value : Word) : StorageSlotHandle :=
  if h.slot.value.current = value then h
  else { h with
    slot := h.slot.setCurrent value
    inner := h.inner.pushJournal (.storageChange h.address h.key h.slot.value.current) }

def write (value : Word) : (Word × Word) × StorageSlotHandle :=
  ((h.slot.value.original, h.slot.value.current), h.set value)

end StorageSlotHandle

namespace StorageHandle

/-- The body of `StorageHandle::into_slot_inner` that finds or loads the slot: the slot and
whether the access is cold. -/
def loadSlot (db : Database) (warm : Bool) (key : Word) (skipColdLoad : Bool) :
    Op StorageHandle LoadError (StorageSlot × Bool) where
  run h :=
    let prewarmed := h.inner.prewarmSet.isStorageWarm h.address key
    match h.storage.slots.lookup key with
    | some slot =>
      let isCold := (warm || skipColdLoad) && (!slot.isWarm && !prewarmed)
      if skipColdLoad && isCold then (.error .coldLoadSkipped, h) else (.ok (slot, isCold), h)
    | none =>
      if skipColdLoad && !prewarmed then (.error .coldLoadSkipped, h)
      else
        let readsZero := h.storage.wiped || h.discardsStorage
        match (StateInner.readUnloadedSlot db h.address key readsZero).run h.inner with
        | (.error e, inner) => (.error (.database e), { h with inner := inner })
        | (.ok value, inner) =>
          let slot := StorageSlot.loaded value prewarmed
          (.ok (slot, !prewarmed), { h with
            inner := inner
            storage := { h.storage with slots := h.storage.slots.set key slot } })

/-- `StorageHandle::into_slot_inner` followed by the session `f` on the slot handle. `warm` is the
constant parameter of the source; the boolean given to `f` tells whether the access was cold. -/
def intoSlotInner {α : Type} (db : Database) (warm : Bool) (key : Word) (skipColdLoad : Bool)
    (f : Bool → StorageSlotHandle → α × StorageSlotHandle) : Op StorageHandle LoadError α := do
  let (slot, isCold) ← loadSlot db warm key skipColdLoad
  Op.total fun h =>
    let sh : StorageSlotHandle :=
      if warm && isCold then
        ⟨h.address, key, slot.setWarm true, h.inner.pushJournal (.storageWarmed h.address key)⟩
      else ⟨h.address, key, slot, h.inner⟩
    let r := f isCold sh
    (r.1, { h with
      inner := r.2.inner
      storage := { h.storage with slots := h.storage.slots.set key r.2.slot } })

end StorageHandle

end Evm2
