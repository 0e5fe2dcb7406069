import Evm2.State.Handles

/-!
# The transaction state

`State` is the overlay of one transaction over the cache database: the loaded accounts with their
slots, the transient storage, the revert journal and the logs.
-/

namespace Evm2

structure State where
  accounts : Map Address Account
  transientStorage : Map (Address × Word) Word
  inner : StateInner

structure StateCheckpoint where
  journalLen : Nat
  logsLen : Nat
  deriving DecidableEq, Repr

namespace State

def new : State := ⟨∅, ∅, ⟨.default, [], [], .new⟩⟩

abbrev journal (s : State) : List JournalEntry := s.inner.journal

abbrev logs (s : State) : List Log := s.inner.logs

abbrev cache (s : State) : Cache := s.inner.cache

abbrev prewarmSet (s : State) : PrewarmSet := s.inner.prewarmSet

def checkpoint (s : State) : StateCheckpoint := ⟨s.journal.length, s.logs.length⟩

def onInner {ε α : Type} (x : Op StateInner ε α) : Op State ε α where
  run s := ((x.run s.inner).1, { s with inner := (x.run s.inner).2 })

def onCache {ε α : Type} (x : Op Cache ε α) : Op State ε α := onInner (StateInner.onCache x)

def log (s : State) (l : Log) : State :=
  { s with inner := { s.inner with logs := s.inner.logs ++ [l] } }

def prewarm (s : State) (a : Address) : State :=
  { s with inner := { s.inner with prewarmSet := s.inner.prewarmSet.warm a } }

def prewarmStorage (s : State) (a : Address) (slots : List Word) : State :=
  { s with inner := { s.inner with prewarmSet := s.inner.prewarmSet.warmStorage a slots } }

section Sessions

variable [Keccak] (db : Database)

def accountRawWithSkip (a : Address) (skipCold : Bool) : Op State LoadError Account where
  run s :=
    match s.accounts.lookup a with
    | some account =>
      if skipCold && !account.flags.warm && s.prewarmSet.isCold a then
        (.error .coldLoadSkipped, s)
      else (.ok account, s)
    | none =>
      let isWarm := s.prewarmSet.isWarm a
      if skipCold && !isWarm then (.error .coldLoadSkipped, s)
      else
        match (onCache (Cache.getAccount db a)).run s with
        | (.error e, s) => (.error (.database e), s)
        | (.ok info, s) =>
          let account := Account.loaded info isWarm
          (.ok account, { s with accounts := s.accounts.set a account })

def dropHandle (s : State) (h : AccountHandle) : State :=
  { s with
    accounts := s.accounts.set h.address h.tracked
    inner := match h.snapshot with
      | some e => h.inner.pushJournal e
      | none => h.inner }

def accountWithSkip {α : Type} (a : Address) (skipColdLoad : Bool)
    (f : Op AccountHandle LoadError α) : Op State LoadError α := do
  let account ← accountRawWithSkip db a skipColdLoad
  ⟨fun s =>
    let r := f.run ⟨a, account, s.inner, none⟩
    (r.1, s.dropHandle r.2)⟩

def loadErrorToDatabase : LoadError → DatabaseError
  | .database e => e
  | .coldLoadSkipped => ⟨"cold-load skipping is disabled", true⟩

def account {α : Type} (a : Address) (f : AccountHandle → α × AccountHandle) :
    Op State DatabaseError α :=
  (accountWithSkip db a false (Op.total f)).mapError loadErrorToDatabase

/-- `State::storage`, followed by an operation on the storage handle. The handle is no account
handle: there is no snapshot. -/
def storage {α : Type} (a : Address) (x : Op StorageHandle LoadError α) : Op State LoadError α := do
  let account ← accountRawWithSkip db a false
  ⟨fun s =>
    let r := x.run ⟨a, account.storage, account.flags.discardsStorage, s.inner⟩
    (r.1, { s with
      accounts := s.accounts.set a { account with storage := r.2.storage }
      inner := r.2.inner })⟩

def accountInfoUntracked (a : Address) : Op State DatabaseError (Option AccountInfo) where
  run s :=
    match s.accounts.lookup a with
    | some entry => (.ok entry.present, s)
    | none => (onCache (Cache.getAccount db a)).run s

def balance (s : State) (a : Address) : Nat :=
  match ((accountInfoUntracked db a).run s).1 with
  | .ok (some info) => info.balance.toNat
  | _ => 0

def storageSlotUntracked (a : Address) (key : Word) : Op State DatabaseError Word where
  run s :=
    match (s.accounts.lookup a).bind fun account => account.storage.slots.lookup key with
    | some slot => (.ok slot.value.current, s)
    | none =>
      let readsZero := (s.accounts.lookup a).elim false fun account =>
        account.storage.wiped || account.flags.discardsStorage
      (onInner (StateInner.readUnloadedSlot db a key readsZero)).run s

def codeUntracked (a : Address) : Op State DatabaseError Bytecode := do
  let info ← accountInfoUntracked db a
  onInner (AccountHandle.codeOf db info)

/-! ## Transfers and creations -/

def transfer (src dst : Address) (value : Word) : Op State DatabaseError Bool :=
  if value = 0 then do
    account db dst fun h => ((), h.touch)
    return true
  else if src = dst then
    account db src fun h => if h.balance < value then (false, h) else (true, h.touch)
  else do
    let covered ← account db src fun h =>
      if h.balance < value then (false, h) else (true, (h.setBalance (h.balance - value)).touch)
    if covered then
      account db dst fun h =>
        -- `saturating_add`
        let newToBalance :=
          if h.balance.toNat + value.toNat < 2 ^ 256 then h.balance + value else BitVec.allOnes 256
        (true, (h.setBalance newToBalance).touch)
    else return false

/-- How `State::create_account` can refuse. -/
inductive CreateError
  | createCollision
  | outOfFunds
  deriving DecidableEq, Repr

def createdInfo (features : EvmFeatures) (balance : Word) : AccountInfo :=
  { nonce := if features.contains .eip161 then 1 else 0
    balance := balance
    codeHash := KECCAK256_EMPTY
    code := some Bytecode.new }

def createAccount (caller a : Address) (value : Word) (features : EvmFeatures) :
    Op State DatabaseError (Except CreateError Unit) := do
  let collision ← account db a fun h =>
    (h.tracked.present.elim false fun info => info.nonce != 0 || !info.isEmptyCodeHash, h)
  if collision then return .error .createCollision
  let covered ← (if value = 0 then pure true
    else account db caller fun h =>
      if h.balance < value then (false, h) else (true, h.setBalance (h.balance - value)))
  if !covered then return .error .outOfFunds
  account db a fun h =>
    let balance := h.balance + value
    let h := h.presentMut fun _ => createdInfo features balance
    ((), h.markCreatedDiscardingStorage.touch)
  return .ok ()

end Sessions

/-! ## Transient storage -/

def tload (s : State) (a : Address) (key : Word) : Word :=
  (s.transientStorage.lookup (a, key)).getD 0

def tstore (s : State) (a : Address) (key value : Word) : State :=
  match s.transientStorage.lookup (a, key) with
  | some previous =>
    if previous = value then s
    else { s with
      inner := s.inner.pushJournal (.transientStorageChange a key (some previous))
      transientStorage :=
        if value = 0 then s.transientStorage.erase (a, key)
        else s.transientStorage.set (a, key) value }
  | none =>
    if value = 0 then s
    else { s with
      inner := s.inner.pushJournal (.transientStorageChange a key none)
      transientStorage := s.transientStorage.set (a, key) value }

/-! ## Rollback -/

def precompile3 : Address := Address.withLastByte 3

def setStorageWarm (accounts : Map Address Account) (a : Address) (key : Word) (warm : Bool) :
    Map Address Account :=
  accounts.modify a fun account => { account with storage := { account.storage with
    slots := account.storage.slots.modify key fun slot => slot.setWarm warm } }

def undoEntry (eip161 : Bool) (e : JournalEntry)
    (core : Map Address Account × Map (Address × Word) Word) :
    Map Address Account × Map (Address × Word) Word :=
  match e with
  | .accountChange a previous previousFlags =>
    (core.1.modify a fun entry =>
      -- EIP-161 preserves the touch of precompile 3
      let keepTouch := eip161 && a == precompile3
      { entry with
        present := previous
        flags := { previousFlags with
          touched := if keepTouch then entry.flags.touched else previousFlags.touched } },
      core.2)
  | .storageChange a key previous =>
    (core.1.modify a fun account => { account with storage := { account.storage with
      slots := account.storage.slots.modify key fun slot => slot.setCurrent previous } }, core.2)
  | .transientStorageChange a key previous =>
    match previous with
    | some v => (core.1, if v = 0 then core.2.erase (a, key) else core.2.set (a, key) v)
    | none => (core.1, core.2.erase (a, key))
  | .storageWarmed a key => (setStorageWarm core.1 a key false, core.2)

def popEntries (eip161 : Bool) (journalLen : Nat) :
    List JournalEntry → Map Address Account × Map (Address × Word) Word →
      List JournalEntry × (Map Address Account × Map (Address × Word) Word)
  | [], core => ([], core)
  | e :: es, core =>
    if journalLen < (e :: es).length then popEntries eip161 journalLen es (undoEntry eip161 e core)
    else (e :: es, core)

def rollback (s : State) (cp : StateCheckpoint) (features : EvmFeatures) : State :=
  let r := popEntries (features.contains .eip161) cp.journalLen s.journal
    (s.accounts, s.transientStorage)
  { accounts := r.2.1
    transientStorage := r.2.2
    inner := { s.inner with logs := s.logs.take cp.logsLen, journal := r.1 } }

def clearTransactionState (s : State) : State :=
  { accounts := ∅
    transientStorage := ∅
    inner := { s.inner with prewarmSet := s.prewarmSet.clear, journal := [], logs := [] } }

end State

end Evm2
