import Evm2.State.Account

/-!
# Bundle state

A bundle collects the changes of blocks, with what is needed to undo them.

A panic of the code is `none`.
-/

namespace Evm2

/-! ## Account status -/

inductive AccountStatus
  | loadedNotExisting | loaded | loadedEmptyEIP161 | inMemoryChange | changed | destroyed
  | destroyedChanged | destroyedAgain
  deriving DecidableEq, Repr

namespace AccountStatus

def wasDestroyed : AccountStatus → Bool
  | destroyed | destroyedChanged | destroyedAgain => true
  | _ => false

def onCreated : AccountStatus → AccountStatus
  | destroyedAgain | destroyed | destroyedChanged => destroyedChanged
  | _ => inMemoryChange

def onChanged (hadNoNonceAndCode : Bool) : AccountStatus → AccountStatus
  | loadedNotExisting => inMemoryChange
  | loadedEmptyEIP161 => inMemoryChange
  | loaded => if hadNoNonceAndCode then inMemoryChange else changed
  | changed => changed
  | inMemoryChange => inMemoryChange
  | destroyedChanged => destroyedChanged
  | destroyed | destroyedAgain => destroyedChanged

def onSelfdestructed : AccountStatus → AccountStatus
  | loadedNotExisting => loadedNotExisting
  | destroyedChanged | destroyedAgain | destroyed => destroyedAgain
  | _ => destroyed

def transition (this other : AccountStatus) : AccountStatus :=
  match this.wasDestroyed, other.wasDestroyed with
  | true, false => destroyedChanged
  | false, false => if this = inMemoryChange then inMemoryChange else other
  | _, _ => other

end AccountStatus

/-! ## Transitions and reverts -/

abbrev BundleStorage := Map Word (Tracked Word)

structure TransitionAccount where
  info : Option AccountInfo
  status : AccountStatus
  previousInfo : Option AccountInfo
  previousStatus : AccountStatus
  storage : BundleStorage
  storageWasDestroyed : Bool

inductive AccountInfoRevert
  | doNothing
  | deleteIt
  | revertTo (info : AccountInfo)
  deriving DecidableEq, Repr

inductive RevertToSlot
  | some (value : Word)
  | destroyed
  deriving DecidableEq, Repr

structure AccountRevert where
  account : AccountInfoRevert
  storage : Map Word RevertToSlot
  previousStatus : AccountStatus
  wipeStorage : Bool

namespace AccountRevert

def newSelfdestructedAgain (status : AccountStatus) (account : AccountInfoRevert)
    (previousStorage updatedStorage : BundleStorage) : AccountRevert where
  account := account
  storage := (previousStorage.mapValues fun slot => RevertToSlot.some slot.current).mergeWith
    updatedStorage fun slot _ => some (slot.getD .destroyed)
  previousStatus := status
  wipeStorage := false

def newSelfdestructed (status : AccountStatus) (account : AccountInfoRevert)
    (storage : BundleStorage) : AccountRevert where
  account := account
  storage := storage.mapValues fun slot => RevertToSlot.some slot.current
  previousStatus := status
  wipeStorage := true

def isEmpty (r : AccountRevert) : Bool :=
  r.account == .doNothing && r.storage.entries.isEmpty && !r.wipeStorage

def sizeHint (r : AccountRevert) : ℕ := 1 + r.storage.entries.length

end AccountRevert

/-! ## Accounts of a bundle -/

structure BundleAccount where
  info : Option AccountInfo
  originalInfo : Option AccountInfo
  storage : BundleStorage
  status : AccountStatus

namespace BundleAccount

def sizeHint (e : BundleAccount) : ℕ := 1 + e.storage.entries.length

def wasDestroyed (e : BundleAccount) : Bool := e.status.wasDestroyed

def isInfoChanged (e : BundleAccount) : Bool := !optInfoEq e.info e.originalInfo

def revertSlot (slot : Option (Tracked Word)) : RevertToSlot → Option (Tracked Word)
  | .some value => some { slot.getD (.new value) with current := value }
  | .destroyed => none

def revert (e : BundleAccount) (r : AccountRevert) : Bool × BundleAccount :=
  let e := { e with status := r.previousStatus }
  match r.account with
  | .deleteIt =>
    let e := { e with info := none }
    if e.originalInfo.isNone then (true, { e with storage := ∅ })
    else (false, { e with storage := e.storage.mapValues fun slot => { slot with current := 0 } })
  | .doNothing => (false, { e with storage := e.storage.mergeWith r.storage revertSlot })
  | .revertTo info =>
    (false, { e with info := some info, storage := e.storage.mergeWith r.storage revertSlot })

/-- `AccountRevert::new_selfdestructed_from_bundle`: the revert, and the account without its
storage. -/
def newSelfdestructedFromBundle (e : BundleAccount) (account : AccountInfoRevert)
    (updatedStorage : BundleStorage) : Option (AccountRevert × BundleAccount) :=
  match e.status with
  | .inMemoryChange | .changed | .loadedEmptyEIP161 | .loaded =>
    some ({ AccountRevert.newSelfdestructedAgain e.status account e.storage updatedStorage with
      wipeStorage := true }, { e with storage := ∅ })
  | _ => none

def extendStorage (storage update : BundleStorage) : BundleStorage :=
  storage.mergeWith update fun slot value =>
    some { slot.getD value with current := value.current }

def previousStorageFromUpdate (update : BundleStorage) : Map Word RevertToSlot :=
  update.filterMapValues fun slot =>
    if slot.isChanged then some (RevertToSlot.some slot.original) else none

def updateChanged (e : BundleAccount) (t : TransitionAccount) (infoRevert : AccountInfoRevert) :
    Option (BundleAccount × Option AccountRevert) :=
  let r : AccountRevert := ⟨infoRevert, previousStorageFromUpdate t.storage, e.status, false⟩
  match e.status with
  | .changed | .loaded =>
    some ({ e with storage := extendStorage e.storage t.storage, status := .changed,
                   info := t.info }, some r)
  | .loadedEmptyEIP161 => some ({ e with status := .changed, info := t.info }, some r)
  | _ => none

def updateInMemoryChange (e : BundleAccount) (t : TransitionAccount)
    (infoRevert : AccountInfoRevert) : Option (BundleAccount × Option AccountRevert) :=
  let r (account : AccountInfoRevert) : AccountRevert :=
    ⟨account, previousStorageFromUpdate t.storage, e.status, false⟩
  let e' (storage : BundleStorage) : BundleAccount :=
    { e with storage := storage, status := .inMemoryChange, info := t.info }
  match e.status with
  | .loaded | .inMemoryChange =>
    some (e' (extendStorage e.storage t.storage), some (r infoRevert))
  | .loadedEmptyEIP161 => some (e' t.storage, some (r infoRevert))
  | .loadedNotExisting => some (e' t.storage, some (r .deleteIt))
  | _ => none

def updateDestroyed (e : BundleAccount) (infoRevert : AccountInfoRevert) :
    Option (BundleAccount × Option AccountRevert) :=
  let r := AccountRevert.newSelfdestructed e.status infoRevert e.storage
  match e.status with
  | .inMemoryChange | .changed | .loaded | .loadedEmptyEIP161 =>
    some ({ e with storage := ∅, status := .destroyed, info := none }, some r)
  | .loadedNotExisting => some ({ e with storage := ∅ }, none)
  | _ => none

def updateDestroyedChanged (e : BundleAccount) (t : TransitionAccount)
    (infoRevert : AccountInfoRevert) : Option (BundleAccount × Option AccountRevert) :=
  match e.newSelfdestructedFromBundle infoRevert t.storage with
  | some (r, e) =>
    some ({ e with status := .destroyedChanged, info := t.info, storage := t.storage }, some r)
  | none =>
    let e' (storage : BundleStorage) : BundleAccount :=
      { e with status := .destroyedChanged, info := t.info,
               storage := extendStorage storage t.storage }
    match e.status with
    | .destroyed | .loadedNotExisting =>
      some (e' e.storage,
        some ⟨.deleteIt, previousStorageFromUpdate t.storage, e.status, false⟩)
    | .destroyedChanged =>
      if t.storageWasDestroyed then
        some (e' ∅, some
          (.newSelfdestructedAgain .destroyedChanged infoRevert e.storage t.storage))
      else
        some (e' e.storage,
          some ⟨infoRevert, previousStorageFromUpdate t.storage, .destroyedChanged, false⟩)
    | .destroyedAgain =>
      some (e' e.storage,
        some (.newSelfdestructedAgain .destroyedAgain .deleteIt ∅ t.storage))
    | _ => none

def updateDestroyedAgain (e : BundleAccount) (infoRevert : AccountInfoRevert) :
    Option (BundleAccount × Option AccountRevert) :=
  let e' : BundleAccount := { e with status := .destroyedAgain, info := none, storage := ∅ }
  match e.newSelfdestructedFromBundle infoRevert ∅ with
  | some (r, _) => some (e', some r)
  | none =>
    match e.status with
    | .destroyed | .destroyedAgain | .loadedNotExisting => some (e', none)
    | .destroyedChanged =>
      some (e', some (.newSelfdestructedAgain .destroyedChanged
        (.revertTo (e.info.getD .default)) e.storage ∅))
    | _ => none

def updateAndCreateRevert (e : BundleAccount) (t : TransitionAccount) :
    Option (BundleAccount × Option AccountRevert) :=
  let infoRevert :=
    if optInfoEq e.info t.info then .doNothing else .revertTo (e.info.getD .default)
  let r := match t.status with
    | .changed => e.updateChanged t infoRevert
    | .inMemoryChange => e.updateInMemoryChange t infoRevert
    | .loaded | .loadedNotExisting | .loadedEmptyEIP161 => some (e, none)
    | .destroyed => e.updateDestroyed infoRevert
    | .destroyedChanged => e.updateDestroyedChanged t infoRevert
    | .destroyedAgain => e.updateDestroyedAgain infoRevert
  r.map fun (e, r) => (e, r.filter fun r => !r.isEmpty)

end BundleAccount

namespace TransitionAccount

def presentBundleAccount (t : TransitionAccount) : BundleAccount :=
  ⟨t.info, t.previousInfo, t.storage, t.status⟩

def originalBundleAccount (t : TransitionAccount) : BundleAccount :=
  ⟨t.previousInfo, t.previousInfo, ∅, t.previousStatus⟩

def hasNewContract (t : TransitionAccount) : Option (B256 × Bytecode) :=
  if t.info.map AccountInfo.codeHash != t.previousInfo.map AccountInfo.codeHash then
    t.info.bind fun info => info.code.map fun code => (info.codeHash, code)
  else none

def createRevert (t : TransitionAccount) : Option (Option AccountRevert) :=
  (t.originalBundleAccount.updateAndCreateRevert t).map Prod.snd

end TransitionAccount

/-! ## The bundle -/

/-- `BundleState`. The reverts of the latest block come last. `underflowed` is no part of it in the
code: it tells that a subtraction from a size has gone below zero. -/
structure BundleState where
  state : Map Address BundleAccount
  contracts : Map B256 Bytecode
  reverts : List (List (Address × AccountRevert))
  stateSize : ℕ
  revertsSize : ℕ
  underflowed : Bool

inductive BundleRetention
  | plainState | reverts
  deriving DecidableEq, Repr

def BundleRetention.includesReverts (r : BundleRetention) : Bool := r == .reverts

inductive OriginalValuesKnown
  | yes | no
  deriving DecidableEq, Repr

def OriginalValuesKnown.isNotKnown (v : OriginalValuesKnown) : Bool := v == .no

structure PlainStorageChangeset where
  address : Address
  wipeStorage : Bool
  storage : List (Word × Word)

structure StateChangeset where
  accounts : List (Address × Option AccountInfo)
  storage : List PlainStorageChangeset
  contracts : List (B256 × Bytecode)

def applyTransition (e : Option BundleAccount) (t : TransitionAccount) :
    Option (Option BundleAccount × Option AccountRevert) :=
  match e with
  | some e => (e.updateAndCreateRevert t).map fun (e, r) => (some e, r)
  | none => t.createRevert.map fun r => (r.map fun _ => t.presentBundleAccount, r)

def applyRevert (e : Option BundleAccount) (r : AccountRevert) : Option BundleAccount :=
  let result := (e.getD ⟨none, none, ∅, .loadedNotExisting⟩).revert r
  if result.1 then none else some result.2

/-- What `BundleState::extend_state` makes of an account, given that of the other bundle. -/
def extendAccount (e : Option BundleAccount) (other : BundleAccount) : BundleAccount :=
  match e with
  | none => other
  | some this =>
    { this with
      storage := if other.wasDestroyed then other.storage
        else BundleAccount.extendStorage this.storage other.storage
      info := other.info
      status := this.status.transition other.status }

/-- The part of `BundleState::extend` that moves the storage of an account into a revert which wipes
it: a slot that is not recorded, or recorded as destroyed, had the present value. -/
def moveStorage (this : BundleAccount) (r : AccountRevert) : AccountRevert :=
  { r with
    storage := r.storage.mergeWith this.storage fun slot value =>
      match slot with
      | some (.some v) => some (.some v)
      | _ => some (.some value.current)
    wipeStorage := !this.wasDestroyed }

/-- The body of the loop of `BundleState::extend` over the reverts of the other bundle: the account
of this bundle, if any, and whether a revert of it was seen before; the account and the revert. -/
def extendRevert (e : Option BundleAccount) (seen : Bool) (r : AccountRevert) :
    Option BundleAccount × AccountRevert :=
  match e with
  | none => (none, r)
  | some this =>
    let r := { r with previousStatus :=
      if seen then this.status.transition r.previousStatus else this.status }
    if r.wipeStorage then (some { this with storage := ∅ }, moveStorage this r) else (some this, r)

namespace BundleState

def default : BundleState := ⟨∅, ∅, [], 0, 0, false⟩

def setAccount (b : BundleState) (address : Address) (account : Option BundleAccount) :
    BundleState :=
  let size := (b.state.lookup address).elim 0 BundleAccount.sizeHint
  { b with
    state := b.state.alter address fun _ => account
    stateSize := b.stateSize - size + account.elim 0 BundleAccount.sizeHint
    underflowed := b.underflowed || b.stateSize < size }

def applyOne (retention : BundleRetention) (s : BundleState × List (Address × AccountRevert))
    (address : Address) (t : TransitionAccount) :
    Option (BundleState × List (Address × AccountRevert)) := do
  let contracts := match t.hasNewContract with
    | some (hash, code) => s.1.contracts.insert hash code
    | none => s.1.contracts
  let (account, revert) ← applyTransition (s.1.state.lookup address) t
  let b := { s.1 with contracts := contracts }.setAccount address account
  match revert.filter fun _ => retention.includesReverts with
  | some r => return ({ b with revertsSize := b.revertsSize + r.sizeHint }, s.2 ++ [(address, r)])
  | none => return (b, s.2)

def applyTransitionsAndCreateReverts (b : BundleState) (transitions : Map Address TransitionAccount)
    (retention : BundleRetention) : Option BundleState :=
  (transitions.entries.foldlM (fun s e => applyOne retention s e.1 e.2) (b, [])).map
    fun (b, reverts) => { b with reverts := b.reverts ++ [reverts] }

def plainStorage (known : OriginalValuesKnown) (e : BundleAccount) : List (Word × Word) :=
  e.storage.entries.filterMap fun entry =>
    let destroyedAndNotZero := e.wasDestroyed && entry.2.current != 0
    let notDestroyedAndChanged := !e.wasDestroyed && entry.2.isChanged
    if known.isNotKnown || destroyedAndNotZero || notDestroyedAndChanged then
      some (entry.1, entry.2.current)
    else none

def toPlainState (b : BundleState) (known : OriginalValuesKnown) : StateChangeset where
  accounts := b.state.entries.filterMap fun entry =>
    if known.isNotKnown || entry.2.isInfoChanged then
      some (entry.1, entry.2.info.map AccountInfo.cloneNoCode)
    else none
  storage := b.state.entries.filterMap fun entry =>
    let storage := plainStorage known entry.2
    if !storage.isEmpty || entry.2.wasDestroyed then
      some ⟨entry.1, entry.2.wasDestroyed, storage⟩
    else none
  contracts := b.contracts.entries.filterMap fun entry =>
    if entry.1 != KECCAK256_EMPTY then some (entry.1, entry.2) else none

def revertOne (b : BundleState) (address : Address) (r : AccountRevert) : BundleState :=
  { b with
    revertsSize := b.revertsSize - r.sizeHint
    underflowed := b.underflowed || b.revertsSize < r.sizeHint }.setAccount address
      (applyRevert (b.state.lookup address) r)

def revertLatest (b : BundleState) : Bool × BundleState :=
  match b.reverts.getLast? with
  | none => (false, b)
  | some reverts =>
    (true, reverts.foldl (fun b (address, r) => b.revertOne address r)
      { b with reverts := b.reverts.dropLast })

def revert (b : BundleState) : ℕ → BundleState
  | 0 => b
  | n + 1 => if b.revertLatest.1 then b.revertLatest.2.revert n else b

def extendState (b : BundleState) (other : Map Address BundleAccount) : BundleState :=
  other.entries.foldl
    (fun b e => b.setAccount e.1 (some (extendAccount (b.state.lookup e.1) e.2))) b

/-- The loop of `BundleState::extend` over the reverts of one block: the bundle, the addresses seen
so far and the reverts as they are kept. The size of the state is not adjusted here. -/
def extendReverts (s : BundleState × List Address) :
    List (Address × AccountRevert) →
      (BundleState × List Address) × List (Address × AccountRevert)
  | [] => (s, [])
  | (address, r) :: rest =>
    let (account, r) := extendRevert (s.1.state.lookup address) (s.2.contains address) r
    let b := { s.1 with
      state := s.1.state.alter address fun _ => account
      revertsSize := s.1.revertsSize + r.sizeHint }
    let result := extendReverts (b, if account.isSome then address :: s.2 else s.2) rest
    (result.1, (address, r) :: result.2)

def extendBlocks (s : BundleState × List Address) :
    List (List (Address × AccountRevert)) →
      (BundleState × List Address) × List (List (Address × AccountRevert))
  | [] => (s, [])
  | block :: rest =>
    let (s, block) := extendReverts s block
    let result := extendBlocks s rest
    (result.1, block :: result.2)

def extend (b other : BundleState) : BundleState :=
  let result := extendBlocks (b, []) other.reverts
  let b := result.1.1.extendState other.state
  { b with
    contracts := other.contracts.entries.foldl (fun m e => m.insert e.1 e.2) b.contracts
    reverts := b.reverts ++ result.2
    underflowed := b.underflowed || other.underflowed }

def sizeOfReverts (reverts : List (List (Address × AccountRevert))) : ℕ :=
  (reverts.flatten.map fun e => e.2.sizeHint).sum

def takeAllReverts (b : BundleState) : BundleState := { b with reverts := [], revertsSize := 0 }

def takeNReverts (b : BundleState) (n : ℕ) : BundleState :=
  if b.reverts.length < n then b.takeAllReverts
  else { b with reverts := b.reverts.drop n, revertsSize := sizeOfReverts (b.reverts.drop n) }

def prependState (b other : BundleState) : BundleState :=
  (other.extend b).takeNReverts other.reverts.length

end BundleState

end Evm2
