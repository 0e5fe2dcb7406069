import Evm2.Block.Bundle
import Evm2.State.Stream

/-!
# Block state

`BlockState` collects the transitions of the transactions of a block, either account by account or
from a stream of changes, and makes a bundle of them.
-/

namespace Evm2

def loadedStatus : Option AccountInfo → AccountStatus
  | none => .loadedNotExisting
  | some info => if info.isEmpty then .loadedEmptyEIP161 else .loaded

def hadNoNonceAndCode (original : Option AccountInfo) : Bool :=
  original.elim true fun info => info.nonce == 0 && info.isEmptyCodeHash

/-- The arguments of `BlockState::commit_account` but for the address. -/
structure AccountCommit where
  original : Option AccountInfo
  current : Option AccountInfo
  created : Bool
  wiped : Bool
  storage : BundleStorage

namespace AccountCommit

variable (c : AccountCommit)

def status (previousStatus : AccountStatus) : AccountStatus :=
  if c.current.isNone then previousStatus.onSelfdestructed
  else if c.wiped then .destroyedChanged
  else if c.created then previousStatus.onCreated
  else previousStatus.onChanged (hadNoNonceAndCode c.original)

def commitSlot (wipedLifetime : Bool) (old : Option (Tracked Word)) (slot : Tracked Word) :
    Option (Tracked Word) :=
  match old with
  | none => some slot
  | some entry =>
    if !wipedLifetime && entry.original == slot.current then none
    else some { entry with current := slot.current }

def start : TransitionAccount where
  info := c.current
  status := c.status (loadedStatus c.original)
  previousInfo := c.original
  previousStatus := loadedStatus c.original
  storage := c.storage
  storageWasDestroyed := c.wiped

def resume (t : TransitionAccount) : TransitionAccount :=
  let status := c.status t.status
  let t := { t with info := c.current, status := status }
  -- a deletion or wipe starts a new storage lifetime
  if c.wiped || status == .destroyed || status == .destroyedAgain then
    { t with storage := c.storage, storageWasDestroyed := true }
  else
    let wipedLifetime := t.storageWasDestroyed || status.wasDestroyed
    { t with storage := t.storage.mergeWith c.storage (commitSlot wipedLifetime) }

def transition : Option TransitionAccount → TransitionAccount
  | none => c.start
  | some t => c.resume t

end AccountCommit

structure BlockState where
  transitions : Map Address TransitionAccount
  contracts : Map B256 Bytecode

def AccountChanges.commit (changes : AccountChanges) : AccountCommit where
  original := changes.original.map AccountInfo.cloneNoCode
  current := changes.current.map AccountInfo.cloneNoCode
  created := changes.created
  wiped := changes.storage.wiped
  storage := changes.storage.changedSlotMap

namespace BlockState

def new : BlockState := ⟨∅, ∅⟩

def commitAccount (s : BlockState) (address : Address) (c : AccountCommit) : BlockState :=
  { s with transitions := s.transitions.alter address fun t => some (c.transition t) }

/-- `BlockState::commit_account_changes`, without an update for the hooks. -/
def commitAccountChanges (s : BlockState) (changes : AccountChanges) : BlockState :=
  if changes.isChanged then
    let s := match changes.code with
      | some (hash, code) => { s with contracts := s.contracts.adjust hash code id }
      | none => s
    s.commitAccount changes.address changes.commit
  else s

def intoBundleWithRetention (s : BlockState) (retention : BundleRetention) : Option BundleState :=
  (BundleState.default.applyTransitionsAndCreateReverts s.transitions retention).map fun bundle =>
    { bundle with
      contracts := s.contracts.entries.foldl (fun m e => m.insert e.1 e.2) bundle.contracts }

def intoBundle (s : BlockState) : Option BundleState := s.intoBundleWithRetention .reverts

end BlockState

/-! ## Collected transactions -/

structure TransactionAccount where
  original : Option AccountInfo
  info : AccountInfo
  created : Bool
  selfdestructed : Bool
  wiped : Bool
  storage : BundleStorage

def AccountInfo.empty : AccountInfo := ⟨0, 0, KECCAK256_EMPTY, none⟩

namespace TransactionAccount

def default : TransactionAccount := ⟨some .empty, .empty, false, false, false, ∅⟩

def update (x : TransactionAccount) (change : AccountChangeRef) : TransactionAccount :=
  { x with
    original := change.original.map AccountInfo.cloneNoCode
    info := (change.current.map AccountInfo.cloneNoCode).getD .empty
    created := x.created || change.created
    selfdestructed := x.selfdestructed || change.current.isNone }

/-- The commit of `BlockState::commit`: a wipe reinserts every nonzero value that follows it. -/
def commit (x : TransactionAccount) : AccountCommit where
  original := x.original
  current := if x.selfdestructed then none else some x.info
  created := x.created
  wiped := x.wiped
  storage := x.storage.filterMapValues fun slot =>
    if slot.isChanged || x.wiped && slot.current != 0 then some slot else none

def receive (x : Option TransactionAccount) : StateChange → Option TransactionAccount
  | .bytecode _ _ => x
  | .storageWipe _ => some { x.getD default with wiped := true, storage := ∅ }
  | .storage change => some { x.getD default with
      storage := (x.getD default).storage.insert change.key ⟨change.original, change.current⟩ }
  | .account change => some ((x.getD default).update change)
  | .accountRead address info => x.map fun x => x.update ⟨address, info, info, false, false⟩
  | .storageRead _ _ _ => x

end TransactionAccount

structure TransactionChanges where
  accounts : Map Address TransactionAccount
  contracts : Map B256 Bytecode

namespace TransactionChanges

def default : TransactionChanges := ⟨∅, ∅⟩

def receiveAccount (t : TransactionChanges) (a : Address) (change : StateChange) :
    TransactionChanges :=
  { t with accounts := t.accounts.alter a fun x => TransactionAccount.receive x change }

def sink (t : TransactionChanges) : StateChange → TransactionChanges
  | .bytecode codeHash code => { t with contracts := t.contracts.adjust codeHash code id }
  | .storageWipe address => t.receiveAccount address (.storageWipe address)
  | .storage change => t.receiveAccount change.address (.storage change)
  | .account change => t.receiveAccount change.address (.account change)
  | .accountRead address info => t.receiveAccount address (.accountRead address info)
  | .storageRead address key value => t.receiveAccount address (.storageRead address key value)

end TransactionChanges

def BlockState.commit (s : BlockState) (changes : TransactionChanges) : BlockState :=
  changes.accounts.entries.foldl (fun s e => s.commitAccount e.1 e.2.commit)
    { s with
      contracts := changes.contracts.entries.foldl (fun m e => m.insert e.1 e.2) s.contracts }

end Evm2
