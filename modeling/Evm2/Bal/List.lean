import Evm2.Bal.Changes
import Evm2.State.Stream

/-!
# Block access lists

A block access list holds what the transactions of a block read and wrote: for every account the
changes of its nonce, balance and code, and for every slot the changes of its value. A slot that was
only read has no changes.

* **`Bal.lookup_foldl`**: what a stream of changes leaves of an account.
-/

namespace Evm2

structure AccountInfoBal where
  nonce : BalChanges U64
  balance : BalChanges Word
  code : BalChanges (B256 × Bytecode)
  deriving DecidableEq, Repr

namespace AccountInfoBal

def default : AccountInfoBal := ⟨.default, .default, .default⟩

def populateAccountInfo (bal : AccountInfoBal) (balIndex : ℕ) (account : AccountInfo) :
    Bool × AccountInfo :=
  let r := (false, account)
  let r := match bal.nonce.get balIndex with
    | some nonce => (true, { r.2 with nonce := nonce })
    | none => r
  let r := match bal.balance.get balIndex with
    | some balance => (true, { r.2 with balance := balance })
    | none => r
  match bal.code.get balIndex with
  | some (codeHash, code) => (true, { r.2 with codeHash := codeHash, code := some code })
  | none => r

def codeUpdate (bal : AccountInfoBal) (balIndex : ℕ) (originalCode : B256 × Bytecode)
    (codeHash : B256) (code : Bytecode) : AccountInfoBal :=
  { bal with code := bal.code.updateWithKey Prod.fst balIndex originalCode (codeHash, code) }

def update (bal : AccountInfoBal) (index : ℕ) (original present : AccountInfo) : AccountInfoBal :=
  let bal := { bal with nonce := bal.nonce.update index original.nonce present.nonce }
  let bal := { bal with balance := bal.balance.update index original.balance present.balance }
  if original.codeHash ≠ present.codeHash then
    bal.codeUpdate index (original.codeHash, original.code.getD Bytecode.new) present.codeHash
      (present.code.getD Bytecode.new)
  else bal

end AccountInfoBal

/-- `AccountBal`, with the map of `StorageBal`. -/
structure AccountBal where
  accountInfo : AccountInfoBal
  storage : Map Word (BalChanges Word)

namespace AccountBal

def default : AccountBal := ⟨.default, ∅⟩

/-- What a call of `BalWriter` makes of an account. -/
def receive (index : ℕ) (x : AccountBal) : StateChange → AccountBal
  | .account change => { x with
      accountInfo := x.accountInfo.update index (change.original.getD .default)
        (change.current.getD .default) }
  | .storage change => { x with
      storage := x.storage.adjust change.key .default fun changes =>
        changes.update index change.original change.current }
  | .storageRead _ key _ => { x with storage := x.storage.adjust key .default id }
  | .accountRead _ _ | .bytecode _ _ | .storageWipe _ => x

end AccountBal

structure Bal where
  accounts : Map Address AccountBal

namespace Bal

def new : Bal := ⟨∅⟩

/-- Change the account at `a`, which is added if it is missing. -/
def adjustAccount (bal : Bal) (a : Address) (f : AccountBal → AccountBal) : Bal :=
  { bal with accounts := bal.accounts.adjust a .default f }

end Bal

/-- `BalWriter` as a sink. It has no action for bytecode and for wipes. -/
def BalWriter.sink (index : ℕ) (bal : Bal) : StateChange → Bal
  | .account change =>
    bal.adjustAccount change.address fun x => x.receive index (.account change)
  | .storage change =>
    bal.adjustAccount change.address fun x => x.receive index (.storage change)
  | .accountRead address info =>
    bal.adjustAccount address fun x => x.receive index (.accountRead address info)
  | .storageRead address key value =>
    bal.adjustAccount address fun x => x.receive index (.storageRead address key value)
  | .bytecode _ _ | .storageWipe _ => bal

def Bal.commit (bal : Bal) (balIndex : ℕ) (pending : PendingState) : Bal :=
  pending.visit.foldl (BalWriter.sink balIndex) bal

/-! ## One account at a time -/

/-- What a call of `BalWriter` about an account makes of it. -/
def AccountBal.record (index : ℕ) (x : Option AccountBal) : StateChange → Option AccountBal
  | .storageWipe _ => x
  | change => some ((x.getD .default).receive index change)

namespace Bal

@[simp]
theorem lookup_adjustAccount (bal : Bal) (a b : Address) (f : AccountBal → AccountBal) :
    (bal.adjustAccount a f).accounts.lookup b =
      if a = b then some (f ((bal.accounts.lookup b).getD .default))
      else bal.accounts.lookup b := by
  rw [adjustAccount, Map.lookup_adjust]
  by_cases h : a = b
  · subst h
    simp
  · rw [if_neg h, if_neg (Ne.symm h)]

theorem lookup_sink (index : ℕ) (bal : Bal) (a : Address) (change : StateChange) :
    (BalWriter.sink index bal change).accounts.lookup a =
      if change.isAbout a then AccountBal.record index (bal.accounts.lookup a) change
      else bal.accounts.lookup a := by
  cases change with
  | bytecode codeHash code => rfl
  | storageWipe address =>
    simp only [BalWriter.sink, AccountBal.record]
    split_ifs <;> rfl
  | account ref | storage ref => simp [BalWriter.sink, StateChange.isAbout, AccountBal.record]
  | accountRead address info | storageRead address key value =>
    simp [BalWriter.sink, StateChange.isAbout, AccountBal.record]

theorem lookup_foldl (index : ℕ) (a : Address) (changes : List StateChange) (bal : Bal) :
    (changes.foldl (BalWriter.sink index) bal).accounts.lookup a =
      (changes.filter (StateChange.isAbout a)).foldl (AccountBal.record index)
        (bal.accounts.lookup a) :=
  Fold.foldl_proj (fun bal : Bal => bal.accounts.lookup a) (AccountBal.record index)
    (fun bal change => lookup_sink index bal a change) changes bal

end Bal

/-! ## Infos from the list -/

theorem AccountInfoBal.plain_populateAccountInfo (bal : AccountInfoBal) (i : ℕ)
    (account : AccountInfo) :
    (bal.populateAccountInfo i account).2.plain =
      ⟨(bal.balance.get i).getD account.balance, (bal.nonce.get i).getD account.nonce,
        ((bal.code.get i).map Prod.fst).getD account.codeHash⟩ := by
  unfold populateAccountInfo
  cases bal.nonce.get i <;> cases bal.balance.get i <;> cases bal.code.get i <;> rfl

theorem AccountInfoBal.fst_populateAccountInfo (bal : AccountInfoBal) (i : ℕ)
    (account : AccountInfo) :
    (bal.populateAccountInfo i account).1 =
      ((bal.nonce.get i).isSome || (bal.balance.get i).isSome || (bal.code.get i).isSome) := by
  unfold populateAccountInfo
  cases bal.nonce.get i <;> cases bal.balance.get i <;> cases bal.code.get i <;> rfl

end Evm2
