import Evm2.Block.Accounts
import Evm2.State.Stream

/-!
# Writing the changeset of a bundle

* **`write_toPlainState`**: what the changeset of a bundle writes, for each account.
-/

namespace Evm2

/-- Write the slots of an account, after wiping its storage if the changeset says so. -/
def PlainStorageChangeset.apply (c : PlainStorageChangeset) (storage : Word → Word) :
    Word → Word :=
  c.storage.foldl (fun s e => Function.update s e.1 e.2)
    (if c.wipeStorage then fun _ => 0 else storage)

namespace PlainState

def setInfo (D : PlainState) (a : Address) (info : Option PlainInfo) : PlainState :=
  Function.update D a { D a with info := info }

def setStorage (D : PlainState) (c : PlainStorageChangeset) : PlainState :=
  Function.update D c.address { D c.address with storage := c.apply (D c.address).storage }

def write (D : PlainState) (c : StateChangeset) : PlainState :=
  c.storage.foldl setStorage
    (c.accounts.foldl (fun D e => D.setInfo e.1 (e.2.map AccountInfo.plain)) D)

end PlainState

namespace BundleAccount

variable (e : BundleAccount)

def writtenInfo (info : Option PlainInfo) : Option PlainInfo :=
  if e.isInfoChanged then e.info.map AccountInfo.plain else info

def writtenStorage (storage : Word → Word) (k : Word) : Word :=
  match e.storage.lookup k with
  | some slot => if e.wasDestroyed || slot.isChanged then slot.current else storage k
  | none => if e.wasDestroyed then 0 else storage k

theorem apply_plainStorage (a : Address) (storage : Word → Word) :
    PlainStorageChangeset.apply ⟨a, e.wasDestroyed, BundleState.plainStorage .yes e⟩ storage =
      e.writtenStorage storage := by
  funext k
  have hfold : ∀ (base : Word → Word),
      (BundleState.plainStorage .yes e).foldl (fun s e => Function.update s e.1 e.2) base k =
        (e.storage.lookup k).elim (base k) fun slot =>
          if e.wasDestroyed && slot.current != 0 || !e.wasDestroyed && slot.isChanged then
            slot.current
          else base k := by
    intro base
    refine Map.foldl_filterMap_proj (fun s : Word → Word => s k) _ _ (fun v slot =>
      if e.wasDestroyed && slot.current != 0 || !e.wasDestroyed && slot.isChanged then
        slot.current
      else v) (fun s k' slot => ?_) e.storage base
    have hyes : OriginalValuesKnown.yes.isNotKnown = false := rfl
    simp only [hyes, Bool.false_or]
    generalize (e.wasDestroyed && slot.current != 0 || !e.wasDestroyed && slot.isChanged) = listed
    by_cases hk : k' = k
    · subst hk
      cases listed <;> simp
    · cases listed <;> simp [hk, Ne.symm hk]
  rw [PlainStorageChangeset.apply, hfold, writtenStorage]
  cases e.storage.lookup k with
  | none => cases e.wasDestroyed <;> rfl
  | some slot =>
    cases e.wasDestroyed with
    | false => simp
    | true =>
      -- a zero is not listed, but the storage is wiped
      by_cases h0 : slot.current = 0#256 <;> simp [h0]

end BundleAccount

theorem write_toPlainState (b : BundleState) (D : PlainState) (a : Address) :
    D.write (b.toPlainState .yes) a =
      (b.state.lookup a).elim (D a) fun e =>
        ⟨e.writtenInfo (D a).info, e.writtenStorage (D a).storage⟩ := by
  have haccounts : ((b.toPlainState .yes).accounts.foldl
      (fun D e => D.setInfo e.1 (e.2.map AccountInfo.plain)) D) a =
        (b.state.lookup a).elim (D a) fun e => { D a with info := e.writtenInfo (D a).info } := by
    refine Map.foldl_filterMap_proj (fun D : PlainState => D a) _ _
      (fun x e => { x with info := e.writtenInfo x.info }) (fun D a' e => ?_) b.state D
    simp only [OriginalValuesKnown.isNotKnown, BundleAccount.writtenInfo]
    by_cases ha : a' = a
    · subst ha
      split_ifs <;> simp_all [PlainState.setInfo, Function.comp_def]
    · split_ifs <;> simp_all [PlainState.setInfo, Ne.symm ha]
  have hstorage : ∀ D : PlainState,
      ((b.toPlainState .yes).storage.foldl PlainState.setStorage D) a =
        (b.state.lookup a).elim (D a) fun e =>
        { D a with storage := e.writtenStorage (D a).storage } := by
    intro D
    refine Map.foldl_filterMap_proj (fun D : PlainState => D a) _ _
      (fun x e => { x with storage := e.writtenStorage x.storage }) (fun D a' e => ?_) b.state D
    have hset : (if !(BundleState.plainStorage .yes e).isEmpty || e.wasDestroyed then
        some (⟨a', e.wasDestroyed, BundleState.plainStorage .yes e⟩ : PlainStorageChangeset)
        else none).elim D D.setStorage =
        Function.update D a' { D a' with storage := e.writtenStorage (D a').storage } := by
      rw [← BundleAccount.apply_plainStorage e a']
      split_ifs with h
      · rfl
      · -- nothing is listed, and the storage stays
        simp only [Bool.or_eq_true, Bool.not_eq_true', not_or, Bool.not_eq_true,
          Bool.not_eq_false, List.isEmpty_iff] at h
        simp [PlainStorageChangeset.apply, h]
    rw [hset]
    by_cases ha : a' = a
    · subst ha
      simp
    · simp [ha, Ne.symm ha]
  rw [PlainState.write, hstorage, haccounts]
  cases b.state.lookup a <;> rfl

end Evm2
