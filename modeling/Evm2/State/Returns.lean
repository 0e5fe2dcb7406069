import Evm2.State.Steps

/-!
# Operations over a database that answers

The operations of a state fail only where the database does, or where a cold load is skipped. Over
a database that answers every read, operations that skip nothing return.

* **`State.returns_accountWithSkip`**, `State.returns_account`, `State.returns_storage`: sessions on
  accounts and slots return.
-/

namespace Evm2

open Op (Returns)

/-- Every read of the database succeeds. -/
structure Database.Answers (db : Database) : Prop where
  account : ∀ a, ∃ info, db.getAccount a = .ok info
  code : ∀ h, ∃ code, db.getCodeByHash h = .ok code
  storage : ∀ a key, ∃ value, db.getStorage a key = .ok value
  blockHash : ∀ n, ∃ hash, db.getBlockHash n = .ok hash

theorem Database.answers_empty [Keccak] : Database.empty.Answers :=
  ⟨fun _ => ⟨_, rfl⟩, fun _ => ⟨_, rfl⟩, fun _ _ => ⟨_, rfl⟩, fun _ => ⟨_, rfl⟩⟩

variable {db : Database} {α : Type}

namespace Cache

theorem returns_getCodeByHash (hdb : db.Answers) (h : B256) : Returns (getCodeByHash db h) := by
  intro c
  unfold getCodeByHash
  dsimp only
  generalize (if h = 0 then KECCAK256_EMPTY else h) = h'
  cases c.contracts.lookup h' with
  | some code => exact ⟨code, c, rfl⟩
  | none =>
    obtain ⟨code, hcode⟩ := hdb.code h'
    rw [hcode]
    exact ⟨code, _, rfl⟩

theorem returns_getStorage (hdb : db.Answers) (a : Address) (key : Word) :
    Returns (getStorage db a key) := by
  intro c
  unfold getStorage
  dsimp only
  split
  · exact ⟨_, _, rfl⟩
  · split_ifs
    · exact ⟨_, _, rfl⟩
    · exact ⟨_, _, rfl⟩
    · obtain ⟨value, hvalue⟩ := hdb.storage a key
      rw [hvalue]
      exact ⟨_, _, rfl⟩

theorem returns_getAccount [Keccak] (hdb : db.Answers) (a : Address) :
    Returns (getAccount db a) := by
  intro c
  unfold getAccount
  dsimp only
  cases c.accounts.lookup a with
  | some account => exact ⟨_, _, rfl⟩
  | none =>
    obtain ⟨info, hinfo⟩ := hdb.account a
    rw [hinfo]
    cases info <;> exact ⟨_, _, rfl⟩

end Cache

theorem StateInner.returns_onCache {ε : Type} {x : Op Cache ε α} (hx : Returns x) :
    Returns (onCache x) := by
  intro inner
  obtain ⟨a, c, h⟩ := hx inner.cache
  exact ⟨a, { inner with cache := c }, by simp only [onCache, h]⟩

namespace AccountHandle

theorem returns_onInner {ε : Type} {x : Op StateInner ε α} (hx : Returns x) :
    Returns (onInner x) := by
  intro h
  obtain ⟨a, inner, hr⟩ := hx h.inner
  exact ⟨a, { h with inner := inner }, by simp only [onInner, hr]⟩

theorem returns_codeOf (hdb : db.Answers) (info : Option AccountInfo) :
    Returns (codeOf db info) := by
  cases info with
  | none => exact .ret _
  | some info =>
    have hread := StateInner.returns_onCache (Cache.returns_getCodeByHash hdb info.codeHash)
    refine .ite (fun _ => .ret _) fun _ => ?_
    cases info.code with
    | none => exact hread
    | some code => exact .ite (fun _ => .ret _) fun _ => hread

theorem returns_loadCode (hdb : db.Answers) : Returns (loadCode db) :=
  fun h => returns_onInner (returns_codeOf hdb h.tracked.present) h

theorem returns_originalCode (hdb : db.Answers) : Returns (originalCode db) :=
  fun h => returns_onInner (returns_codeOf hdb h.tracked.original) h

end AccountHandle

namespace State

section Sessions

variable [Keccak]

theorem returns_accountRaw (hdb : db.Answers) (a : Address) :
    Returns (accountRawWithSkip db a false) := by
  intro s
  cases hl : s.accounts.lookup a with
  | some x =>
    rw [accountRawWithSkip_some db false hl]
    exact ⟨x, s, rfl⟩
  | none =>
    rw [accountRawWithSkip_none db false hl]
    obtain ⟨info, c, hr⟩ := Cache.returns_getAccount hdb a s.cache
    rw [hr]
    exact ⟨_, _, rfl⟩

theorem returns_accountWithSkip (hdb : db.Answers) (a : Address)
    {f : Op AccountHandle LoadError α} (hf : Returns f) :
    Returns (accountWithSkip db a false f) := by
  refine .bind (returns_accountRaw hdb a) fun x s => ?_
  obtain ⟨r, h, hr⟩ := hf ⟨a, x, s.inner, none⟩
  exact ⟨r, s.dropHandle h, by simp only [hr]⟩

theorem returns_account (hdb : db.Answers) (a : Address)
    (f : AccountHandle → α × AccountHandle) : Returns (account db a f) :=
  (returns_accountWithSkip hdb a (.total f)).mapError _

omit [Keccak] in
theorem returns_intoSlotInner (hdb : db.Answers) (warm : Bool) (key : Word)
    (f : Bool → StorageSlotHandle → α × StorageSlotHandle) :
    Returns (StorageHandle.intoSlotInner db warm key false f) := by
  refine .bind (fun h => ?_) fun r => .total _
  unfold StorageHandle.loadSlot
  dsimp only
  split
  · exact ⟨_, _, rfl⟩
  · have hread : Returns (StateInner.readUnloadedSlot db h.address key
        (h.storage.wiped || h.discardsStorage)) :=
      .ite (fun _ => .ret _) fun _ =>
        StateInner.returns_onCache (Cache.returns_getStorage hdb h.address key)
    obtain ⟨value, inner, hr⟩ := hread h.inner
    simp only [Bool.false_and, Bool.false_eq_true, if_false, hr]
    exact ⟨_, _, rfl⟩

theorem returns_storage (hdb : db.Answers) (a : Address) {x : Op StorageHandle LoadError α}
    (hx : Returns x) : Returns (storage db a x) := by
  refine .bind (returns_accountRaw hdb a) fun account s => ?_
  obtain ⟨r, h, hr⟩ := hx ⟨a, account.storage, account.flags.discardsStorage, s.inner⟩
  exact ⟨r, _, by simp only [hr]; rfl⟩

end Sessions

end State

end Evm2
