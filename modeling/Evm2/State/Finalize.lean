import Evm2.State.Steps

/-!
# Finalization and commit of a transaction

`State.finalizeTransaction` turns the marks of a transaction into deletions, wipes and resets;
`Cache.commit` folds the accounts of the overlay into the cache database.
-/

namespace Evm2

namespace AccountHandle

def deleteForFinalization (h : AccountHandle) : AccountHandle :=
  { h with tracked := { h.tracked with present := none } }

def resetSelfdestructedForFinalization (h : AccountHandle) : AccountHandle :=
  { h with
    tracked := { h.tracked with present := some { AccountInfo.default with balance := h.balance } } }

end AccountHandle

namespace StorageHandle

def wipe (h : StorageHandle) : StorageHandle := { h with storage := h.storage.wipe }

def zeroLoaded (h : StorageHandle) : StorageHandle := { h with storage := h.storage.zeroLoaded }

end StorageHandle

/-! ## Finalization -/

namespace State

variable [Keccak] (db : Database) (features : EvmFeatures)

def accountRaw (a : Address) : Op State DatabaseError Account :=
  (accountRawWithSkip db a false).mapError loadErrorToDatabase

def storageSession (a : Address) (f : StorageHandle → StorageHandle) : Op State DatabaseError Unit :=
  (storage db a (Op.total fun h => ((), f h))).mapError loadErrorToDatabase

def materializeEmptyAccountForFinalization (a : Address) : Op State DatabaseError Unit := do
  let entry ← accountRaw db a
  if entry.original.isNone && entry.present.isNone then
    Op.update fun s => s.setAccount a
      { entry with present := some AccountInfo.default }.markCreatedDiscardingStorage
  else pure ()

def finalizeDestroyed (a : Address) : Op State DatabaseError Unit := do
  let survives ← account db a fun h =>
    if features.contains .eip8246 && h.balance != 0 then
      (true, h.resetSelfdestructedForFinalization)
    else (false, h.deleteForFinalization)
  let s ← Op.get
  let zeroLoadedOnly :=
    survives && (s.accounts.lookup a).elim false fun entry => entry.flags.discardsStorage
  storageSession db a fun h => if zeroLoadedOnly then h.zeroLoaded else h.wipe

/-- The body of the second loop of `State::finalize_transaction`: a touched account that is dead
(EIP-161) or absent (before). -/
def finalizeTouched (a : Address) : Op State DatabaseError Unit :=
  if features.contains .eip161 then do
    account db a fun h => ((), h.deleteForFinalization)
    storageSession db a StorageHandle.wipe
  else materializeEmptyAccountForFinalization db a

def selectsDestroyed (entry : Account) : Bool := entry.flags.destroyed

def selectsTouched (entry : Account) : Bool :=
  !entry.flags.destroyed && entry.flags.touched &&
    if features.contains .eip161 then entry.isExistingDead else entry.present.isNone

def select (accounts : Map Address Account) (p : Account → Bool) : List Address :=
  (accounts.entries.filter fun e => p e.2).map Sigma.fst

def finalizeTransaction : Op State DatabaseError Unit := do
  let s ← Op.get
  let destroyed := select s.accounts selectsDestroyed
  let finalize := select s.accounts (selectsTouched features)
  destroyed.forM (finalizeDestroyed db features)
  finalize.forM (finalizeTouched db features)

end State

/-! ## What finalization makes of an account -/

def destroyedAccount (features : EvmFeatures) (x : Account) : Account :=
  let balance := x.present.elim 0 AccountInfo.balance
  if features.contains .eip8246 && balance != 0 then
    { x with
      present := some { AccountInfo.default with balance := balance }
      storage := if x.flags.discardsStorage then x.storage.zeroLoaded else x.storage.wipe }
  else { x with present := none, storage := x.storage.wipe }

def touchedAccount (features : EvmFeatures) (x : Account) : Account :=
  if features.contains .eip161 then { x with present := none, storage := x.storage.wipe }
  else if x.original.isNone && x.present.isNone then
    { x with present := some AccountInfo.default }.markCreatedDiscardingStorage
  else x

def finalizeAccount (features : EvmFeatures) (x : Account) : Account :=
  if State.selectsDestroyed x then destroyedAccount features x
  else if State.selectsTouched features x then touchedAccount features x
  else x

namespace State

theorem mem_select {a : Address} {accounts : Map Address Account} {p : Account → Bool} :
    a ∈ select accounts p ↔ ∃ x, accounts.lookup a = some x ∧ p x = true := by
  simp only [select, List.mem_map, List.mem_filter]
  constructor
  · rintro ⟨e, ⟨he, hp⟩, rfl⟩
    exact ⟨e.2, AList.mem_lookup_iff.mpr he, hp⟩
  · rintro ⟨x, hx, hp⟩
    exact ⟨⟨a, x⟩, ⟨AList.mem_lookup_iff.mp hx, hp⟩, rfl⟩

theorem nodup_select (accounts : Map Address Account) (p : Account → Bool) :
    (select accounts p).Nodup :=
  accounts.nodupKeys.sublist List.filter_sublist

theorem forM_setAccount {op : Address → Op State DatabaseError Unit} {g : Account → Account}
    (hop : ∀ s a x, s.accounts.lookup a = some x →
      (op a).run s = (.ok (), s.setAccount a (g x)))
    (as : List Address) (hnd : as.Nodup) (s : State)
    (hin : ∀ a ∈ as, (s.accounts.lookup a).isSome) :
    ∃ accounts, (as.forM op).run s = (.ok (), { s with accounts := accounts }) ∧
      ∀ b, accounts.lookup b =
        if b ∈ as then (s.accounts.lookup b).map g else s.accounts.lookup b := by
  induction as generalizing s with
  | nil => exact ⟨s.accounts, rfl, fun b => rfl⟩
  | cons a as ih =>
    obtain ⟨x, hx⟩ := Option.isSome_iff_exists.mp (hin a List.mem_cons_self)
    rw [List.nodup_cons] at hnd
    have hin' : ∀ b ∈ as, ((s.setAccount a (g x)).accounts.lookup b).isSome := by
      intro b hb
      simp only [setAccount, Map.lookup_set]
      split_ifs
      · rfl
      · exact hin b (List.mem_cons_of_mem _ hb)
    obtain ⟨accounts, hrun, hlookup⟩ := ih hnd.2 (s.setAccount a (g x)) hin'
    refine ⟨accounts, ?_, fun b => ?_⟩
    · have hcons : (a :: as).forM op = (op a >>= fun _ => as.forM op) := rfl
      rw [hcons, Op.run_bind_ok (hop s a x hx), hrun]
      rfl
    · rw [hlookup]
      simp only [setAccount, Map.lookup_set, List.mem_cons]
      by_cases hb : b = a
      · subst hb
        simp [hnd.1, hx]
      · simp [hb]

variable [Keccak] (db : Database) (features : EvmFeatures) {s : State} {a : Address} {x : Account}

theorem accountRaw_loaded (hl : s.accounts.lookup a = some x) :
    (accountRaw db a).run s = (.ok x, s) := by
  rw [accountRaw, Op.run_mapError, accountRawWithSkip_some db false hl]
  rfl

theorem storageSession_loaded (f : StorageHandle → StorageHandle)
    (hl : s.accounts.lookup a = some x) :
    (storageSession db a f).run s = (.ok (), s.putStorage a x (f (s.storageHandle a x))) := by
  have hraw : (accountRawWithSkip db a false).run s = (.ok x, s) := by
    rw [accountRawWithSkip_some db false hl]
    rfl
  rw [storageSession, Op.run_mapError, storage, Op.run_bind_ok hraw]
  rfl

theorem account_unjournaled {α : Type} (f : Account → α × Account)
    (hl : s.accounts.lookup a = some x) :
    (account db a fun h => ((f h.tracked).1, { h with tracked := (f h.tracked).2 })).run s =
      (.ok (f x).1, s.setAccount a (f x).2) :=
  account_loaded db _ hl

theorem storageSession_setAccount (f : StorageOverlay → StorageOverlay) (y : Account) :
    (storageSession db a fun h => { h with storage := f h.storage }).run (s.setAccount a y) =
      (.ok (), s.setAccount a { y with storage := f y.storage }) := by
  have hl : (s.setAccount a y).accounts.lookup a = some y := by simp [setAccount]
  rw [storageSession_loaded db _ hl]
  simp [putStorage, setAccount]

theorem finalizeDestroyed_loaded (hl : s.accounts.lookup a = some x) :
    (finalizeDestroyed db features a).run s =
      (.ok (), s.setAccount a (destroyedAccount features x)) := by
  let f : Account → Bool × Account := fun y =>
    if features.contains .eip8246 && y.present.elim 0 AccountInfo.balance != 0 then
      (true, { y with present := some { AccountInfo.default with
        balance := y.present.elim 0 AccountInfo.balance } })
    else (false, { y with present := none })
  have hf : (fun h : AccountHandle =>
      if features.contains .eip8246 && h.balance != 0 then
        (true, h.resetSelfdestructedForFinalization)
      else (false, h.deleteForFinalization)) =
      fun h => ((f h.tracked).1, { h with tracked := (f h.tracked).2 }) := by
    funext h
    have hb : h.balance = h.tracked.present.elim 0 AccountInfo.balance := rfl
    by_cases hs : (features.contains .eip8246 && h.balance != 0) = true
    · rw [if_pos hs]
      rw [hb] at hs
      simp only [f, if_pos hs]
      rfl
    · rw [if_neg hs]
      rw [hb] at hs
      simp only [f, if_neg hs]
      rfl
  unfold finalizeDestroyed
  rw [hf, Op.run_bind_ok (account_unjournaled db f hl), Op.run_bind_ok (Op.run_get _)]
  have hd : ((s.setAccount a (f x).2).accounts.lookup a).elim false
      (fun entry => entry.flags.discardsStorage) = x.flags.discardsStorage := by
    simp only [setAccount, Map.lookup_set, if_true, Option.elim_some, f]
    split_ifs <;> rfl
  rw [hd]
  let g : StorageOverlay → StorageOverlay := fun o =>
    if (f x).1 && x.flags.discardsStorage then o.zeroLoaded else o.wipe
  have hg : (fun h : StorageHandle =>
      if (f x).1 && x.flags.discardsStorage then h.zeroLoaded else h.wipe) =
      fun h => { h with storage := g h.storage } := by
    funext h
    simp only [g]
    split_ifs <;> rfl
  dsimp only
  rw [hg, storageSession_setAccount]
  simp only [destroyedAccount, f, g]
  split_ifs with h₁ h₂ h₃ <;> simp_all

theorem finalizeTouched_loaded (hl : s.accounts.lookup a = some x) :
    (finalizeTouched db features a).run s =
      (.ok (), s.setAccount a (touchedAccount features x)) := by
  unfold finalizeTouched touchedAccount
  split_ifs with h₁ h₂
  · have hd : (account db a fun h => ((), h.deleteForFinalization)).run s =
        (.ok (), s.setAccount a { x with present := none }) :=
      account_unjournaled db (fun y => ((), { y with present := none })) hl
    rw [Op.run_bind_ok hd]
    exact storageSession_setAccount db StorageOverlay.wipe _
  · unfold materializeEmptyAccountForFinalization
    rw [Op.run_bind_ok (accountRaw_loaded db hl), if_pos h₂]
    rfl
  · unfold materializeEmptyAccountForFinalization
    rw [Op.run_bind_ok (accountRaw_loaded db hl), if_neg h₂]
    simp only [Op.run_pure, setAccount, Map.set_eq_self hl]

/-- **Finalization does not fail** and finalizes every account on its own. -/
theorem finalizeTransaction_run (s : State) :
    ∃ accounts, (finalizeTransaction db features).run s = (.ok (), { s with accounts := accounts }) ∧
      ∀ a, accounts.lookup a = (s.accounts.lookup a).map (finalizeAccount features) := by
  obtain ⟨accounts₁, hrun₁, hlookup₁⟩ :=
    forM_setAccount (fun s a x hx => finalizeDestroyed_loaded db features hx)
      (select s.accounts selectsDestroyed) (nodup_select _ _) s fun a ha => by
        obtain ⟨x, hx, -⟩ := mem_select.mp ha
        simp [hx]
  obtain ⟨accounts, hrun, hlookup⟩ :=
    forM_setAccount (fun s a x hx => finalizeTouched_loaded db features hx)
      (select s.accounts (selectsTouched features)) (nodup_select _ _)
      { s with accounts := accounts₁ } fun a ha => by
        obtain ⟨x, hx, -⟩ := mem_select.mp ha
        simp only [hlookup₁, hx]
        split_ifs <;> rfl
  refine ⟨accounts, ?_, fun a => ?_⟩
  · unfold finalizeTransaction
    rw [Op.run_bind_ok (Op.run_get s), Op.run_bind_ok hrun₁, hrun]
  · rw [hlookup, hlookup₁]
    cases hx : s.accounts.lookup a with
    | none => simp
    | some x =>
      have hd : a ∈ select s.accounts selectsDestroyed ↔ selectsDestroyed x = true := by
        simp [mem_select, hx]
      have ht : a ∈ select s.accounts (selectsTouched features) ↔
          selectsTouched features x = true := by
        simp [mem_select, hx]
      simp only [hd, ht, Option.map_some, finalizeAccount]
      by_cases h₁ : selectsDestroyed x = true
      · have h₂ : ¬selectsTouched features x = true := by
          have hflag : x.flags.destroyed = true := h₁
          simp [selectsTouched, hflag]
        rw [if_neg h₂, if_pos h₁, if_pos h₁]
      · rw [if_neg h₁, if_neg h₁]
        split_ifs <;> rfl

end State

/-! ## Commit -/

def Cache.commitAccount [Keccak] (c : Cache) (a : Address) (entry : Account) : Cache :=
  let overlay := entry.storage
  let wiped := overlay.wiped || entry.flags.discardsStorage
  let changedSlots := overlay.changedSlots
  let c :=
    if wiped || !changedSlots.isEmpty then
      { c with storage := c.storage.adjust a .default fun storage =>
          let storage := if wiped then storage.wipe else storage
          { storage with
            slots := changedSlots.foldl (fun m slot => m.set slot.1 slot.2.current)
              storage.slots } }
    else c
  let c :=
    match entry.changedCode with
    | some (codeHash, code) => { c with contracts := c.contracts.set codeHash code }
    | none => c
  if !entry.isChanged then c
  else
    match entry.present with
    | some account => c.insertAccountInfo a account.cloneNoCode
    | none => { c with
        accounts := c.accounts.set a none
        storage := c.storage.adjust a .default AccountStorageCache.wipe }

def Cache.commit [Keccak] (c : Cache) (accounts : Map Address Account) : Cache :=
  accounts.entries.foldl (fun c e => c.commitAccount e.1 e.2) c

end Evm2
