import Evm2.State.CacheSink
import Evm2.State.Finalize

/-!
# Committing a transaction to the cache

`CacheDB::commit` writes the accounts of a transaction to the cache without a stream of changes.

* `AccountView.commit`, **`Cache.view_commit`**: what a commit makes of what the cache says about an
  account.
-/

namespace Evm2

variable [Keccak]

/-! ## A direct commit -/

namespace AccountView

def committedStorage (v : AccountView) (x : Account) (k : Word) : Except DatabaseError Word :=
  match x.storage.changedSlotMap.lookup k with
  | some slot => .ok slot.current
  | none => if x.storage.wiped || x.flags.discardsStorage then .ok 0 else v.storage k

def commit (v : AccountView) (x : Account) : AccountView :=
  if x.isChanged then
    match x.present with
    | some info => ⟨.ok (some info.cloneNoCode.stored), v.committedStorage x⟩
    | none => ⟨.ok none, fun _ => .ok 0⟩
  else ⟨v.info, v.committedStorage x⟩

end AccountView

namespace Cache

variable {db : Database}

omit [Keccak] in
def commitStorage (c : Cache) (a : Address) (x : Account) : Cache :=
  if (x.storage.wiped || x.flags.discardsStorage) || !x.storage.changedSlots.isEmpty then
    { c with storage := c.storage.adjust a .default fun storage =>
        let storage := if x.storage.wiped || x.flags.discardsStorage then storage.wipe else storage
        { storage with
          slots := x.storage.changedSlots.foldl (fun m slot => m.set slot.1 slot.2.current)
            storage.slots } }
  else c

def commitCode (c : Cache) (x : Account) : Cache :=
  match x.changedCode with
  | some (codeHash, code) => { c with contracts := c.contracts.set codeHash code }
  | none => c

theorem commitAccount_eq (c : Cache) (a : Address) (x : Account) :
    c.commitAccount a x =
      let c := (c.commitStorage a x).commitCode x
      if !x.isChanged then c
      else match x.present with
        | some account => c.insertAccountInfo a account.cloneNoCode
        | none => { c with
            accounts := c.accounts.set a none
            storage := c.storage.adjust a .default AccountStorageCache.wipe } := rfl

omit [Keccak] in
theorem lookup_foldl_changedSlots (o : StorageOverlay) (m : Map Word Word) (k : Word) :
    (o.changedSlots.foldl (fun m slot => m.set slot.1 slot.2.current) m).lookup k =
      (o.changedSlotMap.lookup k).elim (m.lookup k) fun slot => some slot.current := by
  refine (Map.foldl_filterMap_proj (k := k) (fun m : Map Word Word => m.lookup k) _
    (fun m (slot : Word × Tracked Word) => m.set slot.1 slot.2.current)
    (fun x slot => if slot.isChanged o.wiped then some slot.value.current else x)
    (fun m key slot => ?_) o.slots m).trans ?_
  · by_cases hk : key = k
    · subst hk
      rw [if_pos rfl]
      split_ifs <;> simp
    · rw [if_neg hk]
      split_ifs
      · simp [Ne.symm hk]
      · rfl
  · rw [StorageOverlay.changedSlotMap, Map.lookup_filterMapValues]
    cases o.slots.lookup k with
    | none => rfl
    | some slot =>
      simp only [Option.elim_some, Option.bind_some, StorageOverlay.changedValue]
      split_ifs <;> rfl

theorem view_commitStorage (c : Cache) (a : Address) (x : Account) :
    (c.commitStorage a x).view db a =
      ⟨(c.view db a).info, (c.view db a).committedStorage x⟩ := by
  unfold commitStorage
  by_cases h : ((x.storage.wiped || x.flags.discardsStorage) ||
      !x.storage.changedSlots.isEmpty) = true
  · rw [if_pos h]
    refine AccountView.ext (info_view_congr rfl) (funext fun k => ?_)
    refine (storedSlot_adjust c a _ k).trans ?_
    simp only [lookup_foldl_changedSlots, AccountView.committedStorage]
    cases x.storage.changedSlotMap.lookup k with
    | some slot => rfl
    | none => cases x.storage.wiped || x.flags.discardsStorage <;> rfl
  · -- nothing changed
    rw [if_neg h]
    simp only [Bool.or_eq_true, Bool.not_eq_true', not_or, Bool.not_eq_true, Bool.not_eq_false,
      List.isEmpty_iff] at h
    refine AccountView.ext rfl (funext fun k => ?_)
    have hk := lookup_foldl_changedSlots x.storage ∅ k
    rw [h.2, List.foldl_nil] at hk
    simp only [AccountView.committedStorage, h.1.1, h.1.2, Bool.or_false, Bool.false_eq_true,
      if_false]
    cases hs : x.storage.changedSlotMap.lookup k with
    | some slot =>
      rw [hs] at hk
      cases hk
    | none => rfl

theorem view_commitCode (c : Cache) (a : Address) (x : Account) :
    (c.commitCode x).view db a = c.view db a := by
  unfold commitCode
  split
  · exact view_congr rfl rfl
  · rfl

theorem view_commitAccount_self (c : Cache) (a : Address) (x : Account) :
    (c.commitAccount a x).view db a = (c.view db a).commit x := by
  have hv := (view_commitCode (c.commitStorage a x) a x).trans
    (@view_commitStorage _ db c a x)
  rw [commitAccount_eq, AccountView.commit]
  generalize (c.commitStorage a x).commitCode x = c' at hv ⊢
  cases hc : x.isChanged with
  | false => exact hv
  | true =>
    simp only [Bool.not_true, Bool.false_eq_true, if_false, if_true]
    cases x.present with
    | some info =>
      refine AccountView.ext (info_insertAccountInfo c' a _) ?_
      change (c'.view db a).storage = _
      rw [hv]
    | none =>
      have hl : (c'.accounts.set a none).lookup a = some none := by simp
      refine AccountView.ext ?_ (funext fun k => storedSlot_adjust c' a _ k)
      simp only [view]
      rw [info_some hl]
      rfl

theorem view_commitAccount_ne (c : Cache) {a b : Address} (h : a ≠ b) (x : Account) :
    (c.commitAccount b x).view db a = c.view db a := by
  have hs : (c.commitStorage b x).view db a = c.view db a := by
    unfold commitStorage
    by_cases hw : ((x.storage.wiped || x.flags.discardsStorage) ||
        !x.storage.changedSlots.isEmpty) = true
    · rw [if_pos hw]
      exact view_congr rfl (by simp [h])
    · rw [if_neg hw]
  have hv := (view_commitCode (c.commitStorage b x) a x).trans hs
  rw [commitAccount_eq, ← hv]
  generalize (c.commitStorage b x).commitCode x = c'
  dsimp only
  split_ifs
  · rfl
  · split
    · exact view_congr (by simp [insertAccountInfo, h]) rfl
    · exact view_congr (by simp [h]) (by simp [h])

theorem view_commit (db : Database) (c : Cache) (accounts : Map Address Account) (a : Address) :
    (c.commit accounts).view db a =
      (accounts.lookup a).elim (c.view db a) (c.view db a).commit := by
  refine Map.foldl_entries_proj (k := a) (fun c : Cache => c.view db a)
    (fun c b x => c.commitAccount b x) AccountView.commit (fun c b x => ?_) accounts c
  by_cases hb : b = a
  · subst hb
    rw [if_pos rfl]
    exact view_commitAccount_self c b x
  · rw [if_neg hb]
    exact view_commitAccount_ne c (Ne.symm hb) x

end Cache

def Database.unavailable : Database where
  getAccount _ := .error ⟨"unavailable", false⟩
  getCodeByHash _ := .error ⟨"unavailable", false⟩
  getStorage _ _ := .error ⟨"unavailable", false⟩
  getBlockHash _ := .error ⟨"unavailable", false⟩

namespace Cache

variable {db : Database} {a : Address}

/-- What is cached of an account: what is not would have to be read from the database. -/
def cached (c : Cache) (a : Address) : AccountView := c.view .unavailable a

theorem knownAbsent_eq_cached (c : Cache) (a : Address) :
    c.knownAbsent a = true ↔ (c.cached a).info = .ok none := by
  simp only [cached, view, knownAbsent]
  cases hl : c.accounts.lookup a with
  | some i =>
    rw [info_some hl]
    cases i with
    | none => exact ⟨fun _ => rfl, fun _ => rfl⟩
    | some i => exact ⟨fun h => (by cases h), fun h => (by cases h)⟩
  | none =>
    rw [info_none hl]
    exact ⟨fun h => (by cases h), fun h => (by cases h)⟩

theorem getStorage_eq_cached (c : Cache) (a : Address) (k : Word) :
    ((getStorage db a k).run c).1 = match (c.cached a).storage k with
      | .ok v => .ok v
      | .error _ => if c.knownAbsent a then .ok 0 else db.getStorage a k := by
  have hstored : (c.cached a).storage k = c.storedSlot .unavailable a k := rfl
  rw [hstored, storedSlot]
  cases hl : (c.storageOf a).slots.lookup k with
  | some v => rw [getStorage_cached hl]
  | none =>
    cases hw : (c.storageOf a).wiped with
    | true =>
      rw [getStorage_zero hl (by rw [hw]; rfl)]
      rfl
    | false =>
      simp only [Bool.false_eq_true, if_false, Database.unavailable]
      by_cases ha : c.knownAbsent a = true
      · rw [getStorage_zero hl (by rw [ha, Bool.or_true]), if_pos ha]
      · rw [Bool.not_eq_true] at ha
        rw [getStorage_db hl (by rw [hw, ha]; rfl), ha]
        cases db.getStorage a k <;> rfl

end Cache

/-! ## Finalized transactions -/

/-- The accounts are what finalization made of accounts of which those marked as created exist. -/
def PendingState.Finalized (p : PendingState) (features : EvmFeatures) : Prop :=
  ∀ a x, p.accounts.lookup a = some x →
    ∃ y : Account, (y.flags.created = true → y.present.isSome = true) ∧
      x = finalizeAccount features y

omit [Keccak] in
theorem StorageOverlay.lookup_changedSlotMap_wipe (o : StorageOverlay) (k : Word) :
    o.wipe.changedSlotMap.lookup k = none := by
  rw [changedSlotMap, Map.lookup_filterMapValues]
  simp only [wipe, zeroLoaded, Map.lookup_mapValues]
  cases o.slots.lookup k with
  | none => rfl
  | some slot => simp [changedValue, StorageSlot.isChanged, StorageSlot.setCurrent]

omit [Keccak] in
theorem storage_finalizeAccount {features : EvmFeatures} {y : Account}
    (hy : y.flags.created = true → y.present.isSome = true)
    (habs : (finalizeAccount features y).present = none)
    (hf : (finalizeAccount features y).flags.created = true ∨
      (finalizeAccount features y).flags.destroyed = true) :
    (finalizeAccount features y).storage = y.storage.wipe := by
  unfold finalizeAccount at *
  by_cases hd : State.selectsDestroyed y = true
  · rw [if_pos hd] at habs ⊢
    unfold destroyedAccount at *
    dsimp only at *
    split_ifs at habs ⊢
    rfl
  · rw [if_neg hd] at habs hf ⊢
    -- an account that is left as it is would be created and absent
    have hkept : y.present = none → (y.flags.created = true ∨ y.flags.destroyed = true) →
        False := by
      rintro hnone (hc | hc)
      · have := hy hc
        rw [hnone] at this
        cases this
      · exact hd hc
    by_cases ht : State.selectsTouched features y = true
    · rw [if_pos ht] at habs hf ⊢
      unfold touchedAccount at *
      by_cases h161 : features.contains .eip161 = true
      · rw [if_pos h161]
      · rw [if_neg h161] at habs hf ⊢
        by_cases hn : (y.original.isNone && y.present.isNone) = true
        · rw [if_pos hn] at habs
          cases habs
        · rw [if_neg hn] at habs hf
          exact (hkept habs hf).elim
    · rw [if_neg ht] at habs hf
      exact (hkept habs hf).elim

/-- The account of a transaction fits the cache that the transaction ran on: its original info is
what the cache says, and its code is that of its hash, which is the cache's code unless the hash
changed. -/
structure Cache.Matches (db : Database) (c : Cache) (a : Address) (x : Account) : Prop where
  original : (c.view db a).info = .ok (x.original.map AccountInfo.plain)
  codeMatches : ∀ info, x.present = some info → info.CodeMatches
  code : ∀ info code, x.present = some info → info.code = some code → code.isEmpty = false →
    x.original.map AccountInfo.codeHash = some info.codeHash →
    ((Cache.getCodeByHash db info.codeHash).run c).1 = .ok code

namespace AccountView

omit [Keccak] in
theorem committedStorage_eq (v : AccountView) {x : Account} (hd : x.flags.discardsStorage = false)
    (a : Address) : v.committedStorage x = v.storageBeforeLast (x.changes a) := by
  funext k
  simp only [committedStorage, storageBeforeLast, Account.changes, hd, Bool.or_false]
  rfl

theorem commit_of_isChanged (v : AccountView) {x : Account} (hd : x.flags.discardsStorage = false)
    (hm : ∀ info, x.present = some info → info.CodeMatches) (hc : x.isChanged = true)
    (a : Address) :
    v.commit x = (x.changes a).visitAccount.foldl receive v := by
  have hi : (x.changes a).isInfoChanged = true := by
    unfold Account.isChanged at hc
    simp [AccountChanges.isInfoChanged, Account.changes, hc]
  rw [foldl_visitAccount, if_pos hi, commit, if_pos hc, ← committedStorage_eq v hd a]
  simp only [receive, Account.changes]
  cases hp : x.present with
  | none => rfl
  | some info => simp only [(hm info hp).stored_eq]

theorem commit_of_not_isInfoChanged (v : AccountView) {x : Account}
    (hd : x.flags.discardsStorage = false) (a : Address)
    (hi : ¬(x.changes a).isInfoChanged = true) :
    v.commit x = (x.changes a).visitAccount.foldl receive v := by
  have hc : ¬x.isChanged = true := by
    have := AccountChanges.optInfoEq_of_not_isInfoChanged hi
    simp only [Account.changes] at this
    simp [Account.isChanged, this]
  rw [foldl_visitAccount, if_neg hi, commit, if_neg hc, committedStorage_eq v hd a]

end AccountView

namespace Cache

variable {db : Database} {a : Address}

/-- What is said about an account agrees if the info does, the cached slots do, and the account is
known to be absent in both caches or no slot is read from the database. -/
theorem answers_of_cached {c c' : Cache} (hi : (c'.view db a).info = (c.view db a).info)
    (hs : (c'.cached a).storage = (c.cached a).storage)
    (ha : c'.knownAbsent a = c.knownAbsent a ∨ ∀ k, ∃ v, (c.cached a).storage k = .ok v) :
    ((getAccount db a).run c').1.map (Option.map AccountInfo.plain) =
      ((getAccount db a).run c).1.map (Option.map AccountInfo.plain) ∧
    ∀ k, ((getStorage db a k).run c').1 = ((getStorage db a k).run c).1 := by
  refine ⟨hi, fun k => ?_⟩
  rw [getStorage_eq_cached, getStorage_eq_cached, hs]
  rcases ha with ha | ha
  · rw [ha]
  · obtain ⟨v, hv⟩ := ha k
    rw [hv]

theorem answers_of_marked {c c₁ c₂ : Cache} {x : Account} (hx : c.Matches db a x)
    (hfin : x.present = none → (x.flags.created = true ∨ x.flags.destroyed = true) →
      x.storage.wiped = true ∧ ∀ k, x.storage.changedSlotMap.lookup k = none)
    (hi : (x.changes a).isInfoChanged = true) (hc : ¬x.isChanged = true)
    (h₁ : ∀ db, c₁.view db a =
      ⟨(c.view db a).info, (c.view db a).storageBeforeLast (x.changes a)⟩)
    (h₂ : ∀ db, c₂.view db a = (⟨(c.view db a).info,
      (c.view db a).storageBeforeLast (x.changes a)⟩ : AccountView).receive
        (.account ⟨a, x.original, x.present, x.flags.created, x.flags.destroyed⟩)) :
    ((getAccount db a).run c₂).1.map (Option.map AccountInfo.plain) =
      ((getAccount db a).run c₁).1.map (Option.map AccountInfo.plain) ∧
    ∀ k, ((getStorage db a k).run c₂).1 = ((getStorage db a k).run c₁).1 := by
  have hsame := Account.plain_of_not_isChanged hc
  have hinfo : (c₁.view db a).info = .ok (x.present.map AccountInfo.plain) := by
    rw [h₁, hx.original, hsame]
  cases hp : x.present with
  | some info =>
    simp only [hp, AccountView.receive] at h₂
    rw [hp, Option.map_some] at hinfo
    have hstored : info.stored = info.plain := by
      rw [(hx.codeMatches info hp).stored_eq, AccountInfo.stored_cloneNoCode,
        normalizeCodeHash_of_ne (isNormal_view db c₁ a info.plain hinfo)]
    refine answers_of_cached (by rw [h₂, hinfo, hstored]) (by rw [cached, cached, h₂, h₁]) (.inl ?_)
    -- neither cache has the account as absent
    have habs₁ : ¬c₁.knownAbsent a = true := by
      intro hk
      rw [info_of_knownAbsent hk] at hinfo
      cases hinfo
    have habs₂ : ¬c₂.knownAbsent a = true := by
      rw [knownAbsent_eq_cached, cached, h₂]
      intro hk
      cases hk
    rw [Bool.not_eq_true] at habs₁ habs₂
    rw [habs₁, habs₂]
  | none =>
    simp only [hp, AccountView.receive] at h₂
    rw [hp, Option.map_none] at hinfo
    have hmark : x.flags.created = true ∨ x.flags.destroyed = true := by
      simp only [Account.isChanged, Bool.not_eq_true', Bool.not_eq_false] at hc
      simpa [AccountChanges.isInfoChanged, Account.changes, hc] using hi
    obtain ⟨hw, hslots⟩ := hfin hp hmark
    have hzero : (c₁.cached a).storage = fun _ => .ok 0 := by
      funext k
      rw [cached, h₁]
      simp only [AccountView.storageBeforeLast, Account.changes, hslots k, hw, if_true]
    refine answers_of_cached (by rw [h₂, hinfo]) (by rw [hzero, cached, h₂]) (.inr fun k => ?_)
    exact ⟨0, congrFun hzero k⟩

/-! ## Code -/

omit [Keccak] in
def codeAnswer (db : Database) (contracts : Map B256 Bytecode) (codeHash : B256) :
    Except DatabaseError Bytecode :=
  (contracts.lookup codeHash).elim (db.getCodeByHash codeHash) .ok

omit [Keccak] in
theorem getCodeByHash_eq (c : Cache) (codeHash : B256) :
    ((getCodeByHash db codeHash).run c).1 =
      codeAnswer db c.contracts (if codeHash = 0 then KECCAK256_EMPTY else codeHash) := by
  simp only [getCodeByHash, codeAnswer]
  generalize (if codeHash = 0 then KECCAK256_EMPTY else codeHash) = h
  cases c.contracts.lookup h with
  | some code => rfl
  | none => cases db.getCodeByHash h <;> rfl

theorem fst_insertContractInner (contracts : Map B256 Bytecode) {info : AccountInfo}
    (hm : info.CodeMatches) :
    (insertContractInner contracts info).1 = match info.code with
      | none => contracts
      | some code =>
        if code.isEmpty then contracts else contracts.adjust info.codeHash code id := by
  unfold insertContractInner
  simp only [code_normalizeCodeHash]
  cases hc : info.code with
  | none => rfl
  | some code =>
    simp only
    by_cases he : code.isEmpty = true
    · rw [if_pos he, if_pos he]
    · rw [if_neg he, if_neg he]
      have hhash := hm code hc (by simpa using he)
      by_cases hempty : (normalizeCodeHash info).isEmptyCodeHash = true
      · rw [if_pos hempty, ← hhash]
      · rw [if_neg hempty]
        have hne : info.codeHash ≠ 0 := by
          intro h0
          simp [normalizeCodeHash, h0, AccountInfo.isEmptyCodeHash] at hempty
        rw [normalizeCodeHash_of_ne hne]

def addCode (contracts : Map B256 Bytecode) (x : Account) : Map B256 Bytecode :=
  x.changedCode.elim contracts fun code => contracts.set code.1 code.2

theorem contracts_commitAccount (c : Cache) (a : Address) (x : Account) :
    (c.commitAccount a x).contracts = addCode c.contracts x := by
  have hs : (c.commitStorage a x).contracts = c.contracts := by
    unfold commitStorage
    by_cases hw : ((x.storage.wiped || x.flags.discardsStorage) ||
        !x.storage.changedSlots.isEmpty) = true
    · rw [if_pos hw]
    · rw [if_neg hw]
  have hcode : ((c.commitStorage a x).commitCode x).contracts = addCode c.contracts x := by
    unfold commitCode addCode
    cases x.changedCode with
    | none => exact hs
    | some code => rw [Option.elim_some, ← hs]
  rw [commitAccount_eq]
  generalize (c.commitStorage a x).commitCode x = c' at hcode ⊢
  dsimp only
  split_ifs
  · exact hcode
  · split
    · rename_i info _
      have hm : info.cloneNoCode.CodeMatches := fun code h => by cases h
      exact (fst_insertContractInner c'.contracts hm).trans hcode
    · exact hcode

theorem contracts_visit (c : Cache) (a : Address) (x : Account) :
    ((x.changes a).visit.foldl sink c).contracts =
      if (x.changes a).isInfoChanged then
        x.present.elim (addCode c.contracts x) fun info =>
          (insertContractInner (addCode c.contracts x) info).1
      else addCode c.contracts x := by
  have hslots : ∀ (l : List (Σ _ : Word, StorageSlot)) (c : Cache),
      ((l.map fun e => (x.changes a).visitSlot e.1 e.2).foldl sink c).contracts = c.contracts := by
    intro l
    induction l with
    | nil => exact fun _ => rfl
    | cons e l ih =>
      intro c
      rw [List.map_cons, List.foldl_cons, ih]
      unfold AccountChanges.visitSlot
      split_ifs <;> rfl
  have hcode : ((x.changes a).visitCode.foldl sink c).contracts = addCode c.contracts x := by
    simp only [AccountChanges.visitCode, Account.changes, addCode]
    cases x.changedCode <;> rfl
  rw [AccountChanges.visit, List.foldl_append]
  generalize (x.changes a).visitCode.foldl sink c = c₁ at hcode
  have hwipe : ((if (x.changes a).storage.wiped then
      [StateChange.storageWipe (x.changes a).address] else []).foldl sink c₁).contracts =
        addCode c.contracts x := by
    rw [← hcode]
    split_ifs <;> rfl
  rw [AccountChanges.visitAccount, List.foldl_append, List.foldl_append]
  have hb := (hslots (x.changes a).storage.slots.entries _).trans hwipe
  generalize List.foldl sink _ _ = c₂ at hb ⊢
  rw [List.foldl_cons, List.foldl_nil]
  split_ifs with hi
  · simp only [sink, Account.changes]
    cases x.present with
    | none => exact hb
    | some info =>
      change (insertContractInner c₂.contracts info).1 = _
      rw [hb, Option.elim_some]
  · exact hb

omit [Keccak] in
/-- The contracts `m'` answer as `m` does, and no contract of `m₀` was lost. -/
structure SameCode (db : Database) (m₀ m m' : Map B256 Bytecode) : Prop where
  answer : ∀ h, h ≠ 0 → codeAnswer db m' h = codeAnswer db m h
  kept : ∀ h, m'.lookup h = none → m₀.lookup h = none

omit [Keccak] in
theorem SameCode.set {m₀ m m' : Map B256 Bytecode} (hs : SameCode db m₀ m m') (x : Account) :
    SameCode db m₀ (addCode m x) (addCode m' x) := by
  unfold addCode
  cases x.changedCode with
  | none => exact hs
  | some code =>
    refine ⟨fun h hz => ?_, fun h hn => ?_⟩
    · have := hs.answer h hz
      simp only [codeAnswer, Option.elim_some, Map.lookup_set] at this ⊢
      split_ifs
      · rfl
      · exact this
    · simp only [Option.elim_some, Map.lookup_set] at hn
      split_ifs at hn
      exact hs.kept h hn

theorem SameCode.insert {c : Cache} {m m' : Map B256 Bytecode} {x : Account} {info : AccountInfo}
    (hs : SameCode db c.contracts m (addCode m' x)) (hx : c.Matches db a x)
    (hp : x.present = some info) :
    SameCode db c.contracts m (insertContractInner (addCode m' x) info).1 := by
  rw [fst_insertContractInner _ (hx.codeMatches info hp)]
  cases hc : info.code with
  | none => exact hs
  | some code =>
    simp only
    by_cases he : code.isEmpty = true
    · rw [if_pos he]
      exact hs
    rw [if_neg he]
    rw [Bool.not_eq_true] at he
    refine ⟨fun h hz => ?_, fun h hn => hs.kept h ?_⟩
    · by_cases hh : h = info.codeHash
      · subst hh
        rw [← hs.answer _ hz]
        cases hl : (addCode m' x).lookup info.codeHash with
        | some old => simp [codeAnswer, hl]
        | none =>
          -- the hash did not change, and its code is in the database
          have hsame : x.original.map AccountInfo.codeHash = some info.codeHash := by
            by_contra hne
            have hch : x.changedCode = some (info.codeHash, code) := by
              simp [Account.changedCode, hp, hc, he, hne]
            simp [addCode, hch] at hl
          have hcode := hx.code info code hp hc he hsame
          rw [getCodeByHash_eq, if_neg hz, codeAnswer, hs.kept _ hl, Option.elim_none] at hcode
          simp [codeAnswer, hl, hcode]
      · rw [← hs.answer h hz]
        simp [codeAnswer, hh]
    · rw [Map.lookup_adjust] at hn
      split_ifs at hn
      exact hn

theorem sameCode_commit (c : Cache) (p : PendingState)
    (hx : ∀ a x, p.accounts.lookup a = some x → c.Matches db a x) :
    SameCode db c.contracts (c.commit p.accounts).contracts
      (c.commitSource p.visit).contracts := by
  have hfold : ∀ (l : List (Σ _ : Address, Account)) (c₁ c₂ : Cache),
      (∀ e ∈ l, c.Matches db e.1 e.2) → SameCode db c.contracts c₁.contracts c₂.contracts →
      SameCode db c.contracts (l.foldl (fun c e => c.commitAccount e.1 e.2) c₁).contracts
        ((l.flatMap fun e => (e.2.changes e.1).visit).foldl sink c₂).contracts := by
    intro l
    induction l with
    | nil => exact fun _ _ _ h => h
    | cons e l ih =>
      intro c₁ c₂ hl hs
      rw [List.foldl_cons, List.flatMap_cons, List.foldl_append]
      refine ih _ _ (fun e he => hl e (List.mem_cons_of_mem _ he)) ?_
      rw [contracts_commitAccount, contracts_visit]
      have hs' := hs.set e.2
      split_ifs
      · cases hp : e.2.present with
        | none => exact hs'
        | some info => exact hs'.insert (hl e List.mem_cons_self) hp
      · exact hs'
  have hvisit : p.visit = p.accounts.entries.flatMap fun e => (e.2.changes e.1).visit := by
    rw [PendingState.visit, PendingState.accountChanges, List.flatMap_map]
  rw [commitSource, hvisit]
  refine hfold p.accounts.entries c c (fun e he => hx e.1 e.2 ?_) ⟨fun _ _ => rfl, fun _ h => h⟩
  exact AList.mem_lookup_iff.mpr he

/-! ## Both ways to commit -/

/-- The cache databases answer alike. Infos are compared as `AccountInfo` compares them, without
the code they may come with. -/
structure SameAnswers (db : Database) (c c' : Cache) : Prop where
  account : ∀ a, ((getAccount db a).run c').1.map (Option.map AccountInfo.plain) =
    ((getAccount db a).run c).1.map (Option.map AccountInfo.plain)
  storage : ∀ a k, ((getStorage db a k).run c').1 = ((getStorage db a k).run c).1
  code : ∀ h, ((getCodeByHash db h).run c').1 = ((getCodeByHash db h).run c).1

/-- **A direct commit and a stream of changes lead to caches that answer alike.** -/
theorem sameAnswers_commit (c : Cache) (p : PendingState) {features : EvmFeatures}
    (hfin : p.Finalized features)
    (hd : ∀ a x, p.accounts.lookup a = some x → x.flags.discardsStorage = false)
    (hx : ∀ a x, p.accounts.lookup a = some x → c.Matches db a x) :
    SameAnswers db (c.commit p.accounts) (c.commitSource p.visit) := by
  have hacc : ∀ a, ((getAccount db a).run (c.commitSource p.visit)).1.map
      (Option.map AccountInfo.plain) =
        ((getAccount db a).run (c.commit p.accounts)).1.map (Option.map AccountInfo.plain) ∧
      ∀ k, ((getStorage db a k).run (c.commitSource p.visit)).1 =
        ((getStorage db a k).run (c.commit p.accounts)).1 := by
    intro a
    have hdirect := fun db => view_commit db c p.accounts a
    have hstream := fun db => view_foldl db a p.visit c
    simp only [p.filter_visit a] at hstream
    -- where the views agree for every database, so do the answers
    have hsame : (∀ db, (c.commitSource p.visit).view db a = (c.commit p.accounts).view db a) → _ :=
      fun h => @answers_of_cached _ db a _ _ (congrArg _ (h db)) (congrArg _ (h _))
        (.inl (Bool.eq_iff_iff.mpr (by
          rw [knownAbsent_eq_cached, knownAbsent_eq_cached, cached, cached, h])))
    cases hl : p.accounts.lookup a with
    | none =>
      refine hsame fun db => ?_
      rw [hstream, hdirect, hl]
      rfl
    | some x =>
      simp only [hl, Option.elim_some] at hdirect hstream
      have hdx := hd a x hl
      by_cases hi : (x.changes a).isInfoChanged = true
      · by_cases hc : x.isChanged = true
        · refine hsame fun db => ?_
          rw [hstream, hdirect,
            AccountView.commit_of_isChanged _ hdx (hx a x hl).codeMatches hc a]
        · refine answers_of_marked (hx a x hl) (fun hp hmark => ?_) hi hc (fun db => ?_)
            (fun db => ?_)
          · obtain ⟨y, hy, rfl⟩ := hfin a x hl
            have hw := storage_finalizeAccount hy hp hmark
            rw [hw]
            exact ⟨rfl, y.storage.lookup_changedSlotMap_wipe⟩
          · rw [hdirect, AccountView.commit, if_neg hc, AccountView.committedStorage_eq _ hdx a]
          · rw [hstream, AccountView.foldl_visitAccount, if_pos hi]
            rfl
      · refine hsame fun db => ?_
        rw [hstream, hdirect, AccountView.commit_of_not_isInfoChanged _ hdx a hi]
  refine ⟨fun a => (hacc a).1, fun a => (hacc a).2, fun h => ?_⟩
  rw [getCodeByHash_eq, getCodeByHash_eq]
  refine (sameCode_commit c p hx).answer _ ?_
  split_ifs with hz
  · decide
  · exact hz

end Cache

end Evm2
