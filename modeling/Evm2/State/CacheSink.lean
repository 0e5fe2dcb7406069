import Evm2.State.CacheView
import Evm2.State.Stream

/-!
# The cache as a sink

Changes are committed to a cache directly or as a stream.

* **`Cache.view_foldl`**: what a stream of changes does to what the cache says about an account.
-/

namespace Evm2

namespace Cache

variable [Keccak]

def sink (c : Cache) : StateChange → Cache
  | .bytecode codeHash code => { c with contracts := c.contracts.set codeHash code }
  | .storageWipe address =>
    { c with storage := c.storage.adjust address .default AccountStorageCache.wipe }
  | .storage change =>
    { c with storage := c.storage.adjust change.address .default fun storage =>
        if storage.wiped && change.current == 0 then
          { storage with slots := storage.slots.erase change.key }
        else { storage with slots := storage.slots.set change.key change.current } }
  | .account change =>
    match change.current with
    | some info => c.insertAccountInfo change.address info
    | none => { c with
        accounts := c.accounts.set change.address none
        storage := c.storage.adjust change.address .default AccountStorageCache.wipe }
  | .accountRead _ _ | .storageRead _ _ _ => c

def commitSource (c : Cache) (source : List StateChange) : Cache := source.foldl sink c

end Cache

/-! ## What the cache says -/

/-- What a database says about an account, read by read. -/
@[ext]
structure AccountView where
  info : Except DatabaseError (Option PlainInfo)
  storage : Word → Except DatabaseError Word

def AccountInfo.stored [Keccak] (info : AccountInfo) : PlainInfo :=
  (normalizeCodeHash (Cache.insertContractInner ∅ info).2).plain

def AccountInfo.CodeMatches [Keccak] (info : AccountInfo) : Prop :=
  ∀ code, info.code = some code → code.isEmpty = false → info.codeHash = code.hashSlow

theorem code_normalizeCodeHash (info : AccountInfo) :
    (normalizeCodeHash info).code = info.code := by
  unfold normalizeCodeHash
  split_ifs <;> rfl

theorem normalizeCodeHash_of_ne {info : AccountInfo} (h : info.codeHash ≠ 0) :
    normalizeCodeHash info = info := if_neg h

theorem codeHash_normalizeCodeHash (info : AccountInfo) :
    (normalizeCodeHash info).codeHash ≠ 0 := by
  unfold normalizeCodeHash
  split_ifs with h
  · change KECCAK256_EMPTY ≠ 0
    decide
  · exact h

section Stored

variable [Keccak]

theorem snd_insertContractInner (contracts : Map B256 Bytecode) (info : AccountInfo) :
    (Cache.insertContractInner contracts info).2 =
      match info.code with
      | none => normalizeCodeHash info
      | some code =>
        if !code.isEmpty && (normalizeCodeHash info).isEmptyCodeHash then
          { normalizeCodeHash info with codeHash := code.hashSlow }
        else normalizeCodeHash info := by
  unfold Cache.insertContractInner
  simp only [code_normalizeCodeHash]
  cases info.code with
  | none => rfl
  | some code =>
    cases he : code.isEmpty with
    | true | false => simp [he]

theorem AccountInfo.stored_cloneNoCode (info : AccountInfo) :
    info.cloneNoCode.stored = (normalizeCodeHash info).plain := by
  rw [stored, snd_insertContractInner]
  simp only [AccountInfo.cloneNoCode]
  rw [normalizeCodeHash_of_ne (codeHash_normalizeCodeHash _)]
  unfold normalizeCodeHash
  split_ifs <;> rfl

theorem AccountInfo.CodeMatches.stored_eq {info : AccountInfo} (h : info.CodeMatches) :
    info.stored = info.cloneNoCode.stored := by
  rw [stored_cloneNoCode, stored, snd_insertContractInner]
  cases hc : info.code with
  | none =>
    simp only
    rw [normalizeCodeHash_of_ne (codeHash_normalizeCodeHash _)]
  | some code =>
    simp only
    split_ifs with hempty
    · -- the code is hashed again, with the same result
      simp only [Bool.and_eq_true, Bool.not_eq_true'] at hempty
      have hm := h code hc hempty.1
      unfold normalizeCodeHash
      simp only [← hm, AccountInfo.plain]
      split_ifs <;> simp_all
    · rw [normalizeCodeHash_of_ne (codeHash_normalizeCodeHash _)]

end Stored

namespace AccountView

variable [Keccak]

def receive (v : AccountView) : StateChange → AccountView
  | .storageWipe _ => { v with storage := fun _ => .ok 0 }
  | .storage change =>
    { v with storage := Function.update v.storage change.key (.ok change.current) }
  | .account change =>
    match change.current with
    | some info => { v with info := .ok (some info.stored) }
    | none => ⟨.ok none, fun _ => .ok 0⟩
  | .bytecode _ _ | .accountRead _ _ | .storageRead _ _ _ => v

def AbsentIsEmpty (v : AccountView) : Prop := v.info = .ok none → ∀ k, v.storage k = .ok 0

def IsNormal (v : AccountView) : Prop := ∀ info, v.info = .ok (some info) → info.codeHash ≠ 0

def storageBeforeLast (v : AccountView) (c : AccountChanges) (k : Word) :
    Except DatabaseError Word :=
  match c.storage.changedSlotMap.lookup k with
  | some slot => .ok slot.current
  | none => if c.storage.wiped then .ok 0 else v.storage k

theorem foldl_visitAccount (v : AccountView) (c : AccountChanges) :
    c.visitAccount.foldl receive v = if c.isInfoChanged then
      (⟨v.info, v.storageBeforeLast c⟩ : AccountView).receive
        (.account ⟨c.address, c.original, c.current, c.created, c.selfdestructed⟩)
      else ⟨v.info, v.storageBeforeLast c⟩ := by
  set v₁ : AccountView := if c.storage.wiped then { v with storage := fun _ => .ok 0 } else v
    with hv₁
  have hinfo₁ : v₁.info = v.info := by
    rw [hv₁]
    split_ifs <;> rfl
  have hslots : (c.storage.slots.entries.map fun e => c.visitSlot e.1 e.2).foldl receive v₁ =
      ⟨v.info, v.storageBeforeLast c⟩ := by
    refine AccountView.ext ?_ (funext fun k => ?_)
    · rw [← hinfo₁]
      generalize c.storage.slots.entries = l
      generalize v₁ = v₁
      induction l generalizing v₁ with
      | nil => rfl
      | cons e l ih =>
        rw [List.map_cons, List.foldl_cons, ih]
        unfold AccountChanges.visitSlot
        split_ifs <;> rfl
    · rw [List.foldl_map]
      refine (Map.foldl_entries_proj (k := k) (fun v : AccountView => v.storage k)
        (fun v key slot => v.receive (c.visitSlot key slot))
        (fun x slot => if slot.isChanged c.storage.wiped then .ok slot.value.current else x)
        (fun v key slot => ?_) c.storage.slots v₁).trans ?_
      · unfold AccountChanges.visitSlot
        by_cases hk : key = k
        · subst hk
          rw [if_pos rfl]
          split_ifs <;> simp [receive]
        · rw [if_neg hk]
          split_ifs <;> simp [receive, Ne.symm hk]
      · simp only [storageBeforeLast]
        rw [StorageOverlay.changedSlotMap, Map.lookup_filterMapValues, hv₁]
        cases c.storage.slots.lookup k with
        | none => cases c.storage.wiped <;> rfl
        | some slot =>
          simp only [Option.elim_some, Option.bind_some, StorageOverlay.changedValue]
          split_ifs <;> rfl
  rw [AccountChanges.visitAccount, List.foldl_append, List.foldl_append]
  have hwipe : (if c.storage.wiped then [StateChange.storageWipe c.address] else []).foldl receive
      v = v₁ := by
    rw [hv₁]
    split_ifs <;> rfl
  rw [hwipe, hslots]
  split_ifs <;> rfl

end AccountView

namespace Cache

variable [Keccak] (db : Database) (c : Cache) (a : Address)

def storedSlot (k : Word) : Except DatabaseError Word :=
  match (c.storageOf a).slots.lookup k with
  | some v => .ok v
  | none => if (c.storageOf a).wiped then .ok 0 else db.getStorage a k

def view : AccountView where
  info := (c.info db a).map (Option.map AccountInfo.plain)
  storage := c.storedSlot db a

theorem isNormal_view : (c.view db a).IsNormal := by
  intro info h
  obtain ⟨i, hi, hinfo⟩ : ∃ i, c.info db a = .ok (some i) ∧ i.plain = info := by
    simp only [view] at h
    cases hc : c.info db a with
    | error e => rw [hc] at h; cases h
    | ok i =>
      rw [hc] at h
      cases i with
      | none => cases h
      | some i => exact ⟨i, rfl, Option.some.inj (Except.ok.inj h)⟩
  have hnorm : ∃ j, i = normalizeCodeHash j := by
    cases hl : c.accounts.lookup a with
    | some j =>
      rw [info_some hl] at hi
      cases j with
      | none => cases hi
      | some j => exact ⟨j, (Option.some.inj (Except.ok.inj hi)).symm⟩
    | none =>
      rw [info_none hl, dbInfo] at hi
      cases hd : db.getAccount a with
      | error e => rw [hd] at hi; cases hi
      | ok j =>
        rw [hd] at hi
        cases j with
        | none => cases hi
        | some j => exact ⟨_, (Option.some.inj (Except.ok.inj hi)).symm⟩
  obtain ⟨j, rfl⟩ := hnorm
  rw [← hinfo]
  exact codeHash_normalizeCodeHash j

variable {db c a}

theorem info_of_knownAbsent (h : c.knownAbsent a = true) : (c.view db a).info = .ok none := by
  unfold knownAbsent at h
  simp only [view]
  split at h
  · rename_i hl
    rw [info_some hl]
    rfl
  · cases h

/-- **Reading a slot**: if an absent account has no storage, the value is the stored one. -/
theorem getStorage_eq_view (h : (c.view db a).AbsentIsEmpty) (k : Word) :
    ((getStorage db a k).run c).1 = (c.view db a).storage k := by
  change _ = c.storedSlot db a k
  cases hl : (c.storageOf a).slots.lookup k with
  | some v =>
    rw [getStorage_cached hl, storedSlot, hl]
  | none =>
    by_cases hz : ((c.storageOf a).wiped || c.knownAbsent a) = true
    · rw [getStorage_zero hl hz]
      cases hw : (c.storageOf a).wiped with
      | true => rw [storedSlot, hl, hw]; rfl
      | false =>
        rw [hw, Bool.false_or] at hz
        exact (h (info_of_knownAbsent hz) k).symm
    · rw [getStorage_db hl (by simpa using hz), storedSlot, hl]
      have hw : (c.storageOf a).wiped = false := by
        simp only [Bool.or_eq_true, not_or, Bool.not_eq_true] at hz
        exact hz.1
      rw [hw]
      cases db.getStorage a k <;> rfl

theorem info_view_congr {c c' : Cache} (ha : c'.accounts.lookup a = c.accounts.lookup a) :
    (c'.view db a).info = (c.view db a).info := by
  simp only [view, info_congr ha]

theorem view_congr {c c' : Cache} (ha : c'.accounts.lookup a = c.accounts.lookup a)
    (hs : c'.storage.lookup a = c.storage.lookup a) : c'.view db a = c.view db a := by
  have hst : c'.storageOf a = c.storageOf a := by rw [storageOf, storageOf, hs]
  refine AccountView.ext (info_view_congr ha) (funext fun k => ?_)
  change c'.storedSlot db a k = c.storedSlot db a k
  rw [storedSlot, storedSlot, hst]

theorem info_insertAccountInfo (c : Cache) (a : Address) (info : AccountInfo) :
    ((c.insertAccountInfo a info).view db a).info = .ok (some info.stored) := by
  have hl : (c.insertAccountInfo a info).accounts.lookup a =
      some (some { (insertContractInner c.contracts info).2 with code := none }) := by
    simp [insertAccountInfo]
  simp only [view, info_some hl, insertContractInner_snd c.contracts ∅, AccountInfo.stored]
  unfold normalizeCodeHash
  simp only [Except.map, Option.map_some]
  split_ifs <;> rfl

omit [Keccak] in
theorem storedSlot_adjust (c : Cache) (a : Address) (f : AccountStorageCache → AccountStorageCache)
    (k : Word) :
    ({ c with storage := c.storage.adjust a .default f } : Cache).storedSlot db a k =
      match (f (c.storageOf a)).slots.lookup k with
      | some v => .ok v
      | none => if (f (c.storageOf a)).wiped then .ok 0 else db.getStorage a k := by
  have hst : ({ c with storage := c.storage.adjust a .default f } : Cache).storageOf a =
      f (c.storageOf a) := by
    simp [storageOf]
  rw [storedSlot, hst]

theorem view_storageWipe (c : Cache) (a : Address) :
    ({ c with storage := c.storage.adjust a .default AccountStorageCache.wipe } : Cache).view db a =
      { c.view db a with storage := fun _ => .ok 0 } :=
  AccountView.ext (info_view_congr rfl) (funext fun k => storedSlot_adjust c a _ k)

theorem view_sink_self (c : Cache) {change : StateChange} (h : change.isAbout a = true) :
    (c.sink change).view db a = (c.view db a).receive change := by
  cases change with
  | bytecode codeHash code => cases h
  | accountRead address info => rfl
  | storageRead address key value => rfl
  | storageWipe address =>
    obtain rfl : address = a := by simpa [StateChange.isAbout] using h
    exact view_storageWipe c address
  | storage ref =>
    obtain rfl : ref.address = a := by simpa [StateChange.isAbout] using h
    refine AccountView.ext (info_view_congr rfl) (funext fun k => ?_)
    refine (storedSlot_adjust c ref.address _ k).trans ?_
    simp only [AccountView.receive, Function.update_apply, view, storedSlot]
    by_cases hz : ((c.storageOf ref.address).wiped && ref.current == 0) = true
    · -- a zero is not kept in a storage that was wiped
      simp only [if_pos hz, Map.lookup_erase_ite]
      simp only [Bool.and_eq_true, beq_iff_eq] at hz
      by_cases hk : k = ref.key
      · simp [hk, hz]
      · simp [hk]
    · simp only [if_neg hz, Map.lookup_set]
      by_cases hk : k = ref.key
      · simp [hk]
      · simp [hk]
  | account ref =>
    obtain rfl : ref.address = a := by simpa [StateChange.isAbout] using h
    simp only [sink, AccountView.receive]
    cases ref.current with
    | some info =>
      refine AccountView.ext (info_insertAccountInfo c _ info) (funext fun k => ?_)
      change (c.insertAccountInfo ref.address info).storedSlot db ref.address k = _
      rfl
    | none =>
      refine AccountView.ext ?_ (funext fun k => storedSlot_adjust c ref.address _ k)
      have hl : (c.accounts.set ref.address none).lookup ref.address = some none := by simp
      simp only [view]
      rw [info_some hl]
      rfl

theorem view_sink_ne (c : Cache) {change : StateChange} (h : change.isAbout a = false) :
    (c.sink change).view db a = c.view db a := by
  cases change with
  | bytecode codeHash code => exact view_congr rfl rfl
  | accountRead address info => rfl
  | storageRead address key value => rfl
  | storageWipe address =>
    have ha : a ≠ address := fun he => by simp [StateChange.isAbout, he] at h
    exact view_congr rfl (by simp [sink, ha])
  | storage ref =>
    have ha : a ≠ ref.address := fun he => by simp [StateChange.isAbout, he] at h
    exact view_congr rfl (by simp [sink, ha])
  | account ref =>
    have ha : a ≠ ref.address := fun he => by simp [StateChange.isAbout, he] at h
    cases hc : ref.current with
    | some info =>
      exact view_congr (by simp [sink, hc, insertAccountInfo, ha])
        (by simp [sink, hc, insertAccountInfo])
    | none => exact view_congr (by simp [sink, hc, ha]) (by simp [sink, hc, ha])

theorem view_foldl (db : Database) (a : Address) (changes : List StateChange) (c : Cache) :
    (c.commitSource changes).view db a =
      (changes.filter (StateChange.isAbout a)).foldl AccountView.receive (c.view db a) := by
  refine Fold.foldl_proj (fun c : Cache => c.view db a) AccountView.receive
    (fun c change => ?_) changes c
  cases h : change.isAbout a with
  | true => exact view_sink_self c h
  | false => exact view_sink_ne c h

end Cache

end Evm2
