import Evm2.State.Steps

/-!
# What the cache database says

`Cache.info` and `Cache.slot` are the values that reads of the cache database return: they do not
depend on what has been cached.

* **`Cache.SameData`**: reads do not change what the cache database says.
-/

namespace Evm2

namespace Cache

variable [Keccak] (db : Database)

def info (c : Cache) (a : Address) : Except DatabaseError (Option AccountInfo) :=
  ((getAccount db a).run c).1

def slot (c : Cache) (a : Address) (key : Word) : Except DatabaseError Word :=
  ((getAccount db a >>= fun _ => getStorage db a key).run c).1

def Knows (c : Cache) (a : Address) (i : Option AccountInfo) : Prop :=
  (getAccount db a).run c = (.ok i, c)

def dbInfo (a : Address) : Except DatabaseError (Option AccountInfo) :=
  match db.getAccount a with
  | .error e => .error e
  | .ok i => .ok (i.map fun i => normalizeCodeHash { (insertContractInner ∅ i).2 with code := none })

def storageOf (c : Cache) (a : Address) : AccountStorageCache := (c.storage.lookup a).getD .default

def cacheSlot (c : Cache) (a : Address) (key v : Word) : Cache :=
  { c with storage := c.storage.set a { c.storageOf a with slots := (c.storageOf a).slots.set key v } }

def slotOf (i : Option AccountInfo) (st : AccountStorageCache) (a : Address) (key : Word) :
    Except DatabaseError Word :=
  match st.slots.lookup key with
  | some v => .ok v
  | none => if st.wiped || i.isNone then .ok 0 else db.getStorage a key

theorem insertContractInner_snd (m m' : Map B256 Bytecode) (i : AccountInfo) :
    (insertContractInner m i).2 = (insertContractInner m' i).2 := by
  unfold insertContractInner
  dsimp only
  split
  · rfl
  · split_ifs <;> rfl

variable {db} {c c' : Cache} {a : Address}

variable {i : Option AccountInfo}

theorem info_some (h : c.accounts.lookup a = some i) :
    c.info db a = .ok (i.map normalizeCodeHash) := by
  simp only [info, getAccount, h]

theorem info_none (h : c.accounts.lookup a = none) : c.info db a = dbInfo db a := by
  simp only [info, getAccount, h, dbInfo]
  cases hd : db.getAccount a with
  | error e => rfl
  | ok i =>
    cases i with
    | none => rfl
    | some i => simp only [Option.map_some, insertContractInner_snd c.contracts ∅]

theorem knows_iff :
    c.Knows db a i ↔ ∃ j, c.accounts.lookup a = some j ∧ i = j.map normalizeCodeHash := by
  cases h : c.accounts.lookup a with
  | some j => simp [Knows, getAccount, h, eq_comm]
  | none =>
    simp only [reduceCtorEq, false_and, exists_false, iff_false]
    intro hk
    -- the read would have added the account
    have hc : ((getAccount db a).run c).2.accounts.lookup a = none := by rw [hk]; exact h
    unfold Knows at hk
    simp only [getAccount, h] at hk hc
    cases hd : db.getAccount a with
    | error e => simp [hd] at hk
    | ok j => cases j <;> simp [hd] at hc

theorem Knows.info (h : c.Knows db a i) : c.info db a = .ok i := by
  rw [Cache.info, h]

theorem frame_getAccount (c : Cache) (b : Address) :
    ((getAccount db b).run c).2.storage = c.storage ∧
      ∀ a, a ≠ b → ((getAccount db b).run c).2.accounts.lookup a = c.accounts.lookup a := by
  unfold getAccount
  dsimp only
  split
  · exact ⟨rfl, fun _ _ => rfl⟩
  · split
    · exact ⟨rfl, fun _ _ => rfl⟩
    · exact ⟨rfl, fun a ha => by simp [ha]⟩
    · exact ⟨rfl, fun a ha => by simp [ha]⟩

theorem getAccount_error {e : DatabaseError} (h : (getAccount db a).run c = (.error e, c')) :
    c' = c := by
  unfold getAccount at h
  dsimp only at h
  split at h
  · cases h
  · split at h
    · cases h; rfl
    · cases h
    · cases h

theorem info_congr (h : c'.accounts.lookup a = c.accounts.lookup a) :
    c'.info db a = c.info db a := by
  cases hl : c.accounts.lookup a with
  | some i => rw [info_some hl, info_some (h.trans hl)]
  | none => rw [info_none hl, info_none (h.trans hl)]

theorem info_getAccount (c : Cache) (a b : Address) :
    (((getAccount db b).run c).2).info db a = c.info db a := by
  by_cases hab : a = b
  · subst hab
    cases h : (getAccount db a).run c with
    | mk r c' =>
      cases r with
      | error e => rw [getAccount_error h]
      | ok i => rw [info, info, getAccount_settled db h, h]
  · exact info_congr ((frame_getAccount c b).2 a hab)

theorem knownAbsent_of_getAccount
    (h : (getAccount db a).run c = (.ok i, c')) : c'.knownAbsent a = i.isNone := by
  obtain ⟨j, hj, rfl⟩ := knows_iff.mp (getAccount_settled db h)
  simp only [knownAbsent, hj]
  cases j <;> rfl

omit [Keccak] in
theorem getStorage_cached {key v : Word} (h : (c.storageOf a).slots.lookup key = some v) :
    (getStorage db a key).run c = (.ok v, c) := by
  rw [storageOf] at h
  simp only [getStorage, h]

omit [Keccak] in
theorem getStorage_zero {key : Word} (h : (c.storageOf a).slots.lookup key = none)
    (hz : ((c.storageOf a).wiped || c.knownAbsent a) = true) :
    (getStorage db a key).run c = (.ok 0, c) := by
  rw [storageOf] at h hz
  simp only [getStorage, h]
  split_ifs with hw ha
  · rfl
  · rfl
  · rw [Bool.not_eq_true] at hw ha
    rw [hw, ha] at hz
    cases hz

omit [Keccak] in
theorem getStorage_db {key : Word} (h : (c.storageOf a).slots.lookup key = none)
    (hz : ((c.storageOf a).wiped || c.knownAbsent a) = false) :
    (getStorage db a key).run c = match db.getStorage a key with
      | .error e => (.error e, c)
      | .ok v => (.ok v, c.cacheSlot a key v) := by
  rw [Bool.or_eq_false_iff] at hz
  unfold storageOf at h hz
  simp only [getStorage, h, hz, cacheSlot, storageOf]
  rfl

omit [Keccak] in
theorem run_getStorage_fst (c : Cache) (a : Address) (key : Word)
    (h : c.knownAbsent a = i.isNone) :
    ((getStorage db a key).run c).1 = slotOf db i (c.storageOf a) a key := by
  unfold slotOf
  cases hl : (c.storageOf a).slots.lookup key with
  | some v => rw [getStorage_cached hl]
  | none =>
    dsimp only
    rw [← h]
    split_ifs with hz
    · rw [getStorage_zero hl hz]
    · rw [getStorage_db hl (by simpa using hz)]
      cases db.getStorage a key <;> rfl

theorem slot_eq (c : Cache) (a : Address) (key : Word) :
    c.slot db a key = (c.info db a).bind fun i => slotOf db i (c.storageOf a) a key := by
  cases h : (getAccount db a).run c with
  | mk r c' =>
    cases r with
    | error e => simp only [slot, info, Op.run_bind_error h, h]; rfl
    | ok i =>
      have hst : c'.storage = c.storage := by
        simpa only [h] using (frame_getAccount c a : ((getAccount db a).run c).2.storage = _ ∧ _).1
      simp only [slot, info, Op.run_bind_ok h, h]
      rw [run_getStorage_fst c' a key (knownAbsent_of_getAccount h), storageOf, hst]
      rfl

theorem Knows.slot (h : c.Knows db a i) (key : Word) :
    c.slot db a key = ((getStorage db a key).run c).1 := by
  rw [Cache.slot, Op.run_bind_ok h]

/-! ## Reads -/

variable (db) in
/-- The cache databases say the same, and what is cached stays cached. -/
structure SameData (c c' : Cache) : Prop where
  info : ∀ a, c'.info db a = c.info db a
  slot : ∀ a key, c'.slot db a key = c.slot db a key
  knows : ∀ a i, c.Knows db a i → c'.Knows db a i

theorem SameData.refl (c : Cache) : SameData db c c := ⟨fun _ => rfl, fun _ _ => rfl, fun _ _ h => h⟩

theorem SameData.trans {c₁ c₂ c₃ : Cache} (h : SameData db c₁ c₂) (h' : SameData db c₂ c₃) :
    SameData db c₁ c₃ :=
  ⟨fun a => (h'.info a).trans (h.info a), fun a key => (h'.slot a key).trans (h.slot a key),
    fun a i hk => h'.knows a i (h.knows a i hk)⟩

theorem sameData_getAccount (c : Cache) (b : Address) :
    SameData db c ((getAccount db b).run c).2 where
  info a := info_getAccount c a b
  slot a key := by rw [slot_eq, slot_eq, info_getAccount, storageOf, (frame_getAccount c b).1]; rfl
  knows a i hk := by
    by_cases hab : a = b
    · subst hab
      rw [hk]
      exact hk
    · obtain ⟨j, hj, rfl⟩ := knows_iff.mp hk
      exact knows_iff.mpr ⟨j, ((frame_getAccount c b).2 a hab).trans hj, rfl⟩

theorem sameData_of_eq (ha : c'.accounts = c.accounts) (hs : c'.storage = c.storage) :
    SameData db c c' where
  info a := info_congr (congrArg _ ha)
  slot a key := by
    rw [slot_eq, slot_eq, info_congr (congrArg _ ha), storageOf, hs]
    rfl
  knows a i hk := by
    obtain ⟨j, hj, rfl⟩ := knows_iff.mp hk
    exact knows_iff.mpr ⟨j, by rw [ha, hj], rfl⟩

theorem sameData_getCodeByHash (c : Cache) (h : B256) :
    SameData db c ((getCodeByHash db h).run c).2 := by
  refine sameData_of_eq ?_ ?_
  all_goals
    unfold getCodeByHash
    dsimp only
    split
    · rfl
    · split <;> rfl

theorem sameData_getBlockHash (c : Cache) (n : Word) :
    SameData db c ((getBlockHash db n).run c).2 := by
  refine sameData_of_eq ?_ ?_
  all_goals
    unfold getBlockHash
    dsimp only
    split
    · rfl
    · split <;> rfl

theorem sameData_getStorage (hk : c.Knows db a i) (key : Word) :
    SameData db c ((getStorage db a key).run c).2 := by
  have habs := knownAbsent_of_getAccount hk
  cases hl : (c.storageOf a).slots.lookup key with
  | some v => rw [getStorage_cached hl]; exact .refl c
  | none =>
    by_cases hz : ((c.storageOf a).wiped || c.knownAbsent a) = true
    · rw [getStorage_zero hl hz]
      exact .refl c
    · rw [Bool.not_eq_true] at hz
      rw [getStorage_db hl hz]
      cases hd : db.getStorage a key with
      | error e => exact .refl c
      | ok v =>
        have hinfo : ∀ b, (c.cacheSlot a key v).info db b = c.info db b := fun b => info_congr rfl
        refine ⟨hinfo, fun b key' => ?_, fun b i hb => ?_⟩
        · rw [slot_eq, slot_eq, hinfo]
          by_cases hb : b = a
          · subst hb
            rw [hk.info]
            simp only [Except.bind, slotOf, cacheSlot, storageOf, Map.lookup_set, if_true,
              Option.getD_some]
            by_cases hkey : key' = key
            · subst hkey
              rw [storageOf] at hl hz
              rw [habs] at hz
              simp [hl, hz, hd]
            · simp [hkey]
          · simp only [cacheSlot, storageOf, Map.lookup_set, if_neg hb]
        · obtain ⟨j', hj', rfl⟩ := knows_iff.mp hb
          exact knows_iff.mpr ⟨j', hj', rfl⟩

end Cache

end Evm2
