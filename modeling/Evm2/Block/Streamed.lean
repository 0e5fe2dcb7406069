import Evm2.Block.BlockState

/-!
# Streamed and direct commits of a block

A transaction may be committed to a `BlockState` account by account, or be collected from its
stream of changes first.
-/

namespace Evm2

/-! ## Equal transitions -/

/-- Two commits that differ at most in the order of their slots. -/
structure AccountCommit.Same (c d : AccountCommit) : Prop where
  original : c.original = d.original
  current : c.current = d.current
  created : c.created = d.created
  wiped : c.wiped = d.wiped
  storage : ∀ k, c.storage.lookup k = d.storage.lookup k

structure TransitionAccount.Same (t u : TransitionAccount) : Prop where
  info : t.info = u.info
  status : t.status = u.status
  previousInfo : t.previousInfo = u.previousInfo
  previousStatus : t.previousStatus = u.previousStatus
  storage : ∀ k, t.storage.lookup k = u.storage.lookup k
  storageWasDestroyed : t.storageWasDestroyed = u.storageWasDestroyed

namespace AccountCommit.Same

variable {c d : AccountCommit}

theorem status_eq (h : c.Same d) (s : AccountStatus) : c.status s = d.status s := by
  simp only [status, h.original, h.current, h.created, h.wiped]

theorem start (h : c.Same d) : c.start.Same d.start where
  info := h.current
  status := by rw [AccountCommit.start, AccountCommit.start, h.original, h.status_eq]
  previousInfo := h.original
  previousStatus := congrArg loadedStatus h.original
  storage := h.storage
  storageWasDestroyed := h.wiped

theorem resume (h : c.Same d) {t u : TransitionAccount} (ht : t.Same u) :
    (c.resume t).Same (d.resume u) := by
  have hstatus : c.status t.status = d.status u.status := by rw [ht.status, h.status_eq]
  unfold AccountCommit.resume
  simp only [hstatus, h.wiped]
  split_ifs
  · exact ⟨h.current, rfl, ht.previousInfo, ht.previousStatus, h.storage, rfl⟩
  · refine ⟨h.current, rfl, ht.previousInfo, ht.previousStatus, fun k => ?_,
      ht.storageWasDestroyed⟩
    simp only [Map.lookup_mergeWith, h.storage, ht.storage, ht.storageWasDestroyed]

theorem transition (h : c.Same d) {t u : Option TransitionAccount}
    (ht : Option.Rel TransitionAccount.Same t u) : (c.transition t).Same (d.transition u) := by
  cases ht with
  | none => exact h.start
  | some ht => exact h.resume ht

end AccountCommit.Same

/-! ## What is collected of an account -/

namespace AccountChanges

variable (c : AccountChanges)

def putSlot (storage : BundleStorage) (key : Word) (slot : StorageSlot) : BundleStorage :=
  if slot.isChanged c.storage.wiped then storage.insert key slot.value else storage

theorem receive_slots (l : List (Σ _ : Word, StorageSlot)) (x : Option TransactionAccount) :
    (l.map fun e => c.visitSlot e.1 e.2).foldl TransactionAccount.receive x =
      if x.isSome || l.any (fun e => e.2.isChanged c.storage.wiped) then
        some { x.getD .default with
          storage := l.foldl (fun m e => c.putSlot m e.1 e.2) (x.getD .default).storage }
      else none := by
  induction l generalizing x with
  | nil => cases x <;> rfl
  | cons e l ih =>
    rw [List.map_cons, List.foldl_cons, ih, List.any_cons, List.foldl_cons]
    unfold visitSlot putSlot
    by_cases h : e.2.isChanged c.storage.wiped = true
    · simp [h, TransactionAccount.receive]
    · simp only [h, Bool.false_eq_true, if_false, TransactionAccount.receive, Bool.false_or]

def collectedStorage : BundleStorage :=
  c.storage.slots.entries.foldl (fun m e => c.putSlot m e.1 e.2) ∅

theorem lookup_collectedStorage (k : Word) :
    c.collectedStorage.lookup k = c.storage.changedSlotMap.lookup k := by
  have h : ∀ (m : BundleStorage) k' slot, (c.putSlot m k' slot).lookup k =
      if k' = k then (StorageOverlay.changedValue c.storage.wiped slot).or (m.lookup k)
      else m.lookup k := by
    intro m k' slot
    unfold putSlot StorageOverlay.changedValue
    by_cases hk : k' = k
    · subst hk
      rw [if_pos rfl]
      split_ifs <;> simp
    · have hk' : ¬k = k' := fun h => hk h.symm
      rw [if_neg hk]
      split_ifs <;> simp [hk']
  rw [collectedStorage, Map.foldl_entries_proj (fun m : BundleStorage => m.lookup k) c.putSlot
    (fun x slot => (StorageOverlay.changedValue c.storage.wiped slot).or x) h,
    StorageOverlay.changedSlotMap, Map.lookup_filterMapValues]
  cases c.storage.slots.lookup k <;> simp

theorem any_isChanged :
    (c.storage.slots.entries.any fun e => e.2.isChanged c.storage.wiped) =
      !c.storage.changedSlots.isEmpty := by
  rw [Bool.eq_iff_iff]
  simp [StorageOverlay.changedSlots, List.filterMap_eq_nil_iff]

def collected : TransactionAccount where
  original := c.original.map AccountInfo.cloneNoCode
  info := (c.current.map AccountInfo.cloneNoCode).getD .empty
  created := c.created
  selfdestructed := c.current.isNone
  wiped := c.storage.wiped
  storage := c.collectedStorage

theorem receive_visitAccount :
    c.visitAccount.foldl TransactionAccount.receive none =
      if c.isChanged then some c.collected else none := by
  -- the account after the calls about the storage
  have hstorage : ((if c.storage.wiped then [StateChange.storageWipe c.address] else []) ++
      c.storage.slots.entries.map fun e => c.visitSlot e.1 e.2).foldl
        TransactionAccount.receive none =
      if c.storage.isChanged then
        some { TransactionAccount.default with
          wiped := c.storage.wiped, storage := c.collectedStorage }
      else none := by
    rw [List.foldl_append, receive_slots, any_isChanged]
    cases hw : c.storage.wiped with
    | true => simp [StorageOverlay.isChanged, hw, TransactionAccount.receive, collectedStorage]
    | false => simp [StorageOverlay.isChanged, hw, TransactionAccount.default, collectedStorage]
  rw [visitAccount, List.foldl_append, hstorage, List.foldl_cons, List.foldl_nil]
  unfold isChanged
  cases hi : c.isInfoChanged with
  | true =>
    cases hs : c.storage.isChanged with
    | true => simp [TransactionAccount.receive, TransactionAccount.update, collected,
        TransactionAccount.default]
    | false =>
      -- nothing was collected before, so there is neither a wipe nor a slot
      have hw : c.storage.wiped = false := by
        by_contra hw
        simp [StorageOverlay.isChanged, hw] at hs
      have hempty : c.collectedStorage = ∅ := by
        have hnone : ∀ e ∈ c.storage.slots.entries, e.2.isChanged c.storage.wiped = false := by
          have hany := c.any_isChanged
          rw [StorageOverlay.isChanged, hw, Bool.false_or] at hs
          rw [hs] at hany
          simpa using hany
        unfold collectedStorage
        generalize c.storage.slots.entries = l at hnone
        induction l with
        | nil => rfl
        | cons e l ih =>
          rw [List.foldl_cons, putSlot, hnone e List.mem_cons_self]
          exact ih fun e' he' => hnone e' (List.mem_cons_of_mem _ he')
      simp [TransactionAccount.receive, TransactionAccount.update, collected,
        TransactionAccount.default, hw, hempty]
  | false =>
    -- the account is reported as read, which does not change its info
    have hinfo : optInfoEq c.original c.current = true ∧ c.created = false := by
      simp only [isInfoChanged, Bool.or_eq_false_iff, Bool.not_eq_false'] at hi
      exact ⟨hi.1.1, hi.1.2⟩
    have hsame := optInfoEq_iff.mp hinfo.1
    cases hs : c.storage.isChanged with
    | true => simp [TransactionAccount.receive, TransactionAccount.update, collected,
        TransactionAccount.default, hsame, hinfo.2]
    | false => simp [TransactionAccount.receive]

theorem same_commit_collected : c.commit.Same c.collected.commit where
  original := rfl
  current := by
    unfold commit TransactionAccount.commit collected
    cases c.current <;> simp
  created := rfl
  wiped := rfl
  storage k := by
    simp only [commit, TransactionAccount.commit, collected, Map.lookup_filterMapValues,
      lookup_collectedStorage, StorageOverlay.changedSlotMap]
    cases c.storage.slots.lookup k with
    | none => rfl
    | some slot =>
      simp only [Option.bind_some, StorageOverlay.changedValue, StorageSlot.isChanged]
      by_cases hw : c.storage.wiped = true
      · by_cases h : slot.value.current = 0#256 <;> simp [hw, h]
      · by_cases h : slot.value.isChanged = true <;> simp [hw, h]

end AccountChanges

/-! ## One transaction -/

namespace BlockState

theorem lookup_commitAccount (s : BlockState) (address : Address) (c : AccountCommit)
    (a : Address) :
    (s.commitAccount address c).transitions.lookup a =
      if address = a then some (c.transition (s.transitions.lookup a))
      else s.transitions.lookup a := by
  rw [commitAccount, Map.lookup_alter]
  by_cases h : address = a
  · subst h
    simp
  · rw [if_neg h, if_neg fun h' => h h'.symm]

theorem lookup_commitAccountChanges (s : BlockState) (c : AccountChanges) (a : Address) :
    (s.commitAccountChanges c).transitions.lookup a =
      if c.address = a then
        if c.isChanged then some (c.commit.transition (s.transitions.lookup a))
        else s.transitions.lookup a
      else s.transitions.lookup a := by
  unfold commitAccountChanges
  split_ifs with hc ha ha
  · cases c.code <;> simp [lookup_commitAccount, ha]
  · cases c.code <;> simp [lookup_commitAccount, ha]
  · rfl
  · rfl

def ownChanges (t : Option TransitionAccount) (c : AccountChanges) : Option TransitionAccount :=
  if c.isChanged then some (c.commit.transition t) else t

def commitDirect (s : BlockState) (tx : List AccountChanges) : BlockState :=
  tx.foldl commitAccountChanges s

def commitStream (s : BlockState) (tx : List AccountChanges) : BlockState :=
  s.commit ((tx.flatMap AccountChanges.visit).foldl TransactionChanges.sink .default)

variable {tx : List AccountChanges}

theorem lookup_commitDirect (s : BlockState)
    (htx : (tx.map AccountChanges.address).Nodup) (a : Address) :
    (s.commitDirect tx).transitions.lookup a =
      (tx.find? fun c => c.address = a).elim (s.transitions.lookup a)
        (ownChanges (s.transitions.lookup a)) := by
  have hstep : ∀ (s : BlockState) c, (s.commitAccountChanges c).transitions.lookup a =
      if (decide (c.address = a)) = true then ownChanges (s.transitions.lookup a) c
      else s.transitions.lookup a := by
    intro s c
    rw [lookup_commitAccountChanges, ownChanges]
    simp only [decide_eq_true_eq]
  rw [commitDirect, Fold.foldl_proj (fun s : BlockState => s.transitions.lookup a) ownChanges
    hstep, Fold.filter_key htx]
  cases (tx.find? fun c => c.address = a) <;> rfl

theorem lookup_sink (t : TransactionChanges) (e : StateChange) (a : Address) :
    (t.sink e).accounts.lookup a =
      if e.isAbout a then TransactionAccount.receive (t.accounts.lookup a) e
      else t.accounts.lookup a := by
  have hrec : ∀ b, (t.receiveAccount b e).accounts.lookup a =
      if (b == a) = true then TransactionAccount.receive (t.accounts.lookup a) e
      else t.accounts.lookup a := by
    intro b
    rw [TransactionChanges.receiveAccount, Map.lookup_alter]
    by_cases h : b = a
    · subst h
      simp
    · rw [if_neg fun h' => h h'.symm]
      simp [h]
  cases e with
  | bytecode => rfl
  | account change => exact hrec change.address
  | storageWipe address => exact hrec address
  | storage change => exact hrec change.address
  | accountRead address info | storageRead address key value => exact hrec address

theorem lookup_commitStream (s : BlockState)
    (htx : (tx.map AccountChanges.address).Nodup) (a : Address) :
    (s.commitStream tx).transitions.lookup a =
      (tx.find? fun c => c.address = a).elim (s.transitions.lookup a) fun c =>
        if c.isChanged then some (c.collected.commit.transition (s.transitions.lookup a))
        else s.transitions.lookup a := by
  have hcollect : ((tx.flatMap AccountChanges.visit).foldl TransactionChanges.sink
      .default).accounts.lookup a =
      (tx.find? fun c => c.address = a).bind fun c =>
        if c.isChanged then some c.collected else none := by
    rw [Fold.foldl_proj (fun t : TransactionChanges => t.accounts.lookup a)
      TransactionAccount.receive fun t e => lookup_sink t e a,
      Fold.filter_flatMap_key (fun c a => c.filter_visit a) htx]
    cases (tx.find? fun c => c.address = a) with
    | none => rfl
    | some c => exact c.receive_visitAccount
  have hstep : ∀ (s : BlockState) b (x : TransactionAccount),
      (s.commitAccount b x.commit).transitions.lookup a =
        if b = a then some (x.commit.transition (s.transitions.lookup a))
        else s.transitions.lookup a := fun s b x => lookup_commitAccount s b x.commit a
  rw [commitStream, commit, Map.foldl_entries_proj (fun s : BlockState => s.transitions.lookup a)
    (fun s b (x : TransactionAccount) => s.commitAccount b x.commit)
    (fun t x => some (x.commit.transition t)) hstep, hcollect]
  cases (tx.find? fun c => c.address = a) with
  | none => rfl
  | some c => by_cases h : c.isChanged = true <;> simp [h]

/-! ## Contracts -/

def Collects (m : Map B256 Bytecode) (l : List (B256 × Bytecode)) : Prop :=
  ∀ hash code, m.lookup hash = some code ↔ (hash, code) ∈ l

def Consistent (l : List (B256 × Bytecode)) : Prop :=
  ∀ hash code code', (hash, code) ∈ l → (hash, code') ∈ l → code = code'

variable {m : Map B256 Bytecode} {l : List (B256 × Bytecode)}

theorem Collects.set (h : Collects m l) {hash : B256} {code : Bytecode}
    (hl : Consistent (l ++ [(hash, code)])) {m' : Map B256 Bytecode}
    (hm : ∀ hash', m'.lookup hash' = if hash' = hash then some ((m.lookup hash).getD code)
      else m.lookup hash') : Collects m' (l ++ [(hash, code)]) := by
  have hold : (m.lookup hash).getD code = code := by
    cases hh : m.lookup hash with
    | none => rfl
    | some old =>
      have hmem := (h hash old).mp hh
      exact hl hash old code (List.mem_append_left _ hmem) (by simp)
  rw [hold] at hm
  intro hash' code'
  rw [hm, List.mem_append, List.mem_singleton]
  by_cases he : hash' = hash
  · subst he
    rw [if_pos rfl]
    refine ⟨fun hc => .inr (by rw [Option.some.inj hc]), fun hc => congrArg some ?_⟩
    rcases hc with hc | hc
    · exact hl hash' code code' (by simp) (List.mem_append_left _ hc)
    · exact (Prod.mk.inj hc).2.symm
  · rw [if_neg he, h]
    simp [he]

theorem Collects.union (h : Collects m l) {o : Map B256 Bytecode} {l' : List (B256 × Bytecode)}
    (ho : Collects o l') (hl : Consistent (l ++ l')) :
    Collects (o.entries.foldl (fun m e => m.insert e.1 e.2) m) (l ++ l') := by
  intro hash code
  rw [Map.lookup_foldl_insert, List.mem_append, ← h, ← ho]
  cases hh : o.lookup hash with
  | none => simp
  | some new =>
    simp only [Option.some_or]
    refine ⟨fun hc => .inr hc, fun hc => ?_⟩
    rcases hc with hc | hc
    · have hnew := List.mem_append_right l ((ho hash new).mp hh)
      have hold := List.mem_append_left l' ((h hash code).mp hc)
      rw [hl hash new code hnew hold]
    · exact hc

theorem Consistent.mono {l l' : List (B256 × Bytecode)} (h : Consistent l')
    (hsub : ∀ x ∈ l, x ∈ l') : Consistent l :=
  fun hash code code' hc hc' => h hash code code' (hsub _ hc) (hsub _ hc')

def codes (tx : List AccountChanges) : List (B256 × Bytecode) := tx.filterMap AccountChanges.code

theorem collects_commitDirect {s : BlockState} (h : Collects s.contracts l)
    (hl : Consistent (l ++ codes tx)) :
    Collects (s.commitDirect tx).contracts (l ++ codes tx) := by
  induction tx generalizing s l with
  | nil => simpa [commitDirect, codes] using h
  | cons c tx ih =>
    cases hcode : c.code with
    | none =>
      have hcodes : codes (c :: tx) = codes tx := by simp [codes, hcode]
      rw [hcodes] at hl ⊢
      refine ih ?_ hl
      unfold commitAccountChanges
      split_ifs
      · simpa [hcode, commitAccount] using h
      · exact h
    | some code =>
      have hcodes : l ++ codes (c :: tx) = (l ++ [code]) ++ codes tx := by simp [codes, hcode]
      rw [hcodes] at hl ⊢
      refine ih ?_ hl
      have hchanged : c.isChanged = true := by
        simp [AccountChanges.isChanged, c.isInfoChanged_of_code (by simp [hcode])]
      rw [commitAccountChanges, if_pos hchanged, hcode]
      exact h.set (hl.mono fun x hx => List.mem_append_left _ hx) fun hash' => by
        simp [commitAccount]

theorem collects_sink {t : TransactionChanges} (h : Collects t.contracts l)
    (hl : Consistent (l ++ codes tx)) :
    Collects ((tx.flatMap AccountChanges.visit).foldl TransactionChanges.sink t).contracts
      (l ++ codes tx) := by
  induction tx generalizing t l with
  | nil => simpa [codes] using h
  | cons c tx ih =>
    rw [List.flatMap_cons, List.foldl_append, AccountChanges.visit, List.foldl_append]
    -- the calls about the account leave the contracts alone
    have hkeep : ∀ (es : List StateChange) (t : TransactionChanges),
        (∀ e ∈ es, ∃ a, e.isAbout a = true) → (es.foldl TransactionChanges.sink t).contracts =
          t.contracts := by
      intro es
      induction es with
      | nil => intro t _; rfl
      | cons e es ihe =>
        intro t he
        obtain ⟨a, ha⟩ := he e List.mem_cons_self
        rw [List.foldl_cons, ihe _ fun e' he' => he e' (List.mem_cons_of_mem _ he')]
        cases e <;> first | rfl | cases ha
    have habout : ∀ e ∈ c.visitAccount, ∃ a, e.isAbout a = true := by
      intro e he
      have hself := c.filter_visit c.address
      rw [if_pos rfl] at hself
      have hmem : e ∈ c.visit.filter (StateChange.isAbout c.address) := hself ▸ he
      exact ⟨c.address, (List.mem_filter.mp hmem).2⟩
    cases hcode : c.code with
    | none =>
      have hcodes : codes (c :: tx) = codes tx := by simp [codes, hcode]
      rw [hcodes] at hl ⊢
      refine ih ?_ hl
      rw [hkeep _ _ habout]
      simpa [AccountChanges.visitCode, hcode] using h
    | some code =>
      have hcodes : l ++ codes (c :: tx) = (l ++ [code]) ++ codes tx := by simp [codes, hcode]
      rw [hcodes] at hl ⊢
      refine ih ?_ hl
      rw [hkeep _ _ habout]
      refine h.set (hl.mono fun x hx => List.mem_append_left _ hx) fun hash' => ?_
      simp [AccountChanges.visitCode, hcode, TransactionChanges.sink]

theorem contracts_commit (s : BlockState) (t : TransactionChanges) :
    (s.commit t).contracts =
      t.contracts.entries.foldl (fun m e => m.insert e.1 e.2) s.contracts := by
  rw [commit]
  generalize hs : ({ s with contracts := _ } : BlockState) = s'
  have hkeep : ∀ (es : List (Σ _ : Address, TransactionAccount)) (s : BlockState),
      (es.foldl (fun s e => s.commitAccount e.1 e.2.commit) s).contracts = s.contracts := by
    intro es
    induction es with
    | nil => exact fun _ => rfl
    | cons e es ih => exact fun s => ih _
  rw [hkeep, ← hs]

theorem collects_commitStream {s : BlockState} (h : Collects s.contracts l)
    (hl : Consistent (l ++ codes tx)) :
    Collects (s.commitStream tx).contracts (l ++ codes tx) := by
  rw [commitStream, contracts_commit]
  refine h.union ?_ hl
  have hempty : Collects TransactionChanges.default.contracts [] := by
    intro hash code
    simp [TransactionChanges.default]
  exact collects_sink (l := []) hempty (hl.mono fun x hx => List.mem_append_right _ hx)

/-! ## A whole block -/

theorem rel_commits {txs : List (List AccountChanges)}
    (hdistinct : ∀ tx ∈ txs, (tx.map AccountChanges.address).Nodup) (a : Address)
    {s t : BlockState} (h : Option.Rel TransitionAccount.Same (s.transitions.lookup a)
      (t.transitions.lookup a)) :
    Option.Rel TransitionAccount.Same ((txs.foldl commitDirect s).transitions.lookup a)
      ((txs.foldl commitStream t).transitions.lookup a) := by
  induction txs generalizing s t with
  | nil => exact h
  | cons tx txs ih =>
    have htx := hdistinct tx List.mem_cons_self
    refine ih (fun tx' htx' => hdistinct tx' (List.mem_cons_of_mem _ htx')) ?_
    rw [lookup_commitDirect s htx, lookup_commitStream t htx]
    cases (tx.find? fun c => c.address = a) with
    | none => exact h
    | some c =>
      simp only [Option.elim_some, ownChanges]
      split_ifs
      · exact Option.Rel.some (c.same_commit_collected.transition h)
      · exact h

theorem collects_foldl {commit : BlockState → List AccountChanges → BlockState}
    (hcommit : ∀ s l tx, Collects s.contracts l → Consistent (l ++ codes tx) →
      Collects (commit s tx).contracts (l ++ codes tx))
    {txs : List (List AccountChanges)} {s : BlockState} (h : Collects s.contracts l)
    (hl : Consistent (l ++ codes txs.flatten)) :
    Collects (txs.foldl commit s).contracts (l ++ codes txs.flatten) := by
  induction txs generalizing s l with
  | nil => simpa [codes] using h
  | cons tx txs ih =>
    have hsplit : l ++ codes (tx :: txs).flatten = (l ++ codes tx) ++ codes txs.flatten := by
      simp [codes]
    rw [hsplit] at hl ⊢
    exact ih (hcommit s l tx h (hl.mono fun x hx => List.mem_append_left _ hx)) hl

end BlockState

open BlockState in
/-- **The streamed and the direct commit of a block agree.** -/
theorem streamed_commit_agrees (txs : List (List AccountChanges))
    (hdistinct : ∀ tx ∈ txs, (tx.map AccountChanges.address).Nodup) :
    (∀ a, Option.Rel TransitionAccount.Same
      ((txs.foldl (fun s tx => tx.foldl commitAccountChanges s) new).transitions.lookup a)
      ((txs.foldl (fun s tx => s.commit
        ((tx.flatMap AccountChanges.visit).foldl TransactionChanges.sink .default))
        new).transitions.lookup a)) ∧
    ((∀ hash code code', (hash, code) ∈ txs.flatten.filterMap AccountChanges.code →
        (hash, code') ∈ txs.flatten.filterMap AccountChanges.code → code = code') →
      ∀ hash, (txs.foldl (fun s tx => tx.foldl commitAccountChanges s) new).contracts.lookup hash =
        (txs.foldl (fun s tx => s.commit
          ((tx.flatMap AccountChanges.visit).foldl TransactionChanges.sink .default))
          new).contracts.lookup hash) := by
  have hstart : Collects new.contracts [] := by
    intro hash code
    simp [new]
  refine ⟨fun a => rel_commits hdistinct a Option.Rel.none, fun hcodes hash => Option.ext ?_⟩
  intro code
  -- both maps hold exactly the codes of the block
  have hdirect := collects_foldl (fun _ _ _ h hl => collects_commitDirect h hl) hstart hcodes
  have hstream := collects_foldl (fun _ _ _ h hl => collects_commitStream h hl) hstart hcodes
  exact (hdirect hash code).trans (hstream hash code).symm

def storageOnlyChange : AccountChanges where
  address := 1
  original := some .empty
  current := some .empty
  created := false
  selfdestructed := false
  code := none
  storage := ⟨false, AList.singleton 3 ⟨⟨7, 8⟩, false⟩⟩
  code_changed h := nomatch h

open BlockState in
/-- The collected account of a storage-only change takes its info from the read. -/
theorem streamed_commit_agrees_storageOnly :
    ([storageOnlyChange].map AccountChanges.address).Nodup ∧
      Option.Rel TransitionAccount.Same
        ((commitAccountChanges new storageOnlyChange).transitions.lookup 1)
        ((new.commit (storageOnlyChange.visit.foldl TransactionChanges.sink
          .default)).transitions.lookup 1) ∧
      ((commitAccountChanges new storageOnlyChange).transitions.lookup 1).map
        TransitionAccount.status = some .inMemoryChange := by
  have hdistinct : ([storageOnlyChange].map AccountChanges.address).Nodup := by decide
  refine ⟨hdistinct, ?_, by decide⟩
  have h := (streamed_commit_agrees [[storageOnlyChange]] fun tx htx => by
    rw [List.mem_singleton.mp htx]; exact hdistinct).1 1
  simpa using h

end Evm2
