import Evm2.Bal.Context
import Evm2.State.Commit

/-!
# Reads served from a block access list

A block access list is built while the transactions of a block are committed. Attached to the
database of before the block at an index, it serves the reads of the transaction with that index.
-/

namespace Evm2

/-! ## Histories of an item -/

namespace BalChanges

variable {V K : Type} {f : V → K} {v₀ : V} {hist : ℕ → K} {n : ℕ} {c : BalChanges V}

/-- The list tells the history of an item: `hist k` is its value after the transaction `k`. -/
def Tells (f : V → K) (v₀ : V) (hist : ℕ → K) (n : ℕ) (c : BalChanges V) : Prop :=
  ∃ calls, Records f v₀ calls c ∧ (∀ u ∈ calls, u.index ≤ n) ∧
    ∀ k ≤ n, f (valueAfter v₀ (calls.filter fun u => u.index < k + 1)) = hist k

theorem tells_default (h : f v₀ = hist 0) : Tells f v₀ hist 0 default := by
  refine ⟨[], records_default, by simp, fun k hk => ?_⟩
  obtain rfl : k = 0 := Nat.le_zero.mp hk
  exact h

theorem filter_index_lt {calls : List (Update V)} (h : ∀ u ∈ calls, u.index ≤ n) {m : ℕ}
    (hm : n ≤ m) : (calls.filter fun u => u.index < m + 1) = calls := by
  refine List.filter_eq_self.mpr fun u hu => ?_
  have := h u hu
  simp only [decide_eq_true_eq]
  omega

namespace Tells

theorem keep (h : Tells f v₀ hist n c) (hn : hist (n + 1) = hist n) :
    Tells f v₀ hist (n + 1) c := by
  obtain ⟨calls, hrec, hidx, hval⟩ := h
  refine ⟨calls, hrec, fun u hu => (hidx u hu).trans n.le_succ, fun k hk => ?_⟩
  rcases Nat.le_succ_iff.mp hk with hk | rfl
  · exact hval k hk
  · rw [hn, ← hval n le_rfl, filter_index_lt hidx le_rfl, filter_index_lt hidx n.le_succ]

theorem update [DecidableEq K] (h : Tells f v₀ hist n c) (originalValue value : V)
    (ho : f originalValue = hist n) (hv : f value = hist (n + 1)) :
    Tells f v₀ hist (n + 1) (c.updateWithKey f (n + 1) originalValue value) := by
  obtain ⟨calls, hrec, hidx, hval⟩ := h
  have hlast := hval n le_rfl
  rw [filter_index_lt hidx le_rfl] at hlast
  refine ⟨calls ++ [⟨n + 1, originalValue, value⟩],
    hrec.step (u := ⟨n + 1, originalValue, value⟩) (fun x hx => (hidx x hx).trans n.le_succ)
      (ho.trans hlast.symm), fun u hu => ?_, fun k hk => ?_⟩
  · rcases List.mem_append.mp hu with hu | hu
    · exact (hidx u hu).trans n.le_succ
    · rw [List.mem_singleton.mp hu]
  · rcases Nat.le_succ_iff.mp hk with hk | rfl
    · have hnone : ([⟨n + 1, originalValue, value⟩] : List (Update V)).filter
          (fun u => u.index < k + 1) = [] := by
        refine List.filter_eq_nil_iff.mpr fun u hu => ?_
        rw [List.mem_singleton.mp hu]
        simp only [decide_eq_true_eq]
        omega
      rw [List.filter_append, hnone, List.append_nil]
      exact hval k hk
    · have hself : ([⟨n + 1, originalValue, value⟩] : List (Update V)).filter
          (fun u => u.index < n + 1 + 1) = [⟨n + 1, originalValue, value⟩] := by
        simp
      rw [List.filter_append, hself, valueAfter_concat]
      exact hv

theorem get (h : Tells f v₀ hist n c) {k : ℕ} (hk : k ≤ n) :
    f ((c.get (k + 1)).getD v₀) = hist k := by
  obtain ⟨calls, hrec, -, hval⟩ := h
  exact (hrec.get (k + 1)).1.trans (hval k hk)

end Tells

end BalChanges

namespace AccountInfoBal

variable {hist : ℕ → PlainInfo} {n : ℕ} {bal : AccountInfoBal}

/-- The lists of an account tell the history of its info. -/
structure Tells (hist : ℕ → PlainInfo) (n : ℕ) (bal : AccountInfoBal) : Prop where
  nonce : bal.nonce.Tells id (hist 0).nonce (fun k => (hist k).nonce) n
  balance : bal.balance.Tells id (hist 0).balance (fun k => (hist k).balance) n
  code : bal.code.Tells Prod.fst ((hist 0).codeHash, Bytecode.new) (fun k => (hist k).codeHash) n

theorem tells_default : default.Tells hist 0 :=
  ⟨BalChanges.tells_default rfl, BalChanges.tells_default rfl, BalChanges.tells_default rfl⟩

theorem Tells.keep (h : bal.Tells hist n) (hn : hist (n + 1) = hist n) : bal.Tells hist (n + 1) :=
  ⟨h.nonce.keep (by rw [hn]), h.balance.keep (by rw [hn]), h.code.keep (by rw [hn])⟩

theorem Tells.update (h : bal.Tells hist n) {original present : AccountInfo}
    (ho : hist n = original.plain) (hp : hist (n + 1) = present.plain) :
    (bal.update (n + 1) original present).Tells hist (n + 1) := by
  have hnonce := h.nonce.update original.nonce present.nonce (by rw [ho]; rfl) (by rw [hp]; rfl)
  have hbalance := h.balance.update original.balance present.balance (by rw [ho]; rfl)
    (by rw [hp]; rfl)
  unfold AccountInfoBal.update
  by_cases hc : original.codeHash = present.codeHash
  · simp only [hc, ne_eq, not_true_eq_false, if_false]
    exact ⟨hnonce, hbalance, h.code.keep (by rw [ho, hp]; exact hc.symm)⟩
  · simp only [ne_eq, hc, not_false_eq_true, if_true]
    exact ⟨hnonce, hbalance, h.code.update _ _ (by rw [ho]; rfl) (by rw [hp]; rfl)⟩

theorem Tells.populate (h : bal.Tells hist n) {k : ℕ} (hk : k ≤ n)
    {account : AccountInfo} (h₀ : hist 0 = account.plain) :
    (bal.populateAccountInfo (k + 1) account).2.plain = hist k := by
  have hnonce := h.nonce.get hk
  have hbalance := h.balance.get hk
  have hcode := h.code.get hk
  simp only [id_eq] at hnonce hbalance
  rw [plain_populateAccountInfo]
  rw [h₀] at hnonce hbalance hcode
  have hfst : ((bal.code.get (k + 1)).map Prod.fst).getD account.codeHash = (hist k).codeHash := by
    rw [← hcode]
    cases bal.code.get (k + 1) <;> rfl
  rw [hfst]
  simp only [AccountInfo.plain] at hnonce hbalance
  rw [hnonce, hbalance]

end AccountInfoBal

/-! ## What one transaction changes -/

namespace Cache

variable [Keccak] {db : Database} {c : Cache} {a : Address} {x : Account}

/-- The account of a transaction fits the cache that the transaction ran on, and its commit neither
wipes nor discards storage: the original values are those that are read, and the account is not
deleted. -/
structure Fits (db : Database) (c : Cache) (a : Address) (x : Account) : Prop where
  original : ((getAccount db a).run c).1.map (Option.map AccountInfo.plain) =
    .ok (x.original.map AccountInfo.plain)
  slot : ∀ k slot, x.storage.slots.lookup k = some slot →
    ((getStorage db a k).run c).1 = .ok slot.value.original
  codeHash : ∀ info, x.present = some info → info.codeHash ≠ 0
  notWiped : x.storage.wiped = false
  notDiscarded : x.flags.discardsStorage = false
  notDeleted : x.present = none → x.original = none

/-- An account that is cached as absent has no storage in the database, as far as it is not
cached. -/
def AbsentHasNoStorage (db : Database) (c : Cache) : Prop :=
  ∀ a, c.knownAbsent a = true → ∀ k e, (c.cached a).storage k = .error e →
    db.getStorage a k = .ok 0

theorem Fits.present_of_isChanged (h : c.Fits db a x) (hc : x.isChanged = true) :
    ∃ info, x.present = some info := by
  cases hp : x.present with
  | some info => exact ⟨info, rfl⟩
  | none =>
    rw [Account.isChanged, hp, h.notDeleted hp] at hc
    cases hc

theorem Fits.info_commit (h : c.Fits db a x) :
    ((c.view db a).commit x).info = .ok (x.present.map AccountInfo.plain) := by
  by_cases hc : x.isChanged = true
  · obtain ⟨info, hp⟩ := h.present_of_isChanged hc
    simp only [AccountView.commit, if_pos hc, hp, AccountInfo.stored_cloneNoCode,
      normalizeCodeHash_of_ne (h.codeHash info hp), Option.map_some]
  · rw [AccountView.commit, if_neg hc]
    exact h.original.trans (congrArg _ (Account.plain_of_not_isChanged hc))

theorem Fits.storage_commit (h : c.Fits db a x) (v : AccountView) (k : Word) :
    (v.commit x).storage k = match x.storage.changedSlotMap.lookup k with
      | some slot => .ok slot.current
      | none => v.storage k := by
  have hst : (v.commit x).storage = v.committedStorage x := by
    unfold AccountView.commit
    by_cases hc : x.isChanged = true
    · obtain ⟨info, hp⟩ := h.present_of_isChanged hc
      rw [if_pos hc, hp]
    · rw [if_neg hc]
  rewrite [hst]
  unfold AccountView.committedStorage
  rewrite [h.notWiped, h.notDiscarded]
  rfl

omit [Keccak] in
theorem eq_ok_of_map {ε α β : Type} {f : α → β} {r : Except ε α} {b : β} (h : r.map f = .ok b) :
    ∃ i, r = .ok i ∧ f i = b := by
  cases r with
  | error e => cases h
  | ok i => exact ⟨i, rfl, Except.ok.inj h⟩

variable {accounts : Map Address Account}

theorem commit_info
    (h : ∀ x, accounts.lookup a = some x → c.Fits db a x) :
    ((c.commit accounts).view db a).info = match accounts.lookup a with
      | none => (c.view db a).info
      | some x => .ok (x.present.map AccountInfo.plain) := by
  rw [view_commit]
  cases hl : accounts.lookup a with
  | none => rfl
  | some x => exact (h x hl).info_commit

theorem commit_cached
    (h : ∀ x, accounts.lookup a = some x → c.Fits db a x) (k : Word) :
    ((c.commit accounts).cached a).storage k =
      match (accounts.lookup a).bind fun x => x.storage.changedSlotMap.lookup k with
      | some slot => .ok slot.current
      | none => (c.cached a).storage k := by
  rw [cached, view_commit]
  cases hl : accounts.lookup a with
  | none => rfl
  | some x => exact (h x hl).storage_commit _ k

theorem knownAbsent_of_commit
    (h : ∀ x, accounts.lookup a = some x → c.Fits db a x)
    (ha : (c.commit accounts).knownAbsent a = true) : c.knownAbsent a = true := by
  rw [knownAbsent_eq_cached, cached, view_commit] at ha
  rw [knownAbsent_eq_cached, cached]
  cases hl : accounts.lookup a with
  | none =>
    rw [hl] at ha
    exact ha
  | some x =>
    rw [hl, Option.elim_some, AccountView.commit] at ha
    by_cases hc : x.isChanged = true
    · obtain ⟨info, hp⟩ := (h x hl).present_of_isChanged hc
      rw [if_pos hc, hp] at ha
      cases ha
    · rw [if_neg hc] at ha
      exact ha

theorem AbsentHasNoStorage.commit (hz : c.AbsentHasNoStorage db)
    (h : ∀ a x, accounts.lookup a = some x → c.Fits db a x) :
    (c.commit accounts).AbsentHasNoStorage db := by
  intro a ha k e hk
  refine hz a (knownAbsent_of_commit (h a) ha) k e ?_
  rw [commit_cached (h a)] at hk
  split at hk
  · cases hk
  · exact hk

theorem commit_slot (hz : c.AbsentHasNoStorage db)
    (h : ∀ x, accounts.lookup a = some x → c.Fits db a x) (k : Word) :
    ((getStorage db a k).run (c.commit accounts)).1 =
      match (accounts.lookup a).bind fun x => x.storage.slots.lookup k with
      | none => ((getStorage db a k).run c).1
      | some slot => .ok slot.value.current := by
  -- a slot that does not change is read as before
  have hsame : ((accounts.lookup a).bind fun x => x.storage.changedSlotMap.lookup k) = none →
      ((getStorage db a k).run (c.commit accounts)).1 = ((getStorage db a k).run c).1 := by
    intro hn
    rw [getStorage_eq_cached, getStorage_eq_cached, commit_cached h, hn]
    cases hk : (c.cached a).storage k with
    | ok v => rfl
    | error e =>
      simp only
      by_cases ha : c.knownAbsent a = true
      · rw [if_pos ha, hz a ha k e hk]
        split_ifs <;> rfl
      · rw [if_neg ha, if_neg fun ha' => ha (knownAbsent_of_commit h ha')]
  cases hl : accounts.lookup a with
  | none => exact hsame (by rw [hl]; rfl)
  | some x =>
    simp only [Option.bind_some]
    have hx := h x hl
    have hmap : x.storage.changedSlotMap.lookup k = (x.storage.slots.lookup k).bind
        (StorageOverlay.changedValue false) := by
      rw [StorageOverlay.changedSlotMap, Map.lookup_filterMapValues, hx.notWiped]
    cases hs : x.storage.slots.lookup k with
    | none => exact hsame (by rw [hl, Option.bind_some, hmap, hs]; rfl)
    | some slot =>
      rw [hs, Option.bind_some, StorageOverlay.changedValue] at hmap
      by_cases hc : slot.isChanged false = true
      · rw [if_pos hc] at hmap
        rw [getStorage_eq_cached, commit_cached h, hl, Option.bind_some, hmap]
      · rw [if_neg hc] at hmap
        rw [hsame (by rw [hl, Option.bind_some, hmap]), hx.slot k slot hs]
        simp only [StorageSlot.isChanged, Tracked.isChanged, Bool.false_eq_true, if_false,
          bne_iff_ne, ne_eq, not_not] at hc
        rw [hc]

end Cache

/-! ## What one transaction adds to the list -/

namespace AccountBal

variable (index : ℕ) (c : AccountChanges)

theorem getD_foldl_record (y : Option AccountBal) (changes : List StateChange) :
    (changes.foldl (record index) y).getD .default =
      changes.foldl (receive index) (y.getD .default) := by
  induction changes generalizing y with
  | nil => rfl
  | cons change changes ih =>
    rw [List.foldl_cons, List.foldl_cons, ih]
    congr 1
    cases change <;> rfl

theorem accountInfo_foldl_visitAccount (y : AccountBal) :
    (c.visitAccount.foldl (receive index) y).accountInfo = if c.isInfoChanged then
      y.accountInfo.update index (c.original.getD .default) (c.current.getD .default)
      else y.accountInfo := by
  have hkeep : ∀ (l : List StateChange) (y : AccountBal), (∀ e ∈ l, ∀ ref, e ≠ .account ref) →
      (l.foldl (receive index) y).accountInfo = y.accountInfo := by
    intro l
    induction l with
    | nil => exact fun _ _ => rfl
    | cons e l ih =>
      intro y hl
      rw [List.foldl_cons, ih _ fun e' he' => hl e' (List.mem_cons_of_mem _ he')]
      cases e with
      | account ref => exact absurd rfl (hl _ List.mem_cons_self ref)
      | bytecode | storageWipe | storage | accountRead | storageRead => rfl
  rw [AccountChanges.visitAccount, List.foldl_append, List.foldl_cons, List.foldl_nil]
  have hb := hkeep ((if c.storage.wiped then [.storageWipe c.address] else []) ++
    c.storage.slots.entries.map fun e => c.visitSlot e.1 e.2) y fun e he ref => by
      rcases List.mem_append.mp he with he | he
      · split_ifs at he
        · rw [List.mem_singleton.mp he]
          simp
        · cases he
      · obtain ⟨slot, -, rfl⟩ := List.mem_map.mp he
        unfold AccountChanges.visitSlot
        split_ifs <;> simp
  generalize List.foldl (receive index) y _ = y' at hb ⊢
  split_ifs with hi
  · simp only [receive, hb]
  · exact hb

theorem storage_foldl_visitAccount (hw : c.storage.wiped = false) (y : AccountBal) (k : Word) :
    (c.visitAccount.foldl (receive index) y).storage.lookup k =
      match c.storage.slots.lookup k with
      | none => y.storage.lookup k
      | some slot => some (if slot.isChanged false then
          ((y.storage.lookup k).getD .default).update index slot.value.original slot.value.current
        else (y.storage.lookup k).getD .default) := by
  rw [AccountChanges.visitAccount, List.foldl_append, List.foldl_cons, List.foldl_nil, hw]
  have hlast : ∀ (y : AccountBal), (y.receive index (if c.isInfoChanged then
      .account ⟨c.address, c.original, c.current, c.created, c.selfdestructed⟩
      else .accountRead c.address c.current)).storage = y.storage := by
    intro y
    split_ifs <;> rfl
  rw [hlast]
  simp only [Bool.false_eq_true, if_false, List.nil_append, List.foldl_map]
  refine (Map.foldl_entries_proj (k := k) (fun y : AccountBal => y.storage.lookup k)
    (fun y key slot => y.receive index (c.visitSlot key slot))
    (fun x slot => some (if slot.isChanged false then
      (x.getD .default).update index slot.value.original slot.value.current
      else x.getD .default)) (fun y key slot => ?_) c.storage.slots y).trans ?_
  · unfold AccountChanges.visitSlot
    rw [hw]
    by_cases hk : key = k
    · subst hk
      rw [if_pos rfl]
      split_ifs <;> simp [receive]
    · rw [if_neg hk]
      split_ifs <;> simp [receive, Ne.symm hk]
  · cases c.storage.slots.lookup k <;> rfl

end AccountBal

/-! ## The block -/

section Block

variable [Keccak] (db : Database) (c : Cache) (ps : List PendingState)

def Cache.after (k : ℕ) : Cache := (ps.take k).foldl (fun c p => c.commit p.accounts) c

/-- The block access list of the first `n` transactions; the first one has the index 1. -/
def Bal.ofBlock (n : ℕ) : Bal :=
  ((ps.take n).zipIdx 1).foldl (fun bal e => bal.commit e.2 e.1) .new

/-- Each transaction ran on the cache that the transactions before it left. -/
def Cache.Chain : Prop :=
  ∀ n p, ps[n]? = some p → ∀ a x, p.accounts.lookup a = some x → (c.after ps n).Fits db a x

/-- The info of an account after the first `k` transactions; an absent account counts as an empty
one. -/
def infoAfter (a : Address) (k : ℕ) : PlainInfo :=
  (((c.after ps k).view db a).info.toOption.join).getD AccountInfo.default.plain

def slotAfter (a : Address) (s : Word) (k : ℕ) : Word :=
  (((Cache.getStorage db a s).run (c.after ps k)).1.toOption).getD 0

variable {db c ps} {a : Address} {n : ℕ} {p : PendingState}

theorem Cache.after_zero : c.after ps 0 = c := rfl

theorem Cache.after_succ (h : ps[n]? = some p) :
    c.after ps (n + 1) = (c.after ps n).commit p.accounts := by
  rw [after, List.take_add_one, h, List.foldl_append]
  rfl

theorem Cache.after_succ_of_none (h : ps[n]? = none) : c.after ps (n + 1) = c.after ps n := by
  rw [after, List.take_add_one, h, List.foldl_append]
  rfl

omit [Keccak] in
theorem Bal.ofBlock_succ (h : ps[n]? = some p) :
    Bal.ofBlock ps (n + 1) = (Bal.ofBlock ps n).commit (n + 1) p := by
  have hn : n < ps.length := (List.getElem?_eq_some_iff.mp h).1
  rw [ofBlock, List.take_add_one, h, List.zipIdx_append, List.foldl_append, List.length_take,
    Nat.min_eq_left hn.le, Nat.add_comm 1 n]
  rfl

theorem Cache.Chain.absentHasNoStorage (h : c.Chain db ps) (hz : c.AbsentHasNoStorage db) (n : ℕ) :
    (c.after ps n).AbsentHasNoStorage db := by
  induction n with
  | zero => exact hz
  | succ n ih =>
    cases hp : ps[n]? with
    | none => rwa [after_succ_of_none hp]
    | some p =>
      rw [after_succ hp]
      exact ih.commit (h n p hp)

theorem Cache.Chain.info_ok (h : c.Chain db ps) {i : Option PlainInfo}
    (hi : ((c.after ps n).view db a).info = .ok i) : ∃ i₀, (c.view db a).info = .ok i₀ := by
  induction n generalizing i with
  | zero => exact ⟨i, hi⟩
  | succ n ih =>
    cases hp : ps[n]? with
    | none =>
      rw [after_succ_of_none hp] at hi
      exact ih hi
    | some p =>
      cases hl : p.accounts.lookup a with
      | some x => exact ih (h n p hp a x hl).original
      | none =>
        rw [after_succ hp, commit_info (h n p hp a), hl] at hi
        exact ih hi

theorem Cache.Chain.slot_ok (h : c.Chain db ps) (hz : c.AbsentHasNoStorage db) {s v : Word}
    (hv : ((getStorage db a s).run (c.after ps n)).1 = .ok v) :
    ∃ v₀, ((getStorage db a s).run c).1 = .ok v₀ := by
  induction n generalizing v with
  | zero => exact ⟨v, hv⟩
  | succ n ih =>
    cases hp : ps[n]? with
    | none =>
      rw [after_succ_of_none hp] at hv
      exact ih hv
    | some p =>
      rw [after_succ hp, commit_slot (h.absentHasNoStorage hz n) (h n p hp a)] at hv
      cases hl : (p.accounts.lookup a).bind fun x => x.storage.slots.lookup s with
      | none =>
        rw [hl] at hv
        exact ih hv
      | some slot =>
        obtain ⟨x, hx, hslot⟩ := Option.bind_eq_some_iff.mp hl
        exact ih ((h n p hp a x hx).slot s slot hslot)

theorem Cache.Chain.info_after (h : c.Chain db ps) {i₀ : Option PlainInfo}
    (hi : (c.view db a).info = .ok i₀) (n : ℕ) :
    ∃ i, ((c.after ps n).view db a).info = .ok i := by
  induction n with
  | zero => exact ⟨i₀, hi⟩
  | succ n ih =>
    cases hp : ps[n]? with
    | none => rwa [after_succ_of_none hp]
    | some p =>
      rw [after_succ hp, commit_info (h n p hp a)]
      cases p.accounts.lookup a with
      | none => exact ih
      | some x => exact ⟨_, rfl⟩

theorem Cache.Chain.slot_after (h : c.Chain db ps) (hz : c.AbsentHasNoStorage db) {s v₀ : Word}
    (hv : ((getStorage db a s).run c).1 = .ok v₀) (n : ℕ) :
    ∃ v, ((getStorage db a s).run (c.after ps n)).1 = .ok v := by
  induction n with
  | zero => exact ⟨v₀, hv⟩
  | succ n ih =>
    cases hp : ps[n]? with
    | none => rwa [after_succ_of_none hp]
    | some p =>
      rw [after_succ hp, commit_slot (h.absentHasNoStorage hz n) (h n p hp a)]
      cases (p.accounts.lookup a).bind fun x => x.storage.slots.lookup s with
      | none => exact ih
      | some slot => exact ⟨_, rfl⟩

theorem infoAfter_of_ok {k : ℕ} {info : Option AccountInfo}
    (h : ((c.after ps k).view db a).info = .ok (info.map AccountInfo.plain)) :
    infoAfter db c ps a k = (info.getD .default).plain := by
  rw [infoAfter, h]
  cases info <;> rfl

variable (db c ps) in
/-- What the list of the first `n` transactions tells of an account. -/
structure Replays (a : Address) (n : ℕ) (y : Option AccountBal) : Prop where
  info : (y.getD .default).accountInfo.Tells (infoAfter db c ps a) n
  slot : ∀ s, BalChanges.Tells id (slotAfter db c ps a s 0) (slotAfter db c ps a s) n
    (((y.getD .default).storage.lookup s).getD .default)
  info_ok : y.isSome = true → ∃ i, (c.view db a).info = .ok i
  slot_ok : ∀ s, ((y.getD .default).storage.lookup s).isSome = true →
    ∃ v, ((Cache.getStorage db a s).run c).1 = .ok v

namespace Replays

variable {y : Option AccountBal}

theorem start : Replays db c ps a 0 none where
  info := AccountInfoBal.tells_default
  slot _ := BalChanges.tells_default rfl
  info_ok h := by cases h
  slot_ok s h := by cases h

theorem skip (h : Replays db c ps a n y) (hi : infoAfter db c ps a (n + 1) = infoAfter db c ps a n)
    (hs : ∀ s, slotAfter db c ps a s (n + 1) = slotAfter db c ps a s n) :
    Replays db c ps a (n + 1) y where
  info := h.info.keep hi
  slot s := (h.slot s).keep (hs s)
  info_ok := h.info_ok
  slot_ok := h.slot_ok

theorem load (h : Replays db c ps a n y) (hchain : c.Chain db ps) (hz : c.AbsentHasNoStorage db)
    (hp : ps[n]? = some p) {x : Account} (hx : p.accounts.lookup a = some x) :
    Replays db c ps a (n + 1)
      ((x.changes a).visitAccount.foldl (AccountBal.record (n + 1)) y) := by
  have hfit := hchain n p hp a x hx
  have hold : infoAfter db c ps a n = (x.original.getD .default).plain :=
    infoAfter_of_ok hfit.original
  have hnew : infoAfter db c ps a (n + 1) = (x.present.getD .default).plain := by
    refine infoAfter_of_ok ?_
    rw [Cache.after_succ hp, Cache.commit_info (hchain n p hp a), hx]
  have hslot : ∀ s, ((Cache.getStorage db a s).run (c.after ps (n + 1))).1 =
      match x.storage.slots.lookup s with
      | none => ((Cache.getStorage db a s).run (c.after ps n)).1
      | some slot => .ok slot.value.current := by
    intro s
    rw [Cache.after_succ hp,
      Cache.commit_slot (hchain.absentHasNoStorage hz n) (hchain n p hp a), hx]
    rfl
  have hinfo := AccountBal.accountInfo_foldl_visitAccount (n + 1) (x.changes a) (y.getD .default)
  have hstorage := AccountBal.storage_foldl_visitAccount (n + 1) (x.changes a) hfit.notWiped
    (y.getD .default)
  rw [← AccountBal.getD_foldl_record] at hinfo hstorage
  refine ⟨?_, fun s => ?_, fun _ => hchain.info_ok hfit.original, fun s hs => ?_⟩
  · rw [hinfo]
    by_cases hi : (x.changes a).isInfoChanged = true
    · rw [if_pos hi]
      exact h.info.update hold hnew
    · rw [if_neg hi]
      refine h.info.keep ?_
      have := optInfoEq_iff_plain.mp (AccountChanges.optInfoEq_of_not_isInfoChanged hi)
      simp only [Account.changes] at this
      rw [hold, hnew]
      cases ho : x.original <;> cases hc : x.present <;> simp_all
  · rw [hstorage]
    cases hl : (x.changes a).storage.slots.lookup s with
    | none =>
      refine (h.slot s).keep ?_
      have := hslot s
      rw [show x.storage.slots.lookup s = none from hl] at this
      rw [slotAfter, this]
      rfl
    | some slot =>
      have hs := hslot s
      rw [show x.storage.slots.lookup s = some slot from hl] at hs
      have hcur : slotAfter db c ps a s (n + 1) = slot.value.current := by
        rw [slotAfter, hs]
        rfl
      have horig : slotAfter db c ps a s n = slot.value.original := by
        rw [slotAfter, hfit.slot s slot hl]
        rfl
      simp only [Option.getD_some]
      split_ifs with hch
      · exact (h.slot s).update _ _ horig.symm hcur.symm
      · refine (h.slot s).keep ?_
        simp only [StorageSlot.isChanged, Tracked.isChanged, Bool.false_eq_true, if_false,
          bne_iff_ne, ne_eq, not_not] at hch
        rw [hcur, horig, hch]
  · rw [hstorage] at hs
    cases hl : (x.changes a).storage.slots.lookup s with
    | none =>
      rw [hl] at hs
      exact h.slot_ok s hs
    | some slot => exact hchain.slot_ok hz (hfit.slot s slot hl)

end Replays

theorem replays_ofBlock (hchain : c.Chain db ps) (hz : c.AbsentHasNoStorage db) (a : Address)
    (hn : n ≤ ps.length) : Replays db c ps a n ((Bal.ofBlock ps n).accounts.lookup a) := by
  induction n with
  | zero => exact Replays.start
  | succ n ih =>
    obtain ⟨p, hp⟩ : ∃ p, ps[n]? = some p :=
      ⟨_, List.getElem?_eq_getElem hn⟩
    have h := ih (Nat.le_of_succ_le hn)
    rw [Bal.ofBlock_succ hp, Bal.commit, Bal.lookup_foldl, p.filter_visit]
    cases hl : p.accounts.lookup a with
    | none =>
      refine h.skip ?_ fun s => ?_
      · rw [infoAfter, infoAfter, Cache.after_succ hp, Cache.commit_info (hchain n p hp a), hl]
      · rw [slotAfter, slotAfter, Cache.after_succ hp,
          Cache.commit_slot (hchain.absentHasNoStorage hz n) (hchain n p hp a), hl]
        rfl
    | some x => exact h.load hchain hz hp hl

omit [Keccak] in
theorem BalContext.plain_getD_populateBalAccount (ctx : BalContext) (balAccount : AccountBal)
    (account : Option AccountInfo) :
    ((ctx.populateBalAccount balAccount account).getD .default).plain =
      (balAccount.accountInfo.populateAccountInfo ctx.balIndex
        (account.getD .default)).2.plain := by
  unfold populateBalAccount
  dsimp only
  split_ifs with h
  · rfl
  · simp only [AccountInfoBal.fst_populateAccountInfo, Bool.or_eq_true, not_or, Bool.not_eq_true,
      Option.isSome_eq_false_iff, Option.isNone_iff_eq_none] at h
    obtain ⟨⟨⟨hnonce, hbalance⟩, hcode⟩, rfl⟩ := h
    rw [AccountInfoBal.plain_populateAccountInfo, hnonce, hbalance, hcode]
    rfl

end Block

/-- **Reads served from a block access list replay the block.** Attached at the index `k + 1`, the
list answers for what it records as after the first `k` transactions, where an absent account counts
as an empty one. -/
theorem bal_reads_replay_block [Keccak] (db : Database) (c : Cache) (ps : List PendingState)
    (hz : c.AbsentHasNoStorage db) (hchain : c.Chain db ps) (builder : Option Bal) (k : ℕ)
    (hk : k ≤ ps.length) (a : Address) (y : AccountBal)
    (hy : (Bal.ofBlock ps ps.length).accounts.lookup a = some y) :
    let d : CacheDB := ⟨c, ⟨some (Bal.ofBlock ps ps.length), builder, k + 1, false⟩⟩
    (∃ i j, ((CacheDB.getAccount db a).run d).1 = .ok i ∧
      ((Cache.getAccount db a).run (c.after ps k)).1 = .ok j ∧
      (i.getD .default).plain = (j.getD .default).plain) ∧
    ∀ s, (y.storage.lookup s).isSome = true → ∃ v, ((CacheDB.getStorage db a s).run d).1 = .ok v ∧
      ((Cache.getStorage db a s).run (c.after ps k)).1 = .ok v := by
  intro d
  have h := replays_ofBlock hchain hz a (le_refl ps.length)
  rw [hy] at h
  constructor
  · obtain ⟨i₀, hi₀⟩ := h.info_ok rfl
    obtain ⟨i, hi⟩ := hchain.info_after hi₀ k
    -- the infos themselves, of which the views keep the parts that are compared
    obtain ⟨r₀, hr₀, hplain₀⟩ : ∃ r, ((Cache.getAccount db a).run c).1 = .ok r ∧
        r.map AccountInfo.plain = i₀ := Cache.eq_ok_of_map hi₀
    obtain ⟨r, hr, hplain⟩ : ∃ r, ((Cache.getAccount db a).run (c.after ps k)).1 = .ok r ∧
        r.map AccountInfo.plain = i := Cache.eq_ok_of_map hi
    refine ⟨d.balContext.populateBalAccount y r₀, r, ?_, hr, ?_⟩
    · simp only [CacheDB.getAccount, CacheDB.onCache, d, BalContext.getBalAccount, hy, hr₀]
      rfl
    · rw [BalContext.plain_getD_populateBalAccount]
      have hzero : infoAfter db c ps a 0 = (r₀.getD .default).plain :=
        infoAfter_of_ok (hi₀.trans (congrArg _ hplain₀.symm))
      refine (h.info.populate hk hzero).trans ?_
      exact infoAfter_of_ok (hi.trans (congrArg _ hplain.symm))
  · intro s hs
    obtain ⟨v₀, hv₀⟩ := h.slot_ok s hs
    obtain ⟨v, hv⟩ := hchain.slot_after hz hv₀ k
    obtain ⟨changes, hch⟩ := Option.isSome_iff_exists.mp hs
    have htell := (h.slot s).get hk
    simp only [Option.getD_some, hch, id_eq] at htell
    have hv₀' : slotAfter db c ps a s 0 = v₀ := by
      rw [slotAfter, Cache.after_zero, hv₀]
      rfl
    have hv' : slotAfter db c ps a s k = v := by
      rw [slotAfter, hv]
      rfl
    rw [hv₀', hv'] at htell
    refine ⟨v, ?_, hv⟩
    simp only [CacheDB.getStorage, CacheDB.onCache, d, BalContext.balStorage, hy, hch]
    cases hg : changes.get (k + 1) with
    | some value =>
      rw [hg] at htell
      exact congrArg _ htell
    | none =>
      rw [hg] at htell
      simp only [hv₀, Except.mapError]
      exact congrArg _ htell

/-- The slot that a created account writes, served to the next transaction. -/
theorem bal_reads_replay_block_create :
    letI := Keccak.const
    let d : CacheDB := ⟨.default, ⟨some (Bal.ofBlock [createPending] 1), none, 2, false⟩⟩
    ∃ v, ((CacheDB.getStorage .empty 1 3).run d).1 = .ok v ∧
      ((Cache.getStorage .empty 1 3).run (Cache.default.after [createPending] 1)).1 = .ok v := by
  let _ := Keccak.const
  refine (bal_reads_replay_block .empty .default [createPending] (fun a ha => ?_)
    (fun n p hp a x hx => ?_) none 1 le_rfl 1 _ rfl).2 3 rfl
  · cases ha
  · obtain ⟨rfl, rfl⟩ : n = 0 ∧ p = createPending := by
      cases n with
      | zero => exact ⟨rfl, (Option.some.inj hp).symm⟩
      | succ n => cases hp
    obtain ⟨rfl, rfl⟩ := Map.lookup_singleton_eq_some hx
    refine ⟨rfl, fun k slot hk => ?_, fun info hi => ?_, rfl, rfl, fun hp => ?_⟩
    · obtain ⟨rfl, rfl⟩ := Map.lookup_singleton_eq_some hk
      rfl
    · cases hi
      decide
    · cases hp

/-- A database in which an absent account has a slot that is not zero. -/
def strayStorage [Keccak] : Database where
  getAccount := Database.empty.getAccount
  getCodeByHash := Database.empty.getCodeByHash
  getStorage a k := .ok (if a = 1 ∧ k = 3 then 7 else 0)
  getBlockHash := Database.empty.getBlockHash

def fundPending : PendingState where
  accounts := AList.singleton 1
    ⟨none, some { AccountInfo.default with balance := 5 }, .empty, .empty⟩

def readPending : PendingState where
  accounts := AList.singleton 1
    ⟨some { AccountInfo.default with balance := 5 }, some { AccountInfo.default with balance := 5 },
      .empty, ⟨false, AList.singleton 3 (.loaded 7 false)⟩⟩

/-- **Storage of an absent account** reads as zero before the block, and from the database once the
account exists; the list does not tell. -/
theorem bal_read_of_stray_storage :
    letI := Keccak.const
    let c : Cache := { Cache.default with accounts := AList.singleton 1 none }
    let ps := [fundPending, readPending]
    let d : CacheDB := ⟨c, ⟨some (Bal.ofBlock ps 2), none, 3, false⟩⟩
    c.Chain strayStorage ps ∧
      ((CacheDB.getStorage strayStorage 1 3).run d).1 = .ok 0 ∧
      ((Cache.getStorage strayStorage 1 3).run (c.after ps 2)).1 = .ok 7 := by
  let _ := Keccak.const
  refine ⟨fun n p hp a x hx => ?_, rfl, rfl⟩
  match n, hp with
  | 0, hp =>
    cases hp
    obtain ⟨rfl, rfl⟩ := Map.lookup_singleton_eq_some hx
    refine ⟨rfl, fun k slot hk => ?_, fun info hi => ?_, rfl, rfl, fun hp => ?_⟩
    · cases hk
    · cases hi
      decide
    · cases hp
  | 1, hp =>
    cases hp
    obtain ⟨rfl, rfl⟩ := Map.lookup_singleton_eq_some hx
    refine ⟨rfl, fun k slot hk => ?_, fun info hi => ?_, rfl, rfl, fun hp => ?_⟩
    · obtain ⟨rfl, rfl⟩ := Map.lookup_singleton_eq_some hk
      rfl
    · cases hi
      decide
    · cases hp

end Evm2
