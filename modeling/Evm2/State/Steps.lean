import Evm2.State.State

/-!
# The steps state operations are made of

`Step db P` lists once what an operation on a state can do: cache a read of the database, load an
account or a slot, change an account under a journal entry, warm or write a slot, write transient
storage, append a log. Every operation of `State` runs along `Step db P` (`Run db P`), whatever it
returns; everything that holds for all operations is then proved for the steps. The permit `P`
says which changes of accounts are allowed, whether storage may be written, and logs appended.

* **`moves_account`**, `moves_accountWithSkip`, `moves_storage`, `moves_transfer`,
  `moves_createAccount`: the operations are runs.
-/

namespace Evm2

open Relation (ReflTransGen)

/-! ## Reads of the cache database that change nothing any more -/

section Settled

variable (db : Database)

theorem Cache.getAccount_settled [Keccak] {a : Address} {c c' : Cache}
    {info : Option AccountInfo} (h : (Cache.getAccount db a).run c = (.ok info, c')) :
    (Cache.getAccount db a).run c' = (.ok info, c') := by
  unfold Cache.getAccount at h
  dsimp only at h
  split at h
  · rename_i account hl
    cases h
    simp only [Cache.getAccount, hl]
  · split at h
    · cases h
    · cases h
      simp [Cache.getAccount]
    · cases h
      simp [Cache.getAccount]

theorem Cache.getStorage_settled {a : Address} {key value : Word} {c c' : Cache}
    (h : (Cache.getStorage db a key).run c = (.ok value, c')) :
    (Cache.getStorage db a key).run c' = (.ok value, c') := by
  have h₀ := h
  unfold Cache.getStorage at h
  dsimp only at h
  split at h
  · cases h; exact h₀
  · split_ifs at h
    · cases h; exact h₀
    · cases h; exact h₀
    · split at h
      · cases h
      · cases h
        simp [Cache.getStorage]

end Settled

/-! ## Steps -/

/-- Flags are only added. -/
structure AccountFlags.Le (f g : AccountFlags) : Prop where
  warm : f.warm = true → g.warm = true
  touched : f.touched = true → g.touched = true
  destroyed : f.destroyed = true → g.destroyed = true
  created : f.created = true → g.created = true
  discardsStorage : f.discardsStorage = true → g.discardsStorage = true

theorem AccountFlags.Le.refl (f : AccountFlags) : f.Le f := ⟨id, id, id, id, id⟩

theorem AccountFlags.Le.trans {f g h : AccountFlags} (h₁ : f.Le g) (h₂ : g.Le h) : f.Le h :=
  ⟨fun x => h₂.1 (h₁.1 x), fun x => h₂.2 (h₁.2 x), fun x => h₂.3 (h₁.3 x), fun x => h₂.4 (h₁.4 x),
    fun x => h₂.5 (h₁.5 x)⟩

/-- The account has neither nonce nor code: `State.createAccount` may use its address. -/
def Account.isVacant (x : Account) : Bool :=
  x.present.elim true fun info => info.nonce == 0 && info.isEmptyCodeHash

/-- Which changes operations may make. -/
structure Permit where
  /-- Changes of an account by a mutator. -/
  edit : Address → Account → Account → Prop
  /-- Writes to storage and to transient storage. -/
  write : Prop
  /-- Logs. -/
  log : Prop

namespace Permit

/-- What `P` allows, `P'` allows. -/
structure Le (P P' : Permit) : Prop where
  edit : ∀ a x x', P.edit a x x' → P'.edit a x x'
  write : P.write → P'.write
  log : P.log → P'.log

def any : Permit := ⟨fun _ _ _ => True, True, True⟩

theorem le_any {P : Permit} : P.Le any := ⟨fun _ _ _ _ => trivial, fun _ => trivial, fun _ => trivial⟩

/-- Marking an account as touched is allowed. -/
class Touches (P : Permit) : Prop where
  touch : ∀ a x, P.edit a x { x with flags := { x.flags with touched := true } }

/-- Warming an account is allowed. -/
class Warms (P : Permit) : Prop where
  warm : ∀ a x, P.edit a x { x with flags := { x.flags with warm := true } }

/-- Changing the balance of an account, which may come into being, is allowed. -/
class SetsBalance (P : Permit) : Prop where
  setBalance : ∀ a x b, P.edit a x
    { x with present := some { x.present.getD .default with balance := b } }

/-- Increasing the nonce of an account is allowed. -/
class BumpsNonce (P : Permit) : Prop where
  bumpNonce : ∀ a x, x.present.elim 0 AccountInfo.nonce ≠ BitVec.allOnes 64 → P.edit a x
    { x with present := some { x.present.getD .default with
      nonce := x.present.elim 0 AccountInfo.nonce + 1 } }

/-- A vacant account can be created. -/
class Creates (P : Permit) : Prop where
  create : ∀ a x features balance, x.isVacant = true → P.edit a x { x with
      present := some (State.createdInfo features balance)
      flags := { x.flags with created := true, discardsStorage := true } }

/-- An account can be marked as destroyed; with EIP-6780, only one created in the transaction. -/
class Destroys (P : Permit) (features : EvmFeatures) : Prop where
  destroy : ∀ a x, (features.contains .eip6780 = true → x.flags.created = true) →
    P.edit a x { x with flags := { x.flags with destroyed := true } }

class Deploys [Keccak] (P : Permit) (C : Bytecode → Prop) : Prop where
  deploy : ∀ a x code, x.flags.created = true → x.flags.discardsStorage = true → C code →
    P.edit a x { x with
      present := some { x.present.getD .default with
        codeHash := code.hashSlow, code := some code } }

instance : Touches any := ⟨fun _ _ => trivial⟩
instance : Warms any := ⟨fun _ _ => trivial⟩
instance : SetsBalance any := ⟨fun _ _ _ => trivial⟩
instance : BumpsNonce any := ⟨fun _ _ _ => trivial⟩
instance : Creates any := ⟨fun _ _ _ _ _ => trivial⟩

end Permit

def Account.setSlot (x : Account) (key : Word) (slot : StorageSlot) : Account :=
  { x with storage := { x.storage with slots := x.storage.slots.set key slot } }

namespace State

def withCache (s : State) (c : Cache) : State := { s with inner := { s.inner with cache := c } }

def setAccount (s : State) (a : Address) (x : Account) : State :=
  { s with accounts := s.accounts.set a x }

def pushJournal (s : State) (e : JournalEntry) : State :=
  { s with inner := s.inner.pushJournal e }

/-- What an operation on a state can do. -/
inductive Step [Keccak] (db : Database) (P : Permit) : State → State → Prop
  | readAccount (s : State) (a : Address) :
      Step db P s (s.withCache ((Cache.getAccount db a).run s.cache).2)
  | readCode (s : State) (codeHash : B256) :
      Step db P s (s.withCache ((Cache.getCodeByHash db codeHash).run s.cache).2)
  | readBlockHash (s : State) (number : Word) :
      Step db P s (s.withCache ((Cache.getBlockHash db number).run s.cache).2)
  | readStorage (s : State) (a : Address) (key : Word) (x : Account)
      (loaded : s.accounts.lookup a = some x) :
      Step db P s (s.withCache ((Cache.getStorage db a key).run s.cache).2)
  | load (s : State) (a : Address) (info : Option AccountInfo)
      (vacant : s.accounts.lookup a = none)
      (settled : (Cache.getAccount db a).run s.cache = (.ok info, s.cache)) :
      Step db P s (s.setAccount a (.loaded info (s.prewarmSet.isWarm a)))
  | mutate (s : State) (a : Address) (x x' : Account) (loaded : s.accounts.lookup a = some x)
      (original : x'.original = x.original) (storage : x'.storage = x.storage)
      (flags : x.flags.Le x'.flags) (edits : ReflTransGen (P.edit a) x x') :
      Step db P s ((s.setAccount a x').pushJournal (.accountChange a x.present x.flags))
  | loadSlot (s : State) (a : Address) (x : Account) (key value : Word)
      (loaded : s.accounts.lookup a = some x) (vacant : x.storage.slots.lookup key = none)
      (settled : if x.storage.wiped || x.flags.discardsStorage then value = 0
        else (Cache.getStorage db a key).run s.cache = (.ok value, s.cache)) :
      Step db P s (s.setAccount a
        (x.setSlot key (.loaded value (s.prewarmSet.isStorageWarm a key))))
  | warmSlot (s : State) (a : Address) (x : Account) (key : Word) (slot : StorageSlot)
      (loaded : s.accounts.lookup a = some x) (bound : x.storage.slots.lookup key = some slot)
      (cold : slot.isWarm = false) :
      Step db P s ((s.setAccount a (x.setSlot key (slot.setWarm true))).pushJournal
        (.storageWarmed a key))
  | writeSlot (s : State) (a : Address) (x : Account) (key value : Word) (slot : StorageSlot)
      (loaded : s.accounts.lookup a = some x) (bound : x.storage.slots.lookup key = some slot)
      (write : P.write) :
      Step db P s ((s.setAccount a (x.setSlot key (slot.setCurrent value))).pushJournal
        (.storageChange a key slot.value.current))
  | tstore (s : State) (a : Address) (key value : Word) (write : P.write) :
      Step db P s (s.tstore a key value)
  | log (s : State) (l : Log) (allowed : P.log) : Step db P s (s.log l)

theorem Step.mono [Keccak] {db : Database} {P P' : Permit} (hP : P.Le P') {s t : State}
    (h : Step db P s t) : Step db P' s t := by
  cases h with
  | readAccount a => exact .readAccount s a
  | readCode h => exact .readCode s h
  | readBlockHash n => exact .readBlockHash s n
  | readStorage a key x hl => exact .readStorage s a key x hl
  | load a info hv hk => exact .load s a info hv hk
  | mutate a x x' hl ho hst hf he =>
    exact .mutate s a x x' hl ho hst hf (Relation.ReflTransGen.mono (hP.edit a) _ _ he)
  | loadSlot a x key value hl hv hst => exact .loadSlot s a x key value hl hv hst
  | warmSlot a x key slot hl hb hc => exact .warmSlot s a x key slot hl hb hc
  | writeSlot a x key value slot hl hb hw => exact .writeSlot s a x key value slot hl hb (hP.write hw)
  | tstore a key value hw => exact .tstore s a key value (hP.write hw)
  | log l hl => exact .log s l (hP.log hl)

/-- Finitely many steps. -/
abbrev Run [Keccak] (db : Database) (P : Permit) : State → State → Prop :=
  ReflTransGen (Step db P)

end State

/-! ## Sessions on an account -/

section Sessions

variable (db : Database) (P : Permit)

def CodeReads (c c' : Cache) : Prop :=
  ReflTransGen (fun c c' => ∃ h, c' = ((Cache.getCodeByHash db h).run c).2) c c'

/-- What a session on an account handle may do: look up code, add flags, and change the account as
permitted after the snapshot is taken. -/
structure AccountHandle.Mutates (h h' : AccountHandle) : Prop where
  address : h'.address = h.address
  inner : ∃ c, CodeReads db h.inner.cache c ∧ h'.inner = { h.inner with cache := c }
  original : h'.tracked.original = h.tracked.original
  storage : h'.tracked.storage = h.tracked.storage
  flags : h.tracked.flags.Le h'.tracked.flags
  edits : ReflTransGen (P.edit h.address) h.tracked h'.tracked
  change : (h'.snapshot = h.snapshot ∧ h'.tracked = h.tracked) ∨
    h'.snapshot = h.recordChange.snapshot

namespace AccountHandle

variable {db P} {h h' h'' : AccountHandle}

theorem Mutates.refl (h : AccountHandle) : Mutates db P h h :=
  ⟨rfl, ⟨_, .refl, rfl⟩, rfl, rfl, .refl _, .refl, .inl ⟨rfl, rfl⟩⟩

theorem Mutates.trans (h₁ : Mutates db P h h') (h₂ : Mutates db P h' h'') :
    Mutates db P h h'' where
  address := h₂.address.trans h₁.address
  inner := by
    obtain ⟨c, hc, he⟩ := h₁.inner
    obtain ⟨c', hc', he'⟩ := h₂.inner
    rw [he] at hc'
    exact ⟨c', hc.trans hc', by rw [he', he]⟩
  original := h₂.original.trans h₁.original
  storage := h₂.storage.trans h₁.storage
  flags := h₁.flags.trans h₂.flags
  edits := h₁.edits.trans (h₁.address ▸ h₂.edits)
  change := by
    rcases h₁.change with ⟨hs, ht⟩ | hs
    · rcases h₂.change with ⟨hs', ht'⟩ | hs'
      · exact .inl ⟨hs'.trans hs, ht'.trans ht⟩
      · -- nothing had changed before, so the second snapshot is the first one
        right
        simp only [hs', recordChange, hs, ht, h₁.address]
    · right
      rcases h₂.change with ⟨hs', -⟩ | hs'
      · rw [hs', hs]
      · simp only [hs', recordChange, hs, Option.getD_some]

instance : Std.Refl (Mutates db P) := ⟨.refl⟩

instance : IsTrans AccountHandle (Mutates db P) := ⟨fun _ _ _ => .trans⟩

theorem Mutates.record (x : Account) (hx : x.original = h.tracked.original)
    (hs : x.storage = h.tracked.storage) (hf : h.tracked.flags.Le x.flags)
    (he : P.edit h.address h.tracked x) : Mutates db P h { h.recordChange with tracked := x } :=
  ⟨rfl, ⟨_, .refl, rfl⟩, hx, hs, hf, .single he, .inr rfl⟩

theorem mutates_touch [P.Touches] (h : AccountHandle) : Mutates db P h h.touch := by
  unfold touch
  split_ifs
  · exact .refl h
  · exact .record _ rfl rfl ⟨id, fun _ => rfl, id, id, id⟩ (Permit.Touches.touch _ _)

theorem mutates_presentMut (h : AccountHandle) (f : AccountInfo → AccountInfo)
    (hf : P.edit h.address h.tracked
      { h.tracked with present := some (f (h.tracked.present.getD .default)) }) :
    Mutates db P h (h.presentMut f) :=
  .record _ rfl rfl (.refl _) hf

theorem mutates_markDestructed [P.Touches] (h : AccountHandle)
    (hd : P.edit h.address h.tracked
      { h.tracked with flags := { h.tracked.flags with destroyed := true } }) :
    Mutates db P h h.markDestructed := by
  unfold markDestructed
  refine Mutates.trans ?_ (mutates_touch _)
  split_ifs
  · exact .refl h
  · exact .record _ rfl rfl ⟨id, id, fun _ => rfl, id, id⟩ hd

theorem mutates_warm [P.Warms] (h : AccountHandle) : Mutates db P h h.warm.2 := by
  unfold warm
  split_ifs
  · exact .refl h
  · exact .record _ rfl rfl ⟨fun _ => rfl, id, id, id, id⟩ (Permit.Warms.warm _ _)

theorem mutates_setBalance [P.Touches] [P.SetsBalance] (h : AccountHandle) (b : Word) :
    Mutates db P h (h.setBalance b) :=
  (mutates_touch h).trans (mutates_presentMut _ _ (Permit.SetsBalance.setBalance _ _ b))

theorem mutates_addBalance [P.Touches] [P.SetsBalance] (h : AccountHandle) (d : Word) :
    Mutates db P h (h.addBalance d) := by
  unfold addBalance
  split_ifs
  · exact mutates_touch h
  · exact mutates_setBalance h _

theorem mutates_bumpNonce [P.Touches] [P.BumpsNonce] (h : AccountHandle) :
    Mutates db P h h.bumpNonce.2 := by
  have hb : h.touch.nonce ≠ BitVec.allOnes 64 → Mutates db P h.touch
      (h.touch.presentMut fun info => { info with nonce := h.touch.nonce + 1 }) :=
    fun hn => mutates_presentMut _ _ (Permit.BumpsNonce.bumpNonce _ _ hn)
  unfold bumpNonce
  dsimp only
  split_ifs with hn
  · exact mutates_touch h
  · exact (mutates_touch h).trans (hb hn)

@[simp] theorem touch_address (h : AccountHandle) : h.touch.address = h.address := by
  unfold touch
  split_ifs <;> rfl

theorem mutates_touch_presentMut [P.Touches] (h : AccountHandle) (f : AccountInfo → AccountInfo)
    (hf : P.edit h.address h.touch.tracked
      { h.touch.tracked with present := some (f (h.touch.tracked.present.getD .default)) }) :
    Mutates db P h (h.touch.presentMut f) :=
  (mutates_touch h).trans (mutates_presentMut _ _ ((touch_address h).symm ▸ hf))

theorem mutates_setCode [P.Touches] (h : AccountHandle) (codeHash : B256) (code : Bytecode)
    (hc : P.edit h.address h.touch.tracked { h.touch.tracked with
      present := some { h.touch.tracked.present.getD .default with
        codeHash := codeHash, code := some code } }) :
    Mutates db P h (h.setCode codeHash code) :=
  mutates_touch_presentMut h _ hc

theorem mutates_setDelegation [Keccak] (h : AccountHandle) (a : Address) :
    Mutates db .any h (h.setDelegation a) :=
  (mutates_setCode h _ _ trivial).trans (mutates_bumpNonce _)

theorem mutates_create [P.Touches] [P.Creates] (h : AccountHandle) (features : EvmFeatures)
    (balance : Word) (hd : h.tracked.isVacant = true) :
    Mutates db P h ((h.presentMut fun _ =>
      State.createdInfo features balance).markCreatedDiscardingStorage.touch) := by
  have hc : Mutates db P h
      (h.presentMut fun _ => State.createdInfo features balance).markCreatedDiscardingStorage :=
    .record _ rfl rfl ⟨id, id, id, fun _ => rfl, fun _ => rfl⟩
      (Permit.Creates.create _ _ features balance hd)
  exact hc.trans (mutates_touch _)

theorem codeReads_codeOf (info : Option AccountInfo) (inner : StateInner) :
    ∃ c, CodeReads db inner.cache c ∧ ((codeOf db info).run inner).2 = { inner with cache := c } := by
  cases info with
  | none => exact ⟨_, .refl, rfl⟩
  | some info =>
    unfold codeOf
    dsimp only
    split_ifs
    · exact ⟨_, .refl, rfl⟩
    · cases info.code with
      | none => exact ⟨_, .single ⟨_, rfl⟩, rfl⟩
      | some code =>
        dsimp only
        split_ifs
        · exact ⟨_, .refl, rfl⟩
        · exact ⟨_, .single ⟨_, rfl⟩, rfl⟩

theorem mutates_loadCode (h : AccountHandle) : Mutates db P h ((loadCode db).run h).2 :=
  ⟨rfl, codeReads_codeOf _ _, rfl, rfl, .refl _, .refl, .inl ⟨rfl, rfl⟩⟩

theorem mutates_originalCode (h : AccountHandle) : Mutates db P h ((originalCode db).run h).2 :=
  ⟨rfl, codeReads_codeOf _ _, rfl, rfl, .refl _, .refl, .inl ⟨rfl, rfl⟩⟩

theorem isVacant_setBalance (h : AccountHandle) (b : Word) (hv : h.tracked.isVacant = true) :
    (h.setBalance b).tracked.isVacant = true := by
  have ht : h.touch.tracked.present = h.tracked.present := by
    unfold touch
    split_ifs <;> rfl
  simp only [setBalance, presentMut, recordChange, Account.isVacant, ht, Option.elim_some]
  cases hp : h.tracked.present with
  | none => rfl
  | some info =>
    rw [Account.isVacant, hp] at hv
    exact hv

end AccountHandle

/-! ## The operations are runs -/

namespace State

variable {P} [Keccak] {s : State} {a : Address}

theorem run_of_codeReads {c c' : Cache} (h : CodeReads db c c') (s : State) :
    Run db P (s.withCache c) (s.withCache c') := by
  induction h with
  | refl => exact .refl
  | tail _ hstep ih =>
    obtain ⟨codeHash, rfl⟩ := hstep
    exact ih.tail (.readCode _ codeHash)

theorem accountRawWithSkip_some {x : Account} (skip : Bool) (hl : s.accounts.lookup a = some x) :
    (accountRawWithSkip db a skip).run s =
      if skip && !x.flags.warm && s.prewarmSet.isCold a then (.error .coldLoadSkipped, s)
      else (.ok x, s) := by
  simp only [accountRawWithSkip, hl]

theorem accountRawWithSkip_none (skip : Bool) (hl : s.accounts.lookup a = none) :
    (accountRawWithSkip db a skip).run s =
      if skip && !s.prewarmSet.isWarm a then (.error .coldLoadSkipped, s)
      else match (Cache.getAccount db a).run s.cache with
        | (.error e, c) => (.error (.database e), s.withCache c)
        | (.ok info, c) =>
          (.ok (.loaded info (s.prewarmSet.isWarm a)),
            (s.withCache c).setAccount a (.loaded info (s.prewarmSet.isWarm a))) := by
  simp only [accountRawWithSkip, hl, onCache, onInner, StateInner.onCache]
  rcases (Cache.getAccount db a).run s.cache with ⟨_ | _, c⟩ <;> rfl

theorem accountRawWithSkip_run (a : Address) (skip : Bool) (s : State) :
    Run db P s ((accountRawWithSkip db a skip).run s).2 ∧
      ∀ x, ((accountRawWithSkip db a skip).run s).1 = .ok x →
        ((accountRawWithSkip db a skip).run s).2.accounts.lookup a = some x := by
  cases hl : s.accounts.lookup a with
  | some x =>
    rw [accountRawWithSkip_some db skip hl]
    split_ifs
    · exact ⟨.refl, fun x hx => by cases hx⟩
    · exact ⟨.refl, fun x hx => by cases hx; exact hl⟩
  | none =>
    rw [accountRawWithSkip_none db skip hl]
    split_ifs
    · exact ⟨.refl, fun x hx => by cases hx⟩
    · have hread : Run db P s (s.withCache ((Cache.getAccount db a).run s.cache).2) :=
        .single (.readAccount s a)
      rcases hr : (Cache.getAccount db a).run s.cache with ⟨e | info, c⟩
      · rw [hr] at hread
        exact ⟨hread, fun x hx => by cases hx⟩
      · rw [hr] at hread
        refine ⟨hread.tail ?_, fun x hx => ?_⟩
        · exact .load (s.withCache c) a info hl (Cache.getAccount_settled db hr)
        · cases hx
          exact (Map.lookup_set _ _ _ _).trans (if_pos rfl)

theorem dropHandle_run {x : Account} {h : AccountHandle} (hl : s.accounts.lookup a = some x)
    (hm : AccountHandle.Mutates db P ⟨a, x, s.inner, none⟩ h) : Run db P s (s.dropHandle h) := by
  obtain ⟨c, hc, hi⟩ := hm.inner
  have hreads : Run db P s (s.withCache c) := run_of_codeReads db hc s
  rcases hm.change with ⟨hs, ht⟩ | hs
  · have he : s.dropHandle h = s.withCache c := by
      simp only [dropHandle, hs, ht, hm.address, hi, withCache, Map.set_eq_self hl]
    rw [he]
    exact hreads
  · have he : s.dropHandle h = ((s.withCache c).setAccount a h.tracked).pushJournal
        (.accountChange a x.present x.flags) := by
      simp only [dropHandle, hs, hm.address, hi]
      rfl
    rw [he]
    exact hreads.tail (.mutate (s.withCache c) a x h.tracked hl hm.original hm.storage hm.flags
      hm.edits)

variable {α : Type}

theorem moves_accountWithSkip_at {f : Op AccountHandle LoadError α} (skip : Bool)
    (hf : ∀ h : AccountHandle, h.address = a → AccountHandle.Mutates db P h (f.run h).2) :
    Op.Moves (Run db P) (accountWithSkip db a skip f) := by
  intro s
  obtain ⟨hrun, hload⟩ := accountRawWithSkip_run db a skip s
  unfold accountWithSkip
  rcases hr : (accountRawWithSkip db a skip).run s with ⟨e | x, t⟩
  · rw [hr] at hrun
    rw [Op.run_bind_error hr]
    exact hrun
  · rw [hr] at hrun hload
    rw [Op.run_bind_ok hr]
    exact hrun.trans (dropHandle_run db (hload x rfl) (hf _ rfl))

theorem moves_accountWithSkip {f : Op AccountHandle LoadError α} (skip : Bool)
    (hf : ∀ h, AccountHandle.Mutates db P h (f.run h).2) :
    Op.Moves (Run db P) (accountWithSkip db a skip f) :=
  moves_accountWithSkip_at db skip fun h _ => hf h

theorem moves_account_at {f : AccountHandle → α × AccountHandle}
    (hf : ∀ h : AccountHandle, h.address = a → AccountHandle.Mutates db P h (f h).2) :
    Op.Moves (Run db P) (account db a f) :=
  (moves_accountWithSkip_at db (f := Op.total f) false hf).mapError _

theorem moves_account {f : AccountHandle → α × AccountHandle}
    (hf : ∀ h, AccountHandle.Mutates db P h (f h).2) : Op.Moves (Run db P) (account db a f) :=
  moves_account_at db fun h _ => hf h

end State

/-! ## Sessions on a slot -/

/-- What a session on a slot handle may do; `W`: writes are allowed. -/
inductive StorageSlotHandle.Step (W : Prop) : StorageSlotHandle → StorageSlotHandle → Prop
  | warm (h : StorageSlotHandle) (cold : h.slot.isWarm = false) :
      Step W h { h with
        slot := h.slot.setWarm true
        inner := h.inner.pushJournal (.storageWarmed h.address h.key) }
  | write (h : StorageSlotHandle) (value : Word) (allowed : W) :
      Step W h { h with
        slot := h.slot.setCurrent value
        inner := h.inner.pushJournal (.storageChange h.address h.key h.slot.value.current) }

namespace StorageSlotHandle

/-- Finitely many steps of a slot session. -/
abbrev Session (W : Prop) : StorageSlotHandle → StorageSlotHandle → Prop :=
  ReflTransGen (Step W)

variable {W : Prop}

theorem session_warm (h : StorageSlotHandle) : Session W h h.warm.2 := by
  unfold warm
  split_ifs with hw
  · exact .refl
  · simp only [isWarm, Bool.or_eq_true, not_or, Bool.not_eq_true] at hw
    exact .single (.warm h hw.1)

theorem session_set (hW : W) (h : StorageSlotHandle) (value : Word) :
    Session W h (h.set value) := by
  unfold set
  split_ifs
  · exact .refl
  · exact .single (.write h value hW)

theorem session_write (hW : W) (h : StorageSlotHandle) (value : Word) :
    Session W h (h.write value).2 :=
  session_set hW h value

end StorageSlotHandle

namespace State

def putStorage (s : State) (a : Address) (x : Account) (h : StorageHandle) : State :=
  { s with accounts := s.accounts.set a { x with storage := h.storage }, inner := h.inner }

/-- The storage handle of the loaded account `x`. -/
abbrev storageHandle (s : State) (a : Address) (x : Account) : StorageHandle :=
  ⟨a, x.storage, x.flags.discardsStorage, s.inner⟩

theorem putStorage_storageHandle {s : State} {a : Address} {x : Account}
    (hl : s.accounts.lookup a = some x) :
    s.putStorage a x (s.storageHandle a x) = s := by
  simp only [putStorage, Map.set_eq_self hl]

variable {P} [Keccak] {s : State} {a : Address} {x : Account}

def putSlot (s : State) (a : Address) (x : Account) (h : StorageSlotHandle) : State :=
  { s with accounts := s.accounts.set a (x.setSlot h.key h.slot), inner := h.inner }

theorem putSlot_step {h h' : StorageSlotHandle} (hs : StorageSlotHandle.Step P.write h h')
    (ha : h.address = a) : Step db P (s.putSlot a x h) (s.putSlot a x h') := by
  have hl : (s.putSlot a x h).accounts.lookup a = some (x.setSlot h.key h.slot) := by
    simp [putSlot]
  have hb : (x.setSlot h.key h.slot).storage.slots.lookup h.key = some h.slot := by
    simp [Account.setSlot]
  subst ha
  cases hs with
  | warm cold =>
    have hst : Step db P _ _ := .warmSlot _ h.address _ h.key h.slot hl hb cold
    simpa [putSlot, setAccount, pushJournal, Account.setSlot] using hst
  | write v hw =>
    have hst : Step db P _ _ := .writeSlot _ h.address _ h.key v h.slot hl hb hw
    simpa [putSlot, setAccount, pushJournal, Account.setSlot] using hst

theorem putSlot_run {h h' : StorageSlotHandle} (hs : StorageSlotHandle.Session P.write h h')
    (ha : h.address = a) : Run db P (s.putSlot a x h) (s.putSlot a x h') ∧
      h'.address = a ∧ h'.key = h.key := by
  induction hs with
  | refl => exact ⟨.refl, ha, rfl⟩
  | tail _ hstep ih =>
    refine ⟨ih.1.tail (putSlot_step db hstep ih.2.1), ?_⟩
    cases hstep <;> exact ih.2

theorem readUnloadedSlot_run (hl : s.accounts.lookup a = some x) (key : Word) :
    ∃ c, ((StateInner.readUnloadedSlot db a key (x.storage.wiped || x.flags.discardsStorage)).run
        s.inner).2 = { s.inner with cache := c } ∧ Run db P s (s.withCache c) ∧
      ∀ value, ((StateInner.readUnloadedSlot db a key
          (x.storage.wiped || x.flags.discardsStorage)).run s.inner).1 = .ok value →
        if x.storage.wiped || x.flags.discardsStorage then value = 0
        else (Cache.getStorage db a key).run c = (.ok value, c) := by
  unfold StateInner.readUnloadedSlot
  split_ifs with hz
  · exact ⟨s.cache, rfl, .refl, fun value hv => by cases hv; rfl⟩
  · refine ⟨((Cache.getStorage db a key).run s.cache).2, rfl,
      .single (.readStorage s a key x hl), fun value hv => ?_⟩
    exact Cache.getStorage_settled db (Prod.ext hv rfl)

theorem loadSlot_run (hl : s.accounts.lookup a = some x) (warm : Bool) (key : Word) (skip : Bool) :
    Run db P s (s.putStorage a x
      ((StorageHandle.loadSlot db warm key skip).run (s.storageHandle a x)).2) ∧
      ((StorageHandle.loadSlot db warm key skip).run (s.storageHandle a x)).2.address = a ∧
      ∀ slot cold,
        ((StorageHandle.loadSlot db warm key skip).run (s.storageHandle a x)).1 = .ok (slot, cold) →
        ((StorageHandle.loadSlot db warm key skip).run (s.storageHandle a x)).2.storage.slots.lookup
          key = some slot ∧ (cold = true → slot.isWarm = false) := by
  unfold StorageHandle.loadSlot
  dsimp only
  split
  · rename_i slot hk
    split_ifs
    · refine ⟨?_, rfl, fun _ _ h => by cases h⟩
      rw [putStorage_storageHandle hl]
    · refine ⟨?_, rfl, fun _ _ h => ?_⟩
      · rw [putStorage_storageHandle hl]
      · cases h
        refine ⟨hk, fun hc => ?_⟩
        simp only [Bool.and_eq_true, Bool.not_eq_true'] at hc
        exact hc.2.1
  · rename_i hk
    split_ifs
    · refine ⟨?_, rfl, fun _ _ h => by cases h⟩
      rw [putStorage_storageHandle hl]
    · obtain ⟨c, hc, hrun, hval⟩ := readUnloadedSlot_run db hl key
      rcases hr : (StateInner.readUnloadedSlot db a key
        (x.storage.wiped || x.flags.discardsStorage)).run s.inner with ⟨e | value, inner⟩
      · rw [hr] at hc
        refine ⟨?_, rfl, fun _ _ h => by cases h⟩
        have he : s.putStorage a x ⟨a, x.storage, x.flags.discardsStorage, inner⟩ =
            s.withCache c := by
          simp only [putStorage, withCache, Map.set_eq_self hl, ← hc]
        exact he ▸ hrun
      · rw [hr] at hc hval
        refine ⟨?_, rfl, fun slot cold h => ?_⟩
        · have hload : Step db P _ _ := .loadSlot (s.withCache c) a x key value hl hk (hval value rfl)
          have hi : inner = { s.inner with cache := c } := hc
          subst hi
          exact hrun.tail hload
        · cases h
          refine ⟨by simp, fun hcold => ?_⟩
          simpa [StorageSlot.loaded] using hcold

theorem intoSlotInner_run {α : Type} {f : Bool → StorageSlotHandle → α × StorageSlotHandle}
    (hf : ∀ cold h, StorageSlotHandle.Session P.write h (f cold h).2)
    (hl : s.accounts.lookup a = some x) (warm : Bool) (key : Word) (skip : Bool) :
    Run db P s (s.putStorage a x
      ((StorageHandle.intoSlotInner db warm key skip f).run (s.storageHandle a x)).2) := by
  obtain ⟨hrun, ha, hslot⟩ := loadSlot_run db hl warm key skip
  unfold StorageHandle.intoSlotInner
  rcases hr : (StorageHandle.loadSlot db warm key skip).run (s.storageHandle a x) with
    ⟨e | ⟨slot, cold⟩, h₁⟩
  · rw [hr] at hrun
    rw [Op.run_bind_error hr]
    exact hrun
  · rw [hr] at hrun ha hslot
    obtain ⟨hb, hcold⟩ := hslot slot cold rfl
    dsimp only at ha
    subst ha
    rw [Op.run_bind_ok hr]
    -- the session on the handle, the warming of the slot included
    set sh : StorageSlotHandle := ⟨h₁.address, key, slot, h₁.inner⟩ with hsh
    set sh₁ : StorageSlotHandle :=
      if (warm && cold) = true then
        ⟨h₁.address, key, slot.setWarm true, h₁.inner.pushJournal (.storageWarmed h₁.address key)⟩
      else sh with hsh₁
    have hwarm : StorageSlotHandle.Session P.write sh sh₁ := by
      rw [hsh₁]
      split_ifs with hw
      · rw [Bool.and_eq_true] at hw
        exact .single (.warm sh (hcold hw.2))
      · exact .refl
    obtain ⟨hput, -, hkey⟩ := putSlot_run db (s := s.putStorage h₁.address x h₁)
      (x := { x with storage := h₁.storage }) (hwarm.trans (hf cold sh₁)) rfl
    have hstart : (s.putStorage h₁.address x h₁).putSlot h₁.address
        { x with storage := h₁.storage } sh = s.putStorage h₁.address x h₁ := by
      simp only [putSlot, putStorage, Account.setSlot, hsh, Map.set_eq_self hb, Map.set_set]
    have hend : (s.putStorage h₁.address x h₁).putSlot h₁.address
        { x with storage := h₁.storage } (f cold sh₁).2 =
        s.putStorage h₁.address x { h₁ with
          inner := (f cold sh₁).2.inner
          storage := { h₁.storage with
            slots := h₁.storage.slots.set key (f cold sh₁).2.slot } } := by
      simp only [putSlot, putStorage, Account.setSlot, hkey, Map.set_set]
      rfl
    rw [hstart, hend] at hput
    exact hrun.trans hput

variable {α : Type}

theorem moves_storage {f : Bool → StorageSlotHandle → α × StorageSlotHandle}
    (hf : ∀ cold h, StorageSlotHandle.Session P.write h (f cold h).2) (a : Address) (warm : Bool)
    (key : Word) (skip : Bool) :
    Op.Moves (Run db P) (storage db a (StorageHandle.intoSlotInner db warm key skip f)) := by
  intro s
  obtain ⟨hrun, hload⟩ := accountRawWithSkip_run db a false s
  unfold storage
  rcases hr : (accountRawWithSkip db a false).run s with ⟨e | x, t⟩
  · rw [hr] at hrun
    rw [Op.run_bind_error hr]
    exact hrun
  · rw [hr] at hrun hload
    rw [Op.run_bind_ok hr]
    exact hrun.trans (intoSlotInner_run db hf (hload x rfl) warm key skip)

/-! ## Transfers, creations, reads without tracking -/

open AccountHandle

theorem account_loaded (f : AccountHandle → α × AccountHandle) (hl : s.accounts.lookup a = some x) :
    (account db a f).run s =
      (.ok (f ⟨a, x, s.inner, none⟩).1, s.dropHandle (f ⟨a, x, s.inner, none⟩).2) := by
  have hraw : (accountRawWithSkip db a false).run s = (.ok x, s) := by
    rw [accountRawWithSkip_some db false hl]
    rfl
  unfold account accountWithSkip
  rw [Op.run_mapError, Op.run_bind_ok hraw]
  rfl

theorem run_account_loaded {f : AccountHandle → α × AccountHandle}
    (hl : s.accounts.lookup a = some x) (hf : Mutates db P ⟨a, x, s.inner, none⟩
      (f ⟨a, x, s.inner, none⟩).2) : Run db P s ((account db a f).run s).2 := by
  rw [account_loaded db f hl]
  exact dropHandle_run db hl hf

/-- State `u` is `s` with the account `a` loaded. -/
inductive Loads (a : Address) (s : State) : Account → State → Prop
  | here {x : Account} (loaded : s.accounts.lookup a = some x) : Loads a s x s
  | fetch {info : Option AccountInfo} {c : Cache} (vacant : s.accounts.lookup a = none)
      (read : (Cache.getAccount db a).run s.cache = (.ok info, c)) :
      Loads a s (.loaded info (s.prewarmSet.isWarm a))
        ((s.withCache c).setAccount a (.loaded info (s.prewarmSet.isWarm a)))

variable {db} in
theorem Loads.lookup {u : State} (h : Loads db a s x u) : u.accounts.lookup a = some x := by
  cases h with
  | here hl => exact hl
  | fetch hl hr => simp [setAccount]

variable {db} in
theorem Loads.kept {u : State} (h : Loads db a s x u) {b : Address} {y : Account}
    (hy : s.accounts.lookup b = some y) : u.accounts.lookup b = some y := by
  cases h with
  | here hl => exact hy
  | fetch hl hr =>
    have hne : b ≠ a := by
      rintro rfl
      rw [hl] at hy
      cases hy
    simpa [setAccount, withCache, hne] using hy

theorem accountWithSkip_ok {f : Op AccountHandle LoadError α} {skip : Bool} {r : α} {t : State}
    (h : (accountWithSkip db a skip f).run s = (.ok r, t)) :
    ∃ x u, Loads db a s x u ∧ (f.run ⟨a, x, u.inner, none⟩).1 = .ok r ∧
      t = u.dropHandle (f.run ⟨a, x, u.inner, none⟩).2 := by
  obtain ⟨x, u, hraw, h⟩ := Op.run_bind_eq_ok h
  refine ⟨x, u, ?_, congrArg Prod.fst h, (congrArg Prod.snd h).symm⟩
  cases hl : s.accounts.lookup a with
  | some y =>
    rw [accountRawWithSkip_some db skip hl] at hraw
    split_ifs at hraw
    · cases hraw
    · cases hraw
      exact .here hl
  | none =>
    rw [accountRawWithSkip_none db skip hl] at hraw
    split_ifs at hraw
    · cases hraw
    · rcases hr : (Cache.getAccount db a).run s.cache with ⟨e | info, c⟩
      · rw [hr] at hraw
        cases hraw
      · rw [hr] at hraw
        cases hraw
        exact .fetch hl hr

theorem account_ok {f : AccountHandle → α × AccountHandle} {r : α} {t : State}
    (h : (account db a f).run s = (.ok r, t)) :
    ∃ x u, Loads db a s x u ∧ r = (f ⟨a, x, u.inner, none⟩).1 ∧
      t = u.dropHandle (f ⟨a, x, u.inner, none⟩).2 := by
  have hw : (accountWithSkip db a false (Op.total f)).run s = (.ok r, t) := by
    rw [account, Op.run_mapError] at h
    rcases hx : (accountWithSkip db a false (Op.total f)).run s with ⟨e | b, u⟩
    · rw [hx] at h
      cases h
    · rw [hx] at h
      cases h
      rfl
  obtain ⟨x, u, hl, hr, ht⟩ := accountWithSkip_ok db hw
  exact ⟨x, u, hl, (Except.ok.inj hr).symm, ht⟩

theorem account_read_ok {g : AccountHandle → α} {r : α} {t : State}
    (h : (account db a fun h => (g h, h)).run s = (.ok r, t)) :
    ∃ x, t.accounts.lookup a = some x ∧ r = g ⟨a, x, t.inner, none⟩ := by
  obtain ⟨x, u, hx, rfl, rfl⟩ := account_ok db h
  have hdrop : u.dropHandle ⟨a, x, u.inner, none⟩ = u := by
    simp only [dropHandle, Map.set_eq_self hx.lookup]
  rw [hdrop]
  exact ⟨x, hx.lookup, rfl⟩

theorem moves_transfer [P.Touches] (src dst : Address) (value : Word)
    (hP : value ≠ 0 → src ≠ dst → P.SetsBalance) :
    Op.Moves (Run db P) (transfer db src dst value) := by
  unfold transfer
  by_cases hz : value = 0
  · rw [if_pos hz]
    exact .bind (moves_account db mutates_touch) fun _ => .ret _
  rw [if_neg hz]
  by_cases hsd : src = dst
  · rw [if_pos hsd]
    refine moves_account db fun h => ?_
    split_ifs
    · exact .refl h
    · exact mutates_touch h
  · rw [if_neg hsd]
    have := hP hz hsd
    refine .bind (moves_account db fun h => ?_) fun covered => .ite ?_ (.ret _)
    · split_ifs
      · exact .refl h
      · exact (mutates_setBalance h _).trans (mutates_touch _)
    · exact moves_account db fun h => (mutates_setBalance h _).trans (mutates_touch _)

def Vacant (s : State) (a : Address) : Prop :=
  ∃ x, s.accounts.lookup a = some x ∧ x.isVacant = true

theorem Vacant.account {b : Address} {f : AccountHandle → α × AccountHandle} {r : α} {t : State}
    (hv : s.Vacant a) (ha : ∀ h, (f h).2.address = h.address)
    (hf : ∀ h, h.tracked.isVacant = true → (f h).2.tracked.isVacant = true)
    (h : (account db b f).run s = (.ok r, t)) : t.Vacant a := by
  obtain ⟨y, hy, hvac⟩ := hv
  obtain ⟨x, u, hx, -, rfl⟩ := account_ok db h
  by_cases hab : a = b
  · subst hab
    obtain rfl : x = y := Option.some.inj (hx.lookup.symm.trans (hx.kept hy))
    refine ⟨_, (Map.lookup_set _ _ _ _).trans ?_, hf ⟨a, x, u.inner, none⟩ hvac⟩
    rw [ha, if_pos rfl]
  · refine ⟨y, (Map.lookup_set _ _ _ _).trans ?_, hvac⟩
    rw [ha, if_neg hab]
    exact hx.kept hy

theorem moves_createAccount [P.Touches] [P.SetsBalance] [P.Creates] (caller a : Address)
    (value : Word) (features : EvmFeatures) :
    Op.Moves (Run db P) (createAccount db caller a value features) := by
  intro s
  have hcheck : Op.Moves (Run db P) (account db a fun h =>
      (h.tracked.present.elim false fun info => info.nonce != 0 || !info.isEmptyCodeHash, h)) :=
    moves_account db fun h => .refl h
  have hdebit : Op.Moves (Run db P) (account db caller fun h =>
      if h.balance < value then (false, h) else (true, h.setBalance (h.balance - value))) := by
    refine moves_account db fun h => ?_
    split_ifs
    · exact .refl h
    · exact mutates_setBalance h _
  refine Op.moves_bind_at (hcheck s) fun collision t ht => ?_
  cases collision with
  | true => exact .refl
  | false =>
    -- no collision: the account is vacant, and stays so when the caller pays
    have hvac : t.Vacant a := by
      obtain ⟨x, hx, hcol⟩ := account_read_ok db ht
      refine ⟨x, hx, ?_⟩
      unfold Account.isVacant
      cases hp : x.present with
      | none => rfl
      | some info => simpa [hp] using hcol.symm
    refine Op.moves_bind_at (?_ : Run db P t _) fun covered u hu => ?_
    · split_ifs
      · exact .refl
      · exact hdebit t
    have hvac' : u.Vacant a := by
      split_ifs at hu
      · cases hu
        exact hvac
      · refine hvac.account db (fun h => ?_) (fun h hv => ?_) hu
        · split_ifs
          · rfl
          · have hm : Mutates db P h (h.setBalance (h.balance - value)) := mutates_setBalance h _
            exact hm.address
        · split_ifs
          · exact hv
          · exact isVacant_setBalance h _ hv
    split_ifs
    · exact .refl
    · obtain ⟨x, hx, hv⟩ := hvac'
      refine Op.moves_bind_at ?_ fun _ v _ => .refl
      exact run_account_loaded db hx (mutates_create _ features _ hv)

theorem createAccount_ok {caller : Address} {value : Word} {features : EvmFeatures} {t : State}
    (h : (createAccount db caller a value features).run s = (.ok (.ok ()), t)) :
    ∃ x, t.accounts.lookup a = some x ∧ x.flags.created = true ∧
      x.flags.discardsStorage = true := by
  obtain ⟨collision, s₁, -, h⟩ := Op.run_bind_eq_ok h
  cases collision with
  | true => cases h
  | false =>
    obtain ⟨covered, s₂, -, h⟩ := Op.run_bind_eq_ok h
    cases covered with
    | false => cases h
    | true =>
      obtain ⟨_, s₃, h, ht⟩ := Op.run_bind_eq_ok h
      cases ht
      obtain ⟨x, u, -, -, rfl⟩ := account_ok db h
      have hf : ∀ h : AccountHandle, h.address = a → h.tracked.flags.created = true →
          h.tracked.flags.discardsStorage = true → ∃ x,
            (u.accounts.set h.touch.address h.touch.tracked).lookup a = some x ∧
            x.flags.created = true ∧ x.flags.discardsStorage = true := by
        intro h ha hc hd
        refine ⟨h.touch.tracked, ?_, ?_⟩
        · rw [touch_address, ha, Map.lookup_set, if_pos rfl]
        · unfold AccountHandle.touch
          split_ifs <;> exact ⟨hc, hd⟩
      exact hf _ rfl rfl rfl

theorem moves_accountInfoUntracked (a : Address) :
    Op.Moves (Run db P) (accountInfoUntracked db a) := by
  intro s
  unfold accountInfoUntracked
  dsimp only
  split
  · exact .refl
  · exact .single (.readAccount s a)

theorem moves_codeUntracked (a : Address) : Op.Moves (Run db P) (codeUntracked db a) := by
  refine .bind (moves_accountInfoUntracked db a) fun info s => ?_
  obtain ⟨c, hc, he⟩ : ∃ c, CodeReads db s.inner.cache c ∧ _ := codeReads_codeOf info s.inner
  have hrun : Run db P s (s.withCache c) := run_of_codeReads db hc s
  simpa only [onInner, he, withCache] using hrun

end State

end Sessions

end Evm2
