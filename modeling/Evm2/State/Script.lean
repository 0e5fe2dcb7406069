import Evm2.State.Finalize
import Evm2.State.Rollback

/-!
# Scripts of operations

The public operations on a `State`, as data: sessions on accounts and slots, writes, transfers,
creations, and nested checkpoint/rollback pairs. A `Script` is run after a checkpoint; rolling back
restores the state of the checkpoint.
-/

namespace Evm2

/-! ## Operations -/

/-- A mutation in a session on an account handle. -/
inductive AccountOp
  | touch
  | warm
  | setBalance (balance : Word)
  | addBalance (delta : Word)
  | setNonce (nonce : U64)
  | bumpNonce
  | setCode (codeHash : B256) (code : Bytecode)
  | setCodeSlow (code : Bytecode)
  | setDelegation (delegated : Address)
  | markDestructed
  | markCreated
  /-- A write through the reference that `get_or_insert` returns. -/
  | getOrInsert (write : AccountInfo → AccountInfo)
  | loadCode
  | originalCode

/-- A mutation in a session on a slot handle. -/
inductive SlotOp
  | warm
  | set (value : Word)
  | write (value : Word)

/-- An operation on the state. -/
inductive StateOp
  | account (a : Address) (skipColdLoad : Bool) (ops : List AccountOp)
  /-- Load a slot (`into_slot`, `into_slot_with_skip`), or load and warm it
  (`into_slot_with_skip_and_warm`), and work on it. -/
  | slot (a : Address) (key : Word) (warm skipColdLoad : Bool) (ops : List SlotOp)
  | tstore (a : Address) (key value : Word)
  | log (l : Log)
  | transfer (src dst : Address) (value : Word)
  | createAccount (caller a : Address) (value : Word)
  | accountInfoUntracked (a : Address)
  | codeUntracked (a : Address)
  | blockHash (number : Word)

section Runs

variable [Keccak] (db : Database)

def AccountOp.run (h : AccountHandle) : AccountOp → AccountHandle
  | touch => h.touch
  | warm => h.warm.2
  | setBalance b => h.setBalance b
  | addBalance d => h.addBalance d
  | setNonce n => h.setNonce n
  | bumpNonce => h.bumpNonce.2
  | setCode codeHash code => h.setCode codeHash code
  | setCodeSlow code => h.setCodeSlow code
  | setDelegation a => h.setDelegation a
  | markDestructed => h.markDestructed
  | markCreated => h.markCreated
  | getOrInsert write => h.presentMut write
  | loadCode => ((AccountHandle.loadCode db).run h).2
  | originalCode => ((AccountHandle.originalCode db).run h).2

def SlotOp.run (h : StorageSlotHandle) : SlotOp → StorageSlotHandle
  | warm => h.warm.2
  | set value => h.set value
  | write value => (h.write value).2

def StateOp.run (features : EvmFeatures) (s : State) : StateOp → State
  | account a skip ops =>
    ((State.accountWithSkip db a skip (Op.total fun h => ((), ops.foldl (AccountOp.run db) h))).run
      s).2
  | slot a key warm skip ops =>
    ((State.storage db a (StorageHandle.intoSlotInner db warm key skip fun _ h =>
      ((), ops.foldl SlotOp.run h))).run s).2
  | tstore a key value => s.tstore a key value
  | log l => s.log l
  | transfer src dst value => ((State.transfer db src dst value).run s).2
  | createAccount caller a value => ((State.createAccount db caller a value features).run s).2
  | accountInfoUntracked a => ((State.accountInfoUntracked db a).run s).2
  | codeUntracked a => ((State.codeUntracked db a).run s).2
  | blockHash number => ((State.onCache (Cache.getBlockHash db number)).run s).2

end Runs

/-- A sequence of operations with nested checkpoint/rollback pairs. -/
inductive Script
  | done
  | op (o : StateOp) (rest : Script)
  /-- Take a checkpoint, run `inner`, roll back, and go on. -/
  | nested (inner rest : Script)

def Script.run [Keccak] (db : Database) (features : EvmFeatures) : Script → State → State
  | done, s => s
  | op o rest, s => rest.run db features (o.run db features s)
  | nested inner rest, s =>
    rest.run db features ((inner.run db features s).rollback s.checkpoint features)

/-! ## Operations are runs -/

theorem SlotOp.session_foldl (ops : List SlotOp) (h : StorageSlotHandle) :
    StorageSlotHandle.Session True h (ops.foldl SlotOp.run h) := by
  induction ops generalizing h with
  | nil => exact .refl
  | cons o ops ih =>
    refine .trans ?_ (ih (SlotOp.run h o))
    cases o with
    | warm => exact StorageSlotHandle.session_warm h
    | set value => exact StorageSlotHandle.session_set trivial h value
    | write value => exact StorageSlotHandle.session_write trivial h value

def Permit.existing : Permit where
  edit _ x x' := x'.original = x.original ∧ (x'.present = none → x.present = none)
  write := True
  log := True

namespace Permit

instance : Touches existing := ⟨fun _ _ => ⟨rfl, id⟩⟩
instance : Warms existing := ⟨fun _ _ => ⟨rfl, id⟩⟩
instance : SetsBalance existing := ⟨fun _ _ _ => ⟨rfl, nofun⟩⟩
instance : BumpsNonce existing := ⟨fun _ _ _ => ⟨rfl, nofun⟩⟩
instance : Creates existing := ⟨fun _ _ _ _ _ => ⟨rfl, nofun⟩⟩

end Permit

section Moves

variable [Keccak] {db : Database}

omit [Keccak] in
theorem AccountHandle.mutates_existing (h : AccountHandle) (f : AccountInfo → AccountInfo) :
    Mutates db .existing h (h.touch.presentMut f) :=
  mutates_touch_presentMut h f ⟨rfl, nofun⟩

omit [Keccak] in
theorem AccountHandle.mutates_setCode_existing (h : AccountHandle) (codeHash : B256)
    (code : Bytecode) : Mutates db .existing h (h.setCode codeHash code) :=
  mutates_setCode h codeHash code ⟨rfl, nofun⟩

theorem AccountOp.mutates_existing (h : AccountHandle) (o : AccountOp) :
    AccountHandle.Mutates db .existing h (o.run db h) := by
  cases o with
  | touch => exact AccountHandle.mutates_touch h
  | warm => exact AccountHandle.mutates_warm h
  | setBalance b => exact AccountHandle.mutates_setBalance h b
  | addBalance d => exact AccountHandle.mutates_addBalance h d
  | setNonce n => exact h.mutates_existing fun info => { info with nonce := n }
  | bumpNonce => exact AccountHandle.mutates_bumpNonce h
  | setCode codeHash code => exact h.mutates_setCode_existing codeHash code
  | setCodeSlow code => exact h.mutates_setCode_existing _ code
  | setDelegation a =>
    exact (h.mutates_setCode_existing _ _).trans (AccountHandle.mutates_bumpNonce _)
  | markDestructed => exact AccountHandle.mutates_markDestructed h ⟨rfl, id⟩
  | markCreated => exact .record _ rfl rfl ⟨id, id, id, fun _ => rfl, id⟩ ⟨rfl, id⟩
  | getOrInsert write => exact AccountHandle.mutates_presentMut h write ⟨rfl, nofun⟩
  | loadCode => exact AccountHandle.mutates_loadCode h
  | originalCode => exact AccountHandle.mutates_originalCode h

theorem AccountOp.mutates_existing_foldl (ops : List AccountOp) (h : AccountHandle) :
    AccountHandle.Mutates db .existing h (ops.foldl (AccountOp.run db) h) := by
  induction ops generalizing h with
  | nil => exact .refl h
  | cons o ops ih => exact (o.mutates_existing h).trans (ih (o.run db h))

theorem StateOp.run_existing (features : EvmFeatures) (s : State) (o : StateOp) :
    State.Run db .existing s (o.run db features s) := by
  cases o with
  | account a skip ops =>
    exact State.moves_accountWithSkip db skip (AccountOp.mutates_existing_foldl ops) s
  | slot a key warm skip ops =>
    exact State.moves_storage db (fun _ => SlotOp.session_foldl ops) a warm key skip s
  | tstore a key value => exact .single (.tstore s a key value trivial)
  | log l => exact .single (.log s l trivial)
  | transfer src dst value =>
    exact State.moves_transfer db src dst value (fun _ _ => inferInstance) s
  | createAccount caller a value => exact State.moves_createAccount db caller a value features s
  | accountInfoUntracked a => exact State.moves_accountInfoUntracked db a s
  | codeUntracked a => exact State.moves_codeUntracked db a s
  | blockHash number => exact .single (.readBlockHash s number)

theorem StateOp.run_moves (features : EvmFeatures) (s : State) (o : StateOp) :
    State.Run db .any s (o.run db features s) :=
  Relation.ReflTransGen.mono (fun _ _ => State.Step.mono Permit.le_any) _ _
    (o.run_existing features s)

theorem Script.runs (features : EvmFeatures) (script : Script) (s : State) :
    State.Runs db .any (features.contains .eip161) s (script.run db features s) := by
  induction script generalizing s with
  | done => exact .refl s
  | op o rest ih => exact (State.Runs.of_run (o.run_moves features s)).trans (ih _)
  | nested inner rest ihin ih =>
    exact (State.Runs.rollback features id (.refl s) (ihin s)).trans (ih _)

end Moves

/-! ## Rollback -/

/-- The states that the operations of `State` lead to. Overlay, cache, journal, logs and prewarm set
can be replaced freely (`set_pending_state`, `overlay_db_mut`, `logs_mut`, `prewarm_set_mut`, and
what finalization and commit do); transient storage only changes by operations, by rollbacks and by
removal (`take_transient_storage`, `clear_transaction_state`). -/
inductive Reachable [Keccak] (db : Database) : State → Prop
  | new : Reachable db State.new
  | op {s : State} (features : EvmFeatures) (o : StateOp) :
      Reachable db s → Reachable db (o.run db features s)
  | rollback {s : State} (cp : StateCheckpoint) (features : EvmFeatures) :
      Reachable db s → Reachable db (s.rollback cp features)
  | replace {s : State} (accounts : Map Address Account) (inner : StateInner) :
      Reachable db s → Reachable db { s with accounts := accounts, inner := inner }
  | removeTransient {s : State} (key : Address × Word) :
      Reachable db s →
        Reachable db { s with transientStorage := s.transientStorage.erase key }

theorem transientNonzero_undoEntry {b : Bool} {e : JournalEntry} {c : Core}
    (h : ∀ key, c.2.lookup key ≠ some 0) (key : Address × Word) :
    (State.undoEntry b e c).2.lookup key ≠ some 0 := by
  cases e with
  | accountChange a p f | storageChange a j p | storageWarmed a j => exact h key
  | transientStorageChange a j p =>
    cases p with
    | none =>
      simp only [State.undoEntry, Map.lookup_erase_ite]
      split_ifs
      · simp
      · exact h key
    | some v =>
      simp only [State.undoEntry]
      split_ifs with hv
      · simp only [Map.lookup_erase_ite]
        split_ifs
        · simp
        · exact h key
      · simp only [Map.lookup_set]
        split_ifs
        · simpa using hv
        · exact h key

theorem transientNonzero_popEntries {b : Bool} {n : Nat} (es : List JournalEntry) {c : Core}
    (h : ∀ key, c.2.lookup key ≠ some 0) (key : Address × Word) :
    (State.popEntries b n es c).2.2.lookup key ≠ some 0 := by
  induction es generalizing c with
  | nil => exact h key
  | cons e es ih =>
    unfold State.popEntries
    split_ifs
    · exact ih (transientNonzero_undoEntry h)
    · exact h key

section Rollback

variable [Keccak] {db : Database} {s : State}

theorem Reachable.transientNonzero (h : Reachable db s) : s.TransientNonzero := by
  induction h with
  | new => exact fun key => by simp [State.new]
  | op features o _ ih =>
    exact ((State.Runs.of_run (o.run_moves features _) : State.Runs db .any true _ _).journals
      ih).nonzero
  | rollback cp features _ ih => exact transientNonzero_popEntries _ ih
  | replace accounts inner _ ih => exact ih
  | removeTransient key _ ih =>
    intro j
    simp only [Map.lookup_erase_ite]
    split_ifs
    · simp
    · exact ih j

/-- **Rollback is exact.** Whatever operations follow a checkpoint, nested rollbacks included,
rolling back to it restores everything, but for the touch of precompile 3 with EIP-161; what was
loaded meanwhile is as it was loaded. -/
theorem rollback_exact (hs : Reachable db s) (script : Script) (features : EvmFeatures) :
    let t := (script.run db features s).rollback s.checkpoint features
    let eip161 := features.contains .eip161
    t.logs = s.logs ∧ t.journal = s.journal ∧
      (∀ key, t.transientStorage.lookup key = s.transientStorage.lookup key) ∧
      (∀ a x, s.accounts.lookup a = some x → ∃ x', t.accounts.lookup a = some x' ∧
        x'.present = x.present ∧ FlagsRestored eip161 a x.flags x'.flags ∧
        ∀ key slot, x.storage.slots.lookup key = some slot →
          x'.storage.slots.lookup key = some slot) ∧
      (∀ a x', s.accounts.lookup a = none → t.accounts.lookup a = some x' →
        x'.present = x'.original ∧
        FlagsRestored eip161 a (.loaded (s.prewarmSet.isWarm a)) x'.flags) ∧
      (∀ a x' key slot', t.accounts.lookup a = some x' →
        x'.storage.slots.lookup key = some slot' →
        (∀ x, s.accounts.lookup a = some x → x.storage.slots.lookup key = none) →
        slot'.value.current = slot'.value.original ∧
        slot'.isWarm = s.prewarmSet.isStorageWarm a key) := by
  intro t eip161
  have hj : State.Journals eip161 s (script.run db features s) :=
    (script.runs features s).journals hs.transientNonzero
  obtain ⟨hlogs, hjournal, hcore⟩ := hj.rollback id
  refine ⟨hlogs, hjournal, hcore.transient, fun a x hx => ?_, fun a x' hx hx' => ?_,
    fun a x' key slot' hx' hslot hnew => ?_⟩
  · obtain ⟨x', hx', hext⟩ := hcore.kept a x hx
    exact ⟨x', hx', hext.present, hext.flags, hext.storage.kept⟩
  · have hext := hcore.fresh a x' hx hx'
    exact ⟨hext.present, hext.flags⟩
  · -- the slot was loaded after the checkpoint, perhaps with its account
    have hload : slot' = .loaded slot'.value.original (s.prewarmSet.isStorageWarm a key) := by
      cases hx : s.accounts.lookup a with
      | some x =>
        obtain ⟨y, hy, hext⟩ := hcore.kept a x hx
        obtain rfl : y = x' := Option.some.inj (hy.symm.trans hx')
        exact hext.storage.fresh key slot' (hnew x hx) hslot
      | none => exact (hcore.fresh a x' hx hx').storage.fresh key slot' rfl hslot
    rw [hload]
    exact ⟨rfl, rfl⟩

end Rollback

theorem rollback_exact_tstore :
    letI := Keccak.const
    let script : Script := .op (.tstore 1 0 5) (.nested (.op (.tstore 1 0 6) .done) .done)
    let s := script.run Database.empty .empty State.new
    s.tload 1 0 = 5 ∧
      (s.rollback State.new.checkpoint .empty).transientStorage.lookup (1, 0) = none :=
  letI := Keccak.const
  ⟨by decide, (rollback_exact .new (.op (.tstore 1 0 5) (.nested (.op (.tstore 1 0 6) .done) .done))
    .empty).2.2.1 (1, 0)⟩

end Evm2
