import Evm2.Lib.Fold
import Evm2.State.Account

/-!
# State changes as a stream

What a transaction changed is handed on account by account, as a stream of changes that a sink
takes one after another.

The second part says what changes mean. `PlainState` is the state as a database has it, and
`AccountChanges.apply` is the effect of changes on it.
-/

namespace Evm2

/-! ## Changes -/

structure AccountChangeRef where
  address : Address
  original : Option AccountInfo
  current : Option AccountInfo
  created : Bool
  selfdestructed : Bool

structure StorageChange where
  address : Address
  key : Word
  original : Word
  current : Word

/-- A call of `StateChangeSink`. -/
inductive StateChange
  | bytecode (codeHash : B256) (code : Bytecode)
  | account (change : AccountChangeRef)
  | storageWipe (address : Address)
  | storage (change : StorageChange)
  | accountRead (address : Address) (info : Option AccountInfo)
  | storageRead (address : Address) (key value : Word)

def StateChange.isAbout (a : Address) : StateChange → Bool
  | bytecode _ _ => false
  | account change => change.address == a
  | storageWipe address => address == a
  | storage change => change.address == a
  | accountRead address _ => address == a
  | storageRead address _ _ => address == a

namespace StorageOverlay

def changedValue (wiped : Bool) (slot : StorageSlot) : Option (Tracked Word) :=
  if slot.isChanged wiped then some slot.value else none

def changedSlotMap (o : StorageOverlay) : Map Word (Tracked Word) :=
  o.slots.filterMapValues (changedValue o.wiped)

theorem lookup_changedSlotMap {o : StorageOverlay} {k : Word} {value : Tracked Word}
    (h : o.changedSlotMap.lookup k = some value) :
    ∃ slot, o.slots.lookup k = some slot ∧ slot.value = value := by
  rw [changedSlotMap, Map.lookup_filterMapValues] at h
  obtain ⟨slot, hslot, hv⟩ := Option.bind_eq_some_iff.mp h
  unfold changedValue at hv
  split_ifs at hv
  exact ⟨slot, hslot, Option.some.inj hv⟩

def isChanged (o : StorageOverlay) : Bool := o.wiped || !o.changedSlots.isEmpty

end StorageOverlay

/-- `AccountChanges`, without the touched mark. -/
structure AccountChanges where
  address : Address
  original : Option AccountInfo
  current : Option AccountInfo
  created : Bool
  selfdestructed : Bool
  code : Option (B256 × Bytecode)
  storage : StorageOverlay
  /-- Bytecode is there only if the code changed. -/
  code_changed : code.isSome → original.map AccountInfo.codeHash ≠ current.map AccountInfo.codeHash

namespace AccountChanges

variable (c : AccountChanges)

def isInfoChanged : Bool := !optInfoEq c.original c.current || c.created || c.selfdestructed

def isChanged : Bool := c.isInfoChanged || c.storage.isChanged

def visitSlot (key : Word) (slot : StorageSlot) : StateChange :=
  if slot.isChanged c.storage.wiped then
    .storage ⟨c.address, key, slot.value.original, slot.value.current⟩
  else .storageRead c.address key slot.value.original

def visitAccount : List StateChange :=
  (if c.storage.wiped then [.storageWipe c.address] else []) ++
    c.storage.slots.entries.map (fun e => c.visitSlot e.1 e.2) ++
    [if c.isInfoChanged then
        .account ⟨c.address, c.original, c.current, c.created, c.selfdestructed⟩
      else .accountRead c.address c.current]

def visitCode : List StateChange := c.code.toList.map fun code => .bytecode code.1 code.2

def visit : List StateChange := c.visitCode ++ c.visitAccount

theorem isAbout_visitSlot (a : Address) (key : Word) (slot : StorageSlot) :
    (c.visitSlot key slot).isAbout a = (c.address == a) := by
  unfold visitSlot
  split_ifs <;> rfl

theorem optInfoEq_of_not_isInfoChanged {c : AccountChanges} (h : ¬c.isInfoChanged = true) :
    optInfoEq c.original c.current = true := by
  simp only [isInfoChanged, Bool.or_eq_true, not_or, Bool.not_eq_true, Bool.not_eq_false'] at h
  exact h.1.1

theorem of_account_mem_visit {c : AccountChanges} {ref : AccountChangeRef}
    (h : .account ref ∈ c.visit) : ref.original = c.original ∧ ref.current = c.current := by
  simp only [visit, visitCode, visitAccount, List.mem_append, List.mem_map,
    List.mem_singleton] at h
  rcases h with ⟨code, -, h⟩ | (h | ⟨slot, -, h⟩) | h
  · cases h
  · split_ifs at h
    · cases List.mem_singleton.mp h
    · cases h
  · unfold visitSlot at h
    split_ifs at h
  · split_ifs at h
    cases h
    exact ⟨rfl, rfl⟩

theorem filter_visit (a : Address) :
    c.visit.filter (StateChange.isAbout a) = if c.address = a then c.visitAccount else [] := by
  have hcode : c.visitCode.filter (StateChange.isAbout a) = [] := by
    refine List.filter_eq_nil_iff.mpr fun e he => ?_
    obtain ⟨code, -, rfl⟩ := List.mem_map.mp he
    simp [StateChange.isAbout]
  have hall : ∀ e ∈ c.visitAccount, e.isAbout a = (c.address == a) := by
    intro e he
    simp only [visitAccount, List.mem_append, List.mem_map, List.mem_singleton] at he
    rcases he with (he | ⟨slot, -, rfl⟩) | rfl
    · split_ifs at he
      · rw [List.mem_singleton.mp he]
        rfl
      · cases he
    · exact c.isAbout_visitSlot a _ _
    · split_ifs <;> rfl
  rw [visit, List.filter_append, hcode, List.nil_append]
  split_ifs with h
  · exact List.filter_eq_self.mpr fun e he => by simp [hall e he, h]
  · exact List.filter_eq_nil_iff.mpr fun e he => by simp [hall e he, h]

theorem isInfoChanged_of_code (h : c.code.isSome) : c.isInfoChanged = true := by
  have hne : ¬optInfoEq c.original c.current = true := by
    rw [optInfoEq_iff]
    intro he
    refine c.code_changed h ?_
    have := congrArg (Option.map AccountInfo.codeHash) he
    rwa [Option.map_map, Option.map_map] at this
  simp [isInfoChanged, hne]

end AccountChanges

/-! ## Pending states -/

theorem Account.changedCode_isSome {x : Account} (h : x.changedCode.isSome) :
    x.original.map AccountInfo.codeHash ≠ x.present.map AccountInfo.codeHash := by
  unfold changedCode at h
  cases hp : x.present with
  | none => simp [hp] at h
  | some info =>
    rw [hp] at h
    simp only at h
    intro heq
    simp only [Option.map_some] at heq
    split at h
    · cases h
    · simp [heq] at h

def Account.changes (x : Account) (a : Address) : AccountChanges where
  address := a
  original := x.original
  current := x.present
  created := x.flags.created
  selfdestructed := x.flags.destroyed
  code := x.changedCode
  storage := x.storage
  code_changed := Account.changedCode_isSome

structure PendingState where
  accounts : Map Address Account

namespace PendingState

def accountChanges (p : PendingState) : List AccountChanges :=
  p.accounts.entries.map fun e => e.2.changes e.1

def visit (p : PendingState) : List StateChange := p.accountChanges.flatMap AccountChanges.visit

theorem nodup_accountChanges (p : PendingState) :
    (p.accountChanges.map AccountChanges.address).Nodup := by
  have h : p.accountChanges.map AccountChanges.address = p.accounts.keys := by
    simp [accountChanges, AList.keys, List.keys, Account.changes, Function.comp_def]
  rw [h]
  exact p.accounts.keys_nodup

theorem find_accountChanges (p : PendingState) (a : Address) :
    (p.accountChanges.find? fun c => c.address = a) =
      (p.accounts.lookup a).map fun x => x.changes a := by
  obtain ⟨⟨l, hl⟩⟩ := p
  unfold accountChanges AList.lookup
  simp only
  clear hl
  induction l with
  | nil => rfl
  | cons e l ih =>
    obtain ⟨b, x⟩ := e
    rw [List.map_cons, List.find?_cons]
    by_cases h : b = a
    · subst h
      simp [Account.changes]
    · rw [List.dlookup_cons_ne _ _ (Ne.symm h), ← ih]
      simp [Account.changes, h]

theorem filter_visit (p : PendingState) (a : Address) :
    p.visit.filter (StateChange.isAbout a) =
      (p.accounts.lookup a).elim [] fun x => (x.changes a).visitAccount := by
  rw [visit, Fold.filter_flatMap_key (fun c a => c.filter_visit a) p.nodup_accountChanges,
    find_accountChanges]
  cases p.accounts.lookup a <;> rfl

end PendingState

/-- A transaction that creates an account with the value 5 in slot 3. -/
def createPending : PendingState where
  accounts := AList.singleton 1
    { original := none
      present := some { AccountInfo.default with nonce := 1 }
      flags := { AccountFlags.empty with created := true }
      storage := ⟨false, AList.singleton 3 ⟨⟨0, 5⟩, false⟩⟩ }

/-- A transaction in which this account destroys itself. -/
def destroyPending : PendingState where
  accounts := AList.singleton 1
    { original := some { AccountInfo.default with nonce := 1 }
      present := none
      flags := { AccountFlags.empty with destroyed := true }
      storage := ⟨true, AList.singleton 3 ⟨⟨5, 0⟩, false⟩⟩ }

/-! ## What changes mean -/

structure PlainInfo where
  balance : Word
  nonce : U64
  codeHash : B256
  deriving DecidableEq, Repr

def AccountInfo.plain (x : AccountInfo) : PlainInfo := ⟨x.balance, x.nonce, x.codeHash⟩

@[simp]
theorem AccountInfo.plain_cloneNoCode (x : AccountInfo) : x.cloneNoCode.plain = x.plain := rfl

theorem optInfoEq_iff_plain {x y : Option AccountInfo} :
    optInfoEq x y = true ↔ x.map AccountInfo.plain = y.map AccountInfo.plain := by
  cases x <;> cases y <;> simp [optInfoEq, AccountInfo.eq_iff, AccountInfo.plain]

theorem Account.plain_of_not_isChanged {x : Account} (h : ¬x.isChanged = true) :
    x.original.map AccountInfo.plain = x.present.map AccountInfo.plain := by
  simp only [isChanged, Bool.not_eq_true', Bool.not_eq_false] at h
  exact optInfoEq_iff_plain.mp h

/-- An account with its storage. -/
@[ext]
structure PlainAccount where
  info : Option PlainInfo
  storage : Word → Word

/-- The state as a database keeps it. -/
abbrev PlainState := Address → PlainAccount

def PlainAccount.hasNoNonceAndCode (x : PlainAccount) : Prop :=
  ∀ info, x.info = some info → info.nonce = 0 ∧ info.codeHash = KECCAK256_EMPTY

/-- An account without nonce and code has no storage. -/
def PlainAccount.Regular (x : PlainAccount) : Prop := x.hasNoNonceAndCode → ∀ k, x.storage k = 0

namespace AccountChanges

variable (c : AccountChanges)

def written (k : Word) : Option Word := (c.storage.changedSlotMap.lookup k).map Tracked.current

/-- The effect of changes on their account: the storage is wiped if they say so, slots are written,
the info is set, and a deleted account has no storage. -/
def apply (x : PlainAccount) : PlainAccount where
  info := c.current.map AccountInfo.plain
  storage k :=
    if c.current.isNone then 0
    else match c.written k with
      | some v => v
      | none => if c.storage.wiped then 0 else x.storage k

/-- The original values of the changes are those of the account. An account absent after the
transaction has no nonzero slot: finalization zeroes the slots of what it deletes
(`StorageOverlay.wipe`), and an account that was never there has run no code that writes slots. -/
structure Follows (x : PlainAccount) : Prop where
  original : c.original.map AccountInfo.plain = x.info
  slot : ∀ k slot, c.storage.slots.lookup k = some slot → slot.value.original = x.storage k
  absent : c.current = none → ∀ k slot, c.storage.slots.lookup k = some slot →
    slot.value.current = 0

end AccountChanges

def PlainState.empty : PlainState := fun _ => ⟨none, fun _ => 0⟩

def PlainState.commit (D : PlainState) (c : AccountChanges) : PlainState :=
  Function.update D c.address (c.apply (D c.address))

def PlainState.commitAll (D : PlainState) (changes : List AccountChanges) : PlainState :=
  changes.foldl PlainState.commit D

/-- The original values of the changes are those that the changes before them left. -/
def Chained : PlainState → List AccountChanges → Prop
  | _, [] => True
  | D, c :: changes => c.Follows (D c.address) ∧ Chained (D.commit c) changes

end Evm2
