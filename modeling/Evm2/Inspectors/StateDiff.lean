import Evm2.State.FinalizeLaws
import Evm2.State.Stream
import Evm2.Version.Version

/-!
# State diffs

`populateStateDiff` lists what a transaction changed in the style of Parity. An account that the
transaction removed is listed without its slots; for the others only what is new is listed.
-/

namespace Evm2

inductive Delta (α : Type)
  | unchanged
  | added (value : α)
  | removed (value : α)
  | changed (src dst : α)
  deriving DecidableEq, Repr

def Delta.between {α : Type} [DecidableEq α] (original current : α) : Delta α :=
  if original = current then unchanged else changed original current

structure AccountDiff where
  balance : Delta Word := .unchanged
  nonce : Delta U64 := .unchanged
  code : Delta Bytes := .unchanged
  storage : Map Word (Delta Word) := ∅

abbrev StateDiff := Map Address AccountDiff

def AccountDiff.insertSlots (entry : AccountDiff) (storage : StorageOverlay)
    (delta : Tracked Word → Delta Word) : AccountDiff :=
  { entry with
    storage := (storage.changedSlotMap.mapValues delta).entries.foldl
      (fun m e => m.insert e.1 e.2) entry.storage }

section Populate

variable (db : Database)

def loadAccountCode (account : AccountInfo) : Except DatabaseError (Option Bytes) :=
  if account.isEmptyCodeHash then pure none
  else
    match account.code with
    | some code => pure (some code.originalBytes)
    | none => (db.getCodeByHash account.codeHash).map fun code => some code.originalBytes

def populateCode (original info : AccountInfo) (code : Delta Bytes) :
    Except DatabaseError (Delta Bytes) :=
  if original.codeHash = info.codeHash then pure code
  else do
    let originalCode ← loadAccountCode db original
    let presentCode ← loadAccountCode db info
    pure (.changed (originalCode.getD []) (presentCode.getD []))

/-- What `populate_state_diff` makes of the entry of an account; without a result the entry is
cleared. -/
def populateEntry (changed : AccountChanges) (entry : AccountDiff) :
    Except DatabaseError (Option AccountDiff) :=
  let original := changed.original.getD .default
  match changed.current with
  | none => do
    let code ← loadAccountCode db original
    pure (some { entry with
      balance := .removed original.balance
      nonce := .removed original.nonce
      code := .removed (code.getD []) })
  | some info =>
    if changed.original.isNone && (changed.created || !info.isEmpty) then do
      let code ← loadAccountCode db info
      let entry := { entry with
        balance := .added info.balance
        nonce := .added info.nonce
        code := .added (code.getD []) }
      pure (some (entry.insertSlots changed.storage fun slot => .added slot.current))
    else do
      let code ← populateCode db original info entry.code
      let entry := { entry with code }.insertSlots changed.storage fun slot =>
        .changed slot.original slot.current
      if entry.storage.entries.isEmpty && original.eq info && !changed.selfdestructed then pure none
      else
        pure (some { entry with
          balance := .between original.balance info.balance
          nonce := .between original.nonce info.nonce })

def populateAccount (stateDiff : StateDiff) (changed : AccountChanges) :
    Except DatabaseError StateDiff :=
  if changed.current.isNone && changed.original.isNone then pure stateDiff
  else do
    match ← populateEntry db changed ((stateDiff.lookup changed.address).getD {}) with
    | some entry => pure (stateDiff.insert changed.address entry)
    | none => pure (stateDiff.erase changed.address)

def populateStateDiff (pending : PendingState) (stateDiff : StateDiff) :
    Except DatabaseError StateDiff :=
  pending.accountChanges.foldlM (populateAccount db) stateDiff

end Populate

/-! ## What a diff means -/

/-- The value that a delta leaves. A diff has values that the state keeps as `f` of them. -/
def Delta.apply {α β : Type} (f : α → β) (old : β) : Delta α → β
  | unchanged | removed _ => old
  | added value => f value
  | changed _ dst => f dst

def Delta.Moves {α β : Type} (f : α → β) (old : β) (d : Delta α) : Prop :=
  ∀ src dst, d = changed src dst → f src = old ∧ src ≠ dst

def PlainInfo.empty : PlainInfo := AccountInfo.default.plain

/-- The accounts are the same, if an absent account is taken for an empty one. -/
def PlainAccount.Same (x y : PlainAccount) : Prop :=
  x.info.getD .empty = y.info.getD .empty ∧ ∀ k, x.storage k = y.storage k

section Apply

variable [Keccak]

/-- The account that an entry describes: values are set or kept, and a removed account is deleted
with its storage. -/
def AccountDiff.apply (entry : AccountDiff) (x : PlainAccount) : PlainAccount :=
  match entry.balance with
  | .removed _ => ⟨none, fun _ => 0⟩
  | balance =>
    let info := x.info.getD .empty
    { info := some ⟨balance.apply id info.balance, entry.nonce.apply id info.nonce,
        entry.code.apply keccak256 info.codeHash⟩
      storage := fun k => ((entry.storage.lookup k).getD .unchanged).apply id (x.storage k) }

def StateDiff.apply (diff : StateDiff) (D : PlainState) : PlainState := fun a =>
  (diff.lookup a).elim (D a) fun entry => entry.apply (D a)

/-- Every change of the entry goes from the value of the account to another one. -/
structure AccountDiff.Moves (entry : AccountDiff) (x : PlainAccount) : Prop where
  balance : entry.balance.Moves id (x.info.getD .empty).balance
  nonce : entry.nonce.Moves id (x.info.getD .empty).nonce
  code : entry.code.Moves keccak256 (x.info.getD .empty).codeHash
  storage : ∀ k d, entry.storage.lookup k = some d → d.Moves id (x.storage k)

def AccountInfo.Coded (db : Database) (info : AccountInfo) : Prop :=
  info.isEmptyCodeHash = false →
    ∃ code, info.code.elim (db.getCodeByHash info.codeHash) .ok = .ok code ∧
      code.hashSlow = info.codeHash

/-- The changes start from the values of the account, with their codes at hand. -/
structure AccountChanges.Starts (db : Database) (x : PlainAccount) (c : AccountChanges) : Prop where
  original : c.original.map AccountInfo.plain = x.info
  slot : ∀ k slot, c.storage.slots.lookup k = some slot → slot.value.original = x.storage k
  originalCode : ∀ info, c.original = some info → info.Coded db
  currentCode : ∀ info, c.current = some info → info.Coded db

/-- What the entry of an account says of its change from `x` to `y`; there is none if nothing
changed. -/
structure Describes (entry : Option AccountDiff) (x y : PlainAccount) (selfdestructed : Bool) :
    Prop where
  same : (entry.elim x fun entry => entry.apply x).Same y
  moves : ∀ e, entry = some e → e.Moves x
  listed : ∀ e, entry = some e → y ≠ x ∨ selfdestructed = true

end Apply

/-! ## The entry of one account -/

section Delta

variable {α β : Type} {f : α → β} {old : β} {src dst : α}

theorem Delta.moves_changed (hsrc : f src = old) (hne : src ≠ dst) :
    (changed src dst).Moves f old := by
  rintro _ _ ⟨⟩
  exact ⟨hsrc, hne⟩

theorem Delta.between_describes [DecidableEq α] (src dst : α) :
    (between src dst).apply id src = dst ∧ (between src dst).Moves id src ∧
      ∀ v, between src dst ≠ removed v := by
  unfold between
  split_ifs with h
  · exact ⟨h, nofun, nofun⟩
  · exact ⟨rfl, moves_changed rfl h, nofun⟩

end Delta

namespace AccountDiff

variable {entry : AccountDiff} {storage : StorageOverlay} {delta : Tracked Word → Delta Word}

theorem lookup_insertSlots (he : entry.storage = ∅) (k : Word) :
    (entry.insertSlots storage delta).storage.lookup k =
      (storage.changedSlotMap.lookup k).map delta := by
  rw [insertSlots, Map.lookup_foldl_insert, Map.lookup_mapValues, he, AList.lookup_empty,
    Option.or_none]

theorem apply_of_not_removed [Keccak] (x : PlainAccount) (h : ∀ v, entry.balance ≠ .removed v) :
    let info := x.info.getD .empty
    entry.apply x = ⟨some ⟨entry.balance.apply id info.balance, entry.nonce.apply id info.nonce,
        entry.code.apply keccak256 info.codeHash⟩,
      fun k => ((entry.storage.lookup k).getD .unchanged).apply id (x.storage k)⟩ := by
  unfold apply
  cases hb : entry.balance with
  | removed v => exact absurd hb (h v)
  | _ => rfl

end AccountDiff

theorem AccountInfo.eq_iff_plain {x y : AccountInfo} : x.eq y = true ↔ x.plain = y.plain := by
  simp [eq_iff, plain]

section Entry

variable [Keccak] {db : Database} {c : AccountChanges} {x : PlainAccount} {info : AccountInfo}

theorem AccountInfo.Coded.load (h : info.Coded db) :
    ∃ code, loadAccountCode db info = .ok code ∧ keccak256 (code.getD []) = info.codeHash := by
  unfold loadAccountCode
  split_ifs with he
  · exact ⟨none, rfl, Keccak.keccak256_nil.trans (eq_of_beq he).symm⟩
  · obtain ⟨code, hcode, hhash⟩ := h (by simpa using he)
    refine ⟨some code.originalBytes, ?_, hhash⟩
    cases hc : info.code with
    | some code' =>
      rw [hc] at hcode
      cases hcode
      rfl
    | none =>
      rw [hc] at hcode
      change db.getCodeByHash info.codeHash = .ok code at hcode
      simp only [hcode, Except.map]

theorem AccountInfo.coded_default : AccountInfo.default.Coded db := nofun

theorem populateCode_describes {original : AccountInfo} (ho : original.Coded db)
    (hi : info.Coded db) : ∃ d, populateCode db original info .unchanged = .ok d ∧
      d.apply keccak256 original.codeHash = info.codeHash ∧
      d.Moves keccak256 original.codeHash := by
  obtain ⟨code, hcode, hhash⟩ := ho.load
  obtain ⟨code', hcode', hhash'⟩ := hi.load
  unfold populateCode
  split_ifs with he
  · exact ⟨_, rfl, he, nofun⟩
  · rw [hcode, hcode']
    refine ⟨_, rfl, hhash', Delta.moves_changed hhash fun hsame => he ?_⟩
    rw [← hhash, ← hhash', hsame]

theorem populateEntry_removed (h : c.Starts db x) (hcur : c.current = none)
    {original : AccountInfo} (horig : c.original = some original) :
    ∃ r, populateEntry db c {} = .ok r ∧ Describes r x (c.apply x) c.selfdestructed := by
  obtain ⟨code, hcode, -⟩ := (h.originalCode original horig).load
  have hx : x.info = some original.plain := by rw [← h.original, horig, Option.map_some]
  have hy : (c.apply x).info = none := by simp [AccountChanges.apply, hcur]
  refine ⟨_, by simp only [populateEntry, hcur, horig, Option.getD_some, hcode]; rfl, ?_, ?_, ?_⟩
  · exact ⟨by rw [hy]; rfl, fun k => by simp [AccountDiff.apply, AccountChanges.apply, hcur]⟩
  · rintro e ⟨⟩
    exact ⟨nofun, nofun, nofun, nofun⟩
  · intro e _
    left
    intro heq
    rw [heq, hx] at hy
    cases hy

section Present

variable (hz : c.storage.wiped = true → ∀ k, x.storage k = 0)

include hz

theorem AccountChanges.changed_slot (h : c.Starts db x) {k : Word} {value : Tracked Word}
    (hk : c.storage.changedSlotMap.lookup k = some value) :
    value.original = x.storage k ∧ value.original ≠ value.current := by
  rw [StorageOverlay.changedSlotMap, Map.lookup_filterMapValues] at hk
  obtain ⟨slot, hslot, hv⟩ := Option.bind_eq_some_iff.mp hk
  unfold StorageOverlay.changedValue StorageSlot.isChanged at hv
  have ho := h.slot k slot hslot
  split_ifs at hv with hw hc hc
  · cases hv
    refine ⟨ho, ?_⟩
    rw [ho, hz hw k]
    exact (bne_iff_ne.mp hc).symm
  · cases hv
    exact ⟨ho, bne_iff_ne.mp hc⟩

variable (hcur : c.current = some info)

include hcur

omit [Keccak] in
theorem AccountChanges.storage_apply (k : Word) : (c.apply x).storage k =
      ((c.storage.changedSlotMap.lookup k).map Tracked.current).getD (x.storage k) := by
  simp only [apply, written, hcur]
  cases c.storage.changedSlotMap.lookup k with
  | some value => rfl
  | none =>
    by_cases hw : c.storage.wiped = true
    · simp [hw, hz hw k]
    · simp [hw]

theorem AccountChanges.storage_apply_ne (h : c.Starts db x) {k : Word} {value : Tracked Word}
    (hk : c.storage.changedSlotMap.lookup k = some value) : c.apply x ≠ x := by
  intro heq
  have hs := storage_apply hz hcur k
  obtain ⟨ho, hne⟩ := AccountChanges.changed_slot hz h hk
  rw [heq, hk, ← ho] at hs
  exact hne hs

omit [Keccak] in
theorem AccountChanges.apply_slots {entry : AccountDiff} {delta : Tracked Word → Delta Word}
    (he : entry.storage = ∅) (hd : ∀ value old, (delta value).apply id old = value.current)
    (k : Word) :
    (((entry.insertSlots c.storage delta).storage.lookup k).getD .unchanged).apply id
      (x.storage k) = (c.apply x).storage k := by
  rw [AccountDiff.lookup_insertSlots he, storage_apply hz hcur]
  cases c.storage.changedSlotMap.lookup k with
  | none => rfl
  | some value => exact hd value _

theorem populateEntry_added (h : c.Starts db x) (horig : c.original = none)
    (hnew : (c.created || !info.isEmpty) = true) :
    ∃ r, populateEntry db c {} = .ok r ∧ Describes r x (c.apply x) c.selfdestructed := by
  obtain ⟨code, hcode, hhash⟩ := (h.currentCode info hcur).load
  have hx : x.info = none := by rw [← h.original, horig, Option.map_none]
  have hy : (c.apply x).info = some info.plain := by simp [AccountChanges.apply, hcur]
  refine ⟨_, by simp only [populateEntry, hcur, horig, Option.isNone_none, hnew, hcode]; rfl,
    ?_, ?_, ?_⟩
  · rw [Option.elim_some, AccountDiff.apply_of_not_removed x (by rintro v ⟨⟩)]
    refine ⟨?_, AccountChanges.apply_slots hz hcur rfl fun _ _ => rfl⟩
    rw [hy]
    simp only [AccountDiff.insertSlots, Delta.apply, hhash]
    rfl
  · rintro e ⟨⟩
    refine ⟨nofun, nofun, nofun, fun k d hk src dst hd => ?_⟩
    rw [AccountDiff.lookup_insertSlots rfl, hd] at hk
    obtain ⟨value, -, hv⟩ := Option.map_eq_some_iff.mp hk
    cases hv
  · intro e _
    left
    intro heq
    rw [heq, hx] at hy
    cases hy

theorem populateEntry_kept (h : c.Starts db x)
    (hnew : (c.original.isNone && (c.created || !info.isEmpty)) = false) :
    ∃ r, populateEntry db c {} = .ok r ∧ Describes r x (c.apply x) c.selfdestructed := by
  obtain ⟨original, ho⟩ : ∃ o, c.original.getD .default = o := ⟨_, rfl⟩
  have hcoded : original.Coded db := by
    cases hc : c.original with
    | none => exact ho ▸ hc ▸ AccountInfo.coded_default
    | some o => exact ho ▸ hc ▸ h.originalCode o hc
  have hx : x.info.getD .empty = original.plain := by
    rw [← h.original, ← ho]
    cases c.original <;> rfl
  have hy : (c.apply x).info = some info.plain := by simp [AccountChanges.apply, hcur]
  obtain ⟨d, hd, hcode, hmoves⟩ := populateCode_describes hcoded (h.currentCode info hcur)
  obtain ⟨e, he⟩ : ∃ e, AccountDiff.insertSlots { code := d } c.storage
    (fun slot => .changed slot.original slot.current) = e := ⟨_, rfl⟩
  have hlookup : ∀ k, e.storage.lookup k =
      (c.storage.changedSlotMap.lookup k).map fun slot => .changed slot.original slot.current :=
    fun k => he ▸ AccountDiff.lookup_insertSlots rfl k
  have hslots : ∀ k, ((e.storage.lookup k).getD .unchanged).apply id (x.storage k) =
      (c.apply x).storage k :=
    fun k => he ▸ AccountChanges.apply_slots hz hcur rfl (fun _ _ => rfl) k
  have hecode : e.code = d := he ▸ rfl
  have hrun : populateEntry db c {} = .ok
      (if e.storage.entries.isEmpty && original.eq info && !c.selfdestructed then none
      else some { e with
        balance := .between original.balance info.balance
        nonce := .between original.nonce info.nonce }) := by
    simp only [populateEntry, hcur, hnew, ho, hd, Bool.false_eq_true, if_false]
    change (if _ then _ else _) = _
    rw [he]
    split_ifs <;> rfl
  obtain ⟨hb, hbmoves, hbr⟩ := Delta.between_describes original.balance info.balance
  obtain ⟨hn, hnmoves, -⟩ := Delta.between_describes original.nonce info.nonce
  refine ⟨_, hrun, ?_⟩
  split_ifs with hsame
  · simp only [Bool.and_eq_true, List.isEmpty_iff, AccountInfo.eq_iff_plain] at hsame
    obtain ⟨⟨hempty, hinfo⟩, -⟩ := hsame
    refine ⟨⟨?_, fun k => ?_⟩, nofun, nofun⟩
    · rw [hy, Option.elim_none, hx, Option.getD_some, hinfo]
    · rw [← hslots, AList.lookup, hempty]
      rfl
  · refine ⟨?_, ?_, ?_⟩
    · rw [Option.elim_some, AccountDiff.apply_of_not_removed x hbr]
      refine ⟨?_, hslots⟩
      simp only [hy, hx, Option.getD_some, hecode]
      exact congr (congr (congrArg _ hb) hn) hcode
    · rintro _ ⟨⟩
      refine ⟨hx ▸ hbmoves, hx ▸ hnmoves, hx ▸ hecode ▸ hmoves, fun k d hk => ?_⟩
      obtain ⟨value, hv, rfl⟩ := Option.map_eq_some_iff.mp ((hlookup k).symm.trans hk)
      obtain ⟨hsrc, hne⟩ := AccountChanges.changed_slot hz h hv
      exact Delta.moves_changed hsrc hne
    · intro _ _
      by_contra hno
      simp only [not_or, not_not, Bool.not_eq_true] at hno
      obtain ⟨hyx, hsd⟩ := hno
      have heq : original.eq info = true := by
        rw [hyx] at hy
        rw [AccountInfo.eq_iff_plain, ← hx, hy, Option.getD_some]
      have hempty : e.storage.entries = [] := by
        rw [List.eq_nil_iff_forall_not_mem]
        intro entry hmem
        have hk := (hlookup entry.1).symm.trans (AList.mem_lookup_iff.mpr hmem)
        obtain ⟨value, hv, -⟩ := Option.map_eq_some_iff.mp hk
        exact AccountChanges.storage_apply_ne hz hcur h hv hyx
      exact hsame (by simp [hempty, heq, hsd])

end Present

theorem populateEntry_describes (h : c.Starts db x)
    (hz : c.current.isSome → c.storage.wiped = true → ∀ k, x.storage k = 0)
    (hc : (c.current.isNone && c.original.isNone) = false) :
    ∃ r, populateEntry db c {} = .ok r ∧ Describes r x (c.apply x) c.selfdestructed := by
  cases hcur : c.current with
  | none =>
    obtain ⟨original, horig⟩ : ∃ o, c.original = some o := by
      rw [hcur] at hc
      exact Option.isSome_iff_exists.mp (by simpa using hc)
    exact populateEntry_removed h hcur horig
  | some info =>
    have hz' := hz (by rw [hcur]; rfl)
    cases hnew : c.original.isNone && (c.created || !info.isEmpty) with
    | false => exact populateEntry_kept hz' hcur h hnew
    | true =>
      obtain ⟨horig, hnew⟩ := Bool.and_eq_true_iff.mp hnew
      exact populateEntry_added hz' hcur h (Option.isNone_iff_eq_none.mp horig) hnew

end Entry

/-! ## The diff of a transaction -/

section Run

variable [Keccak] {db : Database}

theorem describes_absent {c : AccountChanges} {x : PlainAccount} (h : c.Starts db x)
    (hx : x.Regular) (hcur : c.current = none) (horig : c.original = none) :
    Describes none x (c.apply x) c.selfdestructed := by
  have hinfo : x.info = none := by rw [← h.original, horig, Option.map_none]
  refine ⟨⟨?_, fun k => ?_⟩, nofun, nofun⟩
  · simp [AccountChanges.apply, hcur, hinfo]
  · simp [AccountChanges.apply, hcur, hx (by simp [PlainAccount.hasNoNonceAndCode, hinfo])]

theorem populateAccount_describes {c : AccountChanges} {x : PlainAccount} {diff : StateDiff}
    (h : c.Starts db x) (hx : x.Regular)
    (hkept : c.current.isSome → c.storage.wiped = true → ∀ k, x.storage k = 0)
    (hfresh : diff.lookup c.address = none) :
    ∃ diff', populateAccount db diff c = .ok diff' ∧
      Describes (diff'.lookup c.address) x (c.apply x) c.selfdestructed ∧
      ∀ a, a ≠ c.address → diff'.lookup a = diff.lookup a := by
  cases hc : c.current.isNone && c.original.isNone with
  | true =>
    obtain ⟨hcur, horig⟩ := Bool.and_eq_true_iff.mp hc
    refine ⟨diff, by rw [populateAccount, if_pos hc]; rfl, ?_, fun _ _ => rfl⟩
    rw [hfresh]
    exact describes_absent h hx (Option.isNone_iff_eq_none.mp hcur)
      (Option.isNone_iff_eq_none.mp horig)
  | false =>
    obtain ⟨r, hr, hdesc⟩ := populateEntry_describes h hkept hc
    have hrun : populateAccount db diff c = .ok (r.elim (diff.erase c.address) fun entry =>
        diff.insert c.address entry) := by
      rw [populateAccount, hc, if_neg Bool.false_ne_true, hfresh, Option.getD_none, hr]
      cases r <;> rfl
    refine ⟨_, hrun, ?_, fun a ha => ?_⟩
    · cases r with
      | none | some entry => simpa using hdesc
    · cases r with
      | none | some entry => simp [ha]

theorem populate_describes {D : PlainState} (hD : ∀ a, (D a).Regular)
    (changes : List AccountChanges) (hnodup : (changes.map AccountChanges.address).Nodup)
    (hc : ∀ c ∈ changes, c.Starts db (D c.address))
    (hkept : ∀ c ∈ changes, c.current.isSome → c.storage.wiped = true →
      ∀ k, (D c.address).storage k = 0) (diff : StateDiff)
    (hfresh : ∀ c ∈ changes, diff.lookup c.address = none) :
    ∃ diff', changes.foldlM (populateAccount db) diff = .ok diff' ∧
      (∀ c ∈ changes, Describes (diff'.lookup c.address) (D c.address) (c.apply (D c.address))
        c.selfdestructed) ∧
      ∀ a, a ∉ changes.map AccountChanges.address → diff'.lookup a = diff.lookup a := by
  induction changes generalizing diff with
  | nil => exact ⟨diff, rfl, nofun, fun _ _ => rfl⟩
  | cons c changes ih =>
    obtain ⟨hnot, hnodup⟩ := List.nodup_cons.mp hnodup
    have hne : ∀ c' ∈ changes, c'.address ≠ c.address := fun c' hc' heq =>
      hnot (heq ▸ List.mem_map_of_mem hc')
    obtain ⟨diff₁, hrun₁, hdesc, hother⟩ := populateAccount_describes
      (hc c List.mem_cons_self) (hD _) (hkept c List.mem_cons_self) (hfresh c List.mem_cons_self)
    obtain ⟨diff₂, hrun₂, hdescs, hothers⟩ := ih hnodup
      (fun c' h => hc c' (List.mem_cons_of_mem _ h))
      (fun c' h => hkept c' (List.mem_cons_of_mem _ h)) diff₁ fun c' h => by
        rw [hother _ (hne c' h)]
        exact hfresh c' (List.mem_cons_of_mem _ h)
    refine ⟨diff₂, ?_, ?_, ?_⟩
    · rw [List.foldlM_cons, hrun₁]
      exact hrun₂
    · intro c' hc'
      obtain rfl | hc' := List.mem_cons.mp hc'
      · rwa [hothers _ hnot]
      · exact hdescs c' hc'
    · intro a ha
      rw [List.map_cons, List.mem_cons, not_or] at ha
      rw [hothers a ha.2, hother a ha.1]

omit [Keccak] in
theorem PlainState.commitAll_apply (changes : List AccountChanges)
    (hnodup : (changes.map AccountChanges.address).Nodup) (D : PlainState) :
    (∀ c ∈ changes, D.commitAll changes c.address = c.apply (D c.address)) ∧
      ∀ a, a ∉ changes.map AccountChanges.address → D.commitAll changes a = D a := by
  induction changes generalizing D with
  | nil => exact ⟨nofun, fun _ _ => rfl⟩
  | cons c changes ih =>
    obtain ⟨hnot, hnodup⟩ := List.nodup_cons.mp hnodup
    obtain ⟨hin, hout⟩ := ih hnodup (D.commit c)
    refine ⟨fun c' hc' => ?_, fun a ha => ?_⟩
    · obtain rfl | hc' := List.mem_cons.mp hc'
      · exact (hout _ hnot).trans (Function.update_self _ _ _)
      · refine (hin c' hc').trans ?_
        have hne : c'.address ≠ c.address := fun heq => hnot (heq ▸ List.mem_map_of_mem hc')
        rw [commit, Function.update_of_ne hne]
    · rw [List.map_cons, List.mem_cons, not_or] at ha
      exact (hout a ha.2).trans (Function.update_of_ne ha.1 _ _)

/-- **The diff of a transaction describes the state after it**, if an account that is there after
its storage was wiped had no nonzero slot. -/
theorem populateStateDiff_describes (db : Database) (D : PlainState) (hD : ∀ a, (D a).Regular)
    (pending : PendingState) (hp : ∀ c ∈ pending.accountChanges, c.Starts db (D c.address))
    (hkept : ∀ c ∈ pending.accountChanges, c.current.isSome → c.storage.wiped = true →
      ∀ k, (D c.address).storage k = 0) :
    ∃ diff, populateStateDiff db pending ∅ = .ok diff ∧
      (∀ a, (diff.apply D a).Same (D.commitAll pending.accountChanges a)) ∧
      (∀ a entry, diff.lookup a = some entry → entry.Moves (D a)) ∧
      ∀ a entry, diff.lookup a = some entry → D.commitAll pending.accountChanges a ≠ D a ∨
        ∃ c ∈ pending.accountChanges, c.address = a ∧ c.selfdestructed = true := by
  have hnodup := pending.nodup_accountChanges
  obtain ⟨diff, hrun, hdesc, hother⟩ :=
    populate_describes hD _ hnodup hp hkept ∅ fun _ _ => AList.lookup_empty _
  obtain ⟨hin, hout⟩ := PlainState.commitAll_apply _ hnodup D
  have hnone : ∀ a, a ∉ pending.accountChanges.map AccountChanges.address → diff.lookup a = none :=
    fun a ha => (hother a ha).trans (AList.lookup_empty _)
  refine ⟨diff, hrun, fun a => ?_, fun a entry ha => ?_, fun a entry ha => ?_⟩
  · by_cases hmem : a ∈ pending.accountChanges.map AccountChanges.address
    · obtain ⟨c, hc, rfl⟩ := List.mem_map.mp hmem
      rw [hin c hc]
      exact (hdesc c hc).same
    · rw [hout a hmem, StateDiff.apply, hnone a hmem]
      exact ⟨rfl, fun _ => rfl⟩
  · obtain ⟨c, hc, rfl⟩ := List.mem_map.mp (not_imp_comm.mp (hnone a) (by simp [ha]))
    exact (hdesc c hc).moves entry ha
  · obtain ⟨c, hc, rfl⟩ := List.mem_map.mp (not_imp_comm.mp (hnone a) (by simp [ha]))
    rw [hin c hc]
    exact ((hdesc c hc).listed entry ha).imp_right fun hs => ⟨c, hc, rfl, hs⟩

end Run

theorem populateStateDiff_describes_create :
    letI := Keccak.const
    ∃ diff, populateStateDiff .empty createPending ∅ = .ok diff ∧
      (diff.apply .empty 1).Same (PlainState.empty.commitAll createPending.accountChanges 1) := by
  let _ := Keccak.const
  have hmem : ∀ c ∈ createPending.accountChanges, c.Starts .empty (PlainState.empty c.address) ∧
      c.storage.wiped = false := by
    intro c hc
    obtain rfl := List.mem_singleton.mp hc
    refine ⟨⟨rfl, fun k slot hk => ?_, nofun, fun info hi => ?_⟩, rfl⟩
    · obtain ⟨-, rfl⟩ := Map.lookup_singleton_eq_some hk
      rfl
    · cases hi
      exact nofun
  obtain ⟨diff, hrun, hsame, -⟩ := populateStateDiff_describes .empty .empty (fun _ _ _ => rfl)
    createPending (fun c hc => (hmem c hc).1)
    fun c hc _ hw => absurd ((hmem c hc).2.symm.trans hw) Bool.false_ne_true
  exact ⟨diff, hrun, hsame 1⟩

/-! ## A contract that keeps its balance -/

section Survivor

/-- A stand-in for the hash function by which code differs from no code. -/
@[reducible] def Keccak.nonempty : Keccak := ⟨fun bs => if bs = [] then KECCAK256_EMPTY else 1, rfl⟩

/-- A contract with the balance 5, the nonce 1 and the value 7 in slot 0. -/
def contractState : PlainState :=
  Function.update PlainState.empty 1000
    ⟨some ⟨5, 1, 1⟩, fun k => if k = 0 then 7 else 0⟩

/-- Its code destroys it, with itself as the beneficiary. -/
def contractDatabase : Database where
  getAccount a := .ok (if a = 1000 then some ⟨5, 1, 1, none⟩ else none)
  getCodeByHash _ := .ok (.legacy [0x30#8, 0xFF#8])
  getStorage a k := .ok ((contractState a).storage k)
  getBlockHash _ := .ok 0

/-- Amsterdam without EIP-6780. -/
def survivorFeatures : EvmFeatures := (Version.base .amsterdam).features.remove .eip6780

/-- The contract destroys itself and keeps its balance, by EIP-8246. -/
def survivorPending [Keccak] : PendingState where
  accounts := ((State.finalizeTransaction contractDatabase survivorFeatures).run
    (StateOp.run contractDatabase survivorFeatures State.new
      (.account 1000 false [.markDestructed]))).2.accounts

def survivor : Account where
  original := some ⟨5, 1, 1, none⟩
  present := some { AccountInfo.default with balance := 5 }
  flags := { AccountFlags.empty with touched := true, destroyed := true }
  storage := ⟨true, ∅⟩

theorem accounts_survivorPending [Keccak] :
    survivorPending.accountChanges = [survivor.changes 1000] := by
  rfl

/-- The diff does not list the slot of the wiped storage. -/
theorem populateStateDiff_misses_wipe :
    letI := Keccak.nonempty
    (∀ a, (contractState a).Regular) ∧
      (∀ c ∈ survivorPending.accountChanges,
        c.Starts contractDatabase (contractState c.address)) ∧
      ∃ diff, populateStateDiff contractDatabase survivorPending ∅ = .ok diff ∧
        (diff.apply contractState 1000).storage 0 = 7 ∧
        (contractState.commitAll survivorPending.accountChanges 1000).storage 0 = 0 := by
  let _ := Keccak.nonempty
  refine ⟨fun a => ?_, ?_, ?_⟩
  · by_cases ha : a = 1000
    · subst ha
      intro hno
      exact absurd (hno _ rfl).1 (by decide)
    · intro _ k
      rw [contractState, Function.update_of_ne ha]
      rfl
  · intro c hc
    rw [accounts_survivorPending] at hc
    obtain rfl := List.mem_singleton.mp hc
    refine ⟨rfl, nofun, ?_, ?_⟩
    · rintro _ ⟨⟩ _
      exact ⟨_, rfl, rfl⟩
    · rintro _ ⟨⟩
      exact nofun
  · refine ⟨AList.singleton 1000
      { nonce := .changed 1 0, code := .changed [0x30#8, 0xFF#8] [] }, rfl, rfl, rfl⟩

end Survivor

end Evm2
