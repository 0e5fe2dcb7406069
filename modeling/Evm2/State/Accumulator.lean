import Evm2.Lib.Sorted
import Evm2.State.Stream

/-!
# The block accumulator

`BlockStateAccumulator` sums up the changes of the transactions of a block, and is itself a source
of changes.
-/

namespace Evm2

/-- `BlockStateAccumulator`. `storageWipes` is a set. -/
structure BlockStateAccumulator where
  accounts : Map Address (Tracked (Option AccountInfo))
  storageWipes : Map Address Unit
  storage : Map Address (Map Word (Tracked Word))
  code : Map B256 Bytecode

/-! ## One account -/

/-- What an accumulator has of one account: its delta, its storage-wipe marker and its slots. -/
structure AccountDelta where
  delta : Option (Tracked (Option AccountInfo))
  wiped : Bool
  slots : Option (Map Word (Tracked Word))

def someSlots (slots : Map Word (Tracked Word)) : Option (Map Word (Tracked Word)) :=
  if slots.entries.isEmpty then none else some slots

namespace AccountDelta

def empty : AccountDelta := ⟨none, false, none⟩

def setDelta (delta : Option (Tracked (Option AccountInfo)))
    (original current : Option AccountInfo) : Option (Tracked (Option AccountInfo)) :=
  match delta with
  | some delta => if optInfoEq delta.original current then none else some ⟨delta.original, current⟩
  | none => if optInfoEq original current then none else some ⟨original, current⟩

def account (x : AccountDelta) (change : AccountChangeRef) : AccountDelta :=
  let original := change.original.map AccountInfo.cloneNoCode
  let current := change.current.map AccountInfo.cloneNoCode
  let delta := setDelta x.delta original current
  let created := x.delta.isNone && delta.isSome && original.isNone
  if current.isNone then ⟨delta, delta.isSome, none⟩
  else if created then
    ⟨delta, false, x.slots.bind fun slots => someSlots (slots.filterMapValues fun slot =>
      if slot.current = 0 then none else some ⟨0, slot.current⟩)⟩
  else { x with delta := delta }

def storageWipe (x : AccountDelta) : AccountDelta :=
  { x with
    wiped := x.wiped || x.delta.elim true fun delta => delta.original.isSome
    slots := none }

def created (x : AccountDelta) : Bool := x.delta.elim false fun delta => delta.original.isNone

def replaced (x : AccountDelta) : Bool := x.wiped || x.created

def setSlot (created replaced : Bool) (original current : Word) (slot : Option (Tracked Word)) :
    Option (Tracked Word) :=
  match slot with
  | some slot =>
    if (replaced && current == 0) || (!replaced && slot.original == current) then none
    else some { slot with current := current }
  | none =>
    if (replaced && current != 0) || (!replaced && original != current) then
      some ⟨if created then 0 else original, current⟩
    else none

def storage (x : AccountDelta) (key original current : Word) : AccountDelta :=
  { x with
    slots := someSlots
      ((x.slots.getD ∅).alter key (setSlot x.created x.replaced original current)) }

def receive (x : AccountDelta) : StateChange → AccountDelta
  | .account change => x.account change
  | .storageWipe _ => x.storageWipe
  | .storage change => x.storage change.key change.original change.current
  | .bytecode _ _ | .accountRead _ _ | .storageRead _ _ _ => x

end AccountDelta

namespace BlockStateAccumulator

def new : BlockStateAccumulator := ⟨∅, ∅, ∅, ∅⟩

def accountDelta (acc : BlockStateAccumulator) (a : Address) : AccountDelta :=
  ⟨acc.accounts.lookup a, (acc.storageWipes.lookup a).isSome, acc.storage.lookup a⟩

def setAccountDelta (acc : BlockStateAccumulator) (a : Address) (x : AccountDelta) :
    BlockStateAccumulator :=
  { acc with
    accounts := acc.accounts.alter a fun _ => x.delta
    storageWipes := acc.storageWipes.alter a fun _ => if x.wiped then some () else none
    storage := acc.storage.alter a fun _ => x.slots }

def receiveAt (acc : BlockStateAccumulator) (a : Address) (change : StateChange) :
    BlockStateAccumulator :=
  acc.setAccountDelta a ((acc.accountDelta a).receive change)

def sink (acc : BlockStateAccumulator) (change : StateChange) : BlockStateAccumulator :=
  match change with
  | .bytecode codeHash code => { acc with code := acc.code.adjust codeHash code id }
  | .account ref => acc.receiveAt ref.address change
  | .storageWipe address => acc.receiveAt address change
  | .storage ref => acc.receiveAt ref.address change
  | .accountRead _ _ | .storageRead _ _ _ => acc

/-- `BlockStateAccumulator::storage_wipes`: an account deleted by the block is not listed. -/
def isListedWipe (acc : BlockStateAccumulator) (a : Address) : Bool :=
  (acc.accounts.lookup a).elim true fun delta => delta.current.isSome

def visitCode (acc : BlockStateAccumulator) : List StateChange :=
  acc.code.sortedEntries.map fun e => .bytecode e.1 e.2

/-- The calls of `visit_block_changes` after those for bytecode, with
`BlockStateAccumulator::storage_wipes_sorted`. -/
def visitAccounts (acc : BlockStateAccumulator) : List StateChange :=
  acc.storageWipes.sortedEntries.flatMap (fun e =>
      if acc.isListedWipe e.1 then [.storageWipe e.1] else []) ++
    acc.storage.sortedEntries.flatMap (fun e => e.2.sortedEntries.map fun slot =>
      .storage ⟨e.1, slot.1, slot.2.original, slot.2.current⟩) ++
    acc.accounts.sortedEntries.flatMap fun e =>
      [.account ⟨e.1, e.2.original, e.2.current, false, false⟩]

def visit (acc : BlockStateAccumulator) : List StateChange := acc.visitCode ++ acc.visitAccounts

/-! ## One account at a time -/

theorem accountDelta_setAccountDelta (acc : BlockStateAccumulator) (a a' : Address)
    (x : AccountDelta) :
    (acc.setAccountDelta a x).accountDelta a' = if a' = a then x else acc.accountDelta a' := by
  unfold accountDelta setAccountDelta
  simp only [Map.lookup_alter]
  by_cases h : a' = a
  · cases x with
    | mk delta wiped slots => cases wiped <;> simp [h]
  · simp [h]

theorem accountDelta_sink (a : Address) (acc : BlockStateAccumulator) (change : StateChange) :
    (acc.sink change).accountDelta a =
      if change.isAbout a then (acc.accountDelta a).receive change else acc.accountDelta a := by
  have hat : ∀ a', (acc.receiveAt a' change).accountDelta a =
      if (a' == a) = true then (acc.accountDelta a).receive change else acc.accountDelta a := by
    intro a'
    rw [receiveAt, accountDelta_setAccountDelta]
    by_cases h : a' = a
    · subst h
      simp
    · simp [h, Ne.symm h]
  cases change with
  | bytecode codeHash code => rfl
  | account ref => exact hat ref.address
  | storageWipe address => exact hat address
  | storage ref => exact hat ref.address
  | accountRead address info | storageRead address key value => simp [sink, AccountDelta.receive]

theorem accountDelta_foldl (a : Address) (changes : List StateChange)
    (acc : BlockStateAccumulator) :
    (changes.foldl sink acc).accountDelta a =
      (changes.filter (StateChange.isAbout a)).foldl AccountDelta.receive (acc.accountDelta a) :=
  Fold.foldl_proj (fun acc : BlockStateAccumulator => acc.accountDelta a) AccountDelta.receive
    (accountDelta_sink a) changes acc

end BlockStateAccumulator

/-! ## Slots -/

theorem lookup_someSlots (slots : Map Word (Tracked Word)) (k : Word) :
    ((someSlots slots).bind fun m => m.lookup k) = slots.lookup k := by
  unfold someSlots
  split_ifs with h
  · have hempty : slots = ∅ := AList.ext (List.isEmpty_iff.mp h)
    rw [hempty]
    rfl
  · rfl

theorem someSlots_ne_nil {slots m : Map Word (Tracked Word)} (h : someSlots slots = some m) :
    m.entries ≠ [] := by
  unfold someSlots at h
  split_ifs at h with he
  cases h
  simpa using he

namespace AccountDelta

variable {x : AccountDelta}

def slot (x : AccountDelta) (k : Word) : Option (Tracked Word) := x.slots.bind fun m => m.lookup k

theorem slot_storage (x : AccountDelta) (key original current k : Word) :
    (x.storage key original current).slot k =
      if k = key then setSlot x.created x.replaced original current (x.slot key) else x.slot k := by
  have hget : ∀ k, (x.slots.getD ∅).lookup k = x.slot k := by
    intro k
    unfold slot
    cases x.slots <;> rfl
  unfold storage
  simp only [slot]
  rw [lookup_someSlots, Map.lookup_alter, hget, hget]
  rfl

/-- What holds after every call of the sink. -/
structure Sound (x : AccountDelta) : Prop where
  changed : ∀ d, x.delta = some d → optInfoEq d.original d.current = false
  noCode : ∀ d, x.delta = some d → d.original.map AccountInfo.cloneNoCode = d.original ∧
    d.current.map AccountInfo.cloneNoCode = d.current
  created : x.created = true → x.wiped = false ∧ ∀ k s, x.slot k = some s → s.original = 0
  deleted : ∀ d, x.delta = some d → d.current = none → x.wiped = true
  slot : ∀ k s, x.slot k = some s →
    if x.replaced then s.current ≠ 0 else s.original ≠ s.current
  nonempty : ∀ m, x.slots = some m → m.entries ≠ []

/-- What holds after all calls for the changes of a transaction: a deleted account has no slots. -/
structure Settled (x : AccountDelta) : Prop extends Sound x where
  noSlots : ∀ d, x.delta = some d → d.current = none → x.slots = none

theorem settled_empty : Settled empty := by
  constructor <;> try constructor
  all_goals simp [empty, created, slot]

theorem Sound.storageWipe (h : x.Sound) : x.storageWipe.Sound where
  changed := h.changed
  noCode := h.noCode
  created hc := by
    have hw := (h.created hc).1
    refine ⟨?_, by simp [AccountDelta.storageWipe, AccountDelta.slot]⟩
    unfold AccountDelta.storageWipe
    cases hd : x.delta with
    | none => simp [AccountDelta.storageWipe, AccountDelta.created, hd] at hc
    | some d =>
      have ho : d.original.isNone = true := by
        simpa [AccountDelta.storageWipe, AccountDelta.created, hd] using hc
      simp [hw, Option.isNone_iff_eq_none.mp ho]
  deleted d hd hn := by
    simp only [AccountDelta.storageWipe, h.deleted d hd hn, Bool.true_or]
  slot k s hk := by simp [AccountDelta.storageWipe, AccountDelta.slot] at hk
  nonempty m hm := by simp [AccountDelta.storageWipe] at hm

theorem Sound.storage (h : x.Sound) (key original current : Word) :
    (x.storage key original current).Sound where
  changed := h.changed
  noCode := h.noCode
  created hc := by
    obtain ⟨hw, ho⟩ := h.created hc
    have hc' : x.created = true := hc
    refine ⟨hw, fun k s hk => ?_⟩
    rw [slot_storage] at hk
    split_ifs at hk with hkey
    · cases hs : x.slot key with
      | none =>
        rw [hs] at hk
        simp only [setSlot] at hk
        split_ifs at hk
        cases hk
        rfl
      | some old =>
        rw [hs] at hk
        simp only [setSlot] at hk
        split_ifs at hk
        cases hk
        exact ho key old hs
    · exact ho k s hk
  deleted := h.deleted
  slot k s hk := by
    change if x.replaced = true then s.current ≠ 0 else s.original ≠ s.current
    rw [slot_storage] at hk
    split_ifs at hk with hkey
    · have hcr : x.created = true → x.replaced = true := fun hc => by simp [replaced, hc]
      generalize x.replaced = replaced at *
      generalize x.created = created at *
      unfold setSlot at hk
      cases x.slot key with
      | none => grind
      | some old => grind
    · exact h.slot k s hk
  nonempty m hm := someSlots_ne_nil hm

theorem setDelta_eq_some {delta : Option (Tracked (Option AccountInfo))}
    {original current : Option AccountInfo} {d : Tracked (Option AccountInfo)}
    (h : setDelta delta original current = some d) :
    optInfoEq d.original d.current = false ∧ d.current = current ∧
      d.original = delta.elim original Tracked.original := by
  cases delta with
  | none | some old =>
    simp only [setDelta] at h
    split_ifs at h with he
    cases h
    exact ⟨by simpa using he, rfl, rfl⟩

theorem created_setDelta {original current : Option AccountInfo} (hn : current ≠ none)
    (hcr : ¬(x.delta.isNone && (setDelta x.delta original current).isSome &&
      original.isNone) = true) :
    ({ x with delta := setDelta x.delta original current } : AccountDelta).created = x.created := by
  unfold created
  cases hd : setDelta x.delta original current with
  | none =>
    cases hx : x.delta with
    | none => rfl
    | some old =>
      rw [hx] at hd
      simp only [setDelta] at hd
      split_ifs at hd with he
      have : old.original ≠ none := by
        intro ho
        rw [ho] at he
        cases hc : current with
        | none => exact hn hc
        | some c => rw [hc] at he; cases he
      simpa [Option.isSome_iff_ne_none] using this
  | some d =>
    obtain ⟨-, -, ho⟩ := setDelta_eq_some hd
    cases hx : x.delta with
    | none =>
      rw [hx] at ho
      simp only [Option.elim_none] at ho
      rw [hd, hx] at hcr
      simpa [ho, Option.isSome_iff_ne_none] using hcr
    | some old =>
      rw [hx] at ho
      simp only [Option.elim_some] at ho ⊢
      rw [ho]

theorem cloneNoCode_cloneNoCode (info : Option AccountInfo) :
    (info.map AccountInfo.cloneNoCode).map AccountInfo.cloneNoCode =
      info.map AccountInfo.cloneNoCode := by
  cases info <;> rfl

theorem Sound.account (h : x.Sound) (change : AccountChangeRef) :
    (x.account change).Settled := by
  set original := change.original.map AccountInfo.cloneNoCode with horiginal
  set current := change.current.map AccountInfo.cloneNoCode with hcurrent
  have hset := @setDelta_eq_some x.delta original current
  have hclone : ∀ d, setDelta x.delta original current = some d →
      d.original.map AccountInfo.cloneNoCode = d.original ∧
        d.current.map AccountInfo.cloneNoCode = d.current := by
    intro d hd
    obtain ⟨-, hc, ho⟩ := hset hd
    rw [hc, ho, hcurrent, cloneNoCode_cloneNoCode]
    refine ⟨?_, rfl⟩
    cases hx : x.delta with
    | none => exact cloneNoCode_cloneNoCode _
    | some old => exact (h.noCode old hx).1
  unfold AccountDelta.account
  simp only [← horiginal, ← hcurrent]
  by_cases hn : current.isNone = true
  · -- a deletion: what is left of the delta had an account before
    rw [if_pos hn]
    have hnc : ∀ d, setDelta x.delta original current = some d → d.original ≠ none := by
      intro d hd ho
      obtain ⟨hch, hc, -⟩ := hset hd
      rw [ho, hc, Option.isNone_iff_eq_none.mp hn] at hch
      cases hch
    refine ⟨⟨fun d hd => (hset hd).1, hclone, fun hc => ?_, fun d hd _ => ?_, fun k s hk => ?_,
      fun m hm => ?_⟩, fun d _ _ => rfl⟩
    · cases hd : setDelta x.delta original current with
      | none => simp [AccountDelta.created, hd] at hc
      | some d =>
        simp only [AccountDelta.created, hd, Option.elim_some] at hc
        exact absurd (Option.isNone_iff_eq_none.mp hc) (hnc d hd)
    · have hd' : setDelta x.delta original current = some d := hd
      simp [hd']
    · cases hk
    · cases hm
  rw [if_neg hn]
  have hlive : ∀ d, setDelta x.delta original current = some d → d.current ≠ none := by
    intro d hd hc
    rw [(hset hd).2.1] at hc
    exact hn (Option.isNone_iff_eq_none.mpr hc)
  by_cases hcr : (x.delta.isNone && (setDelta x.delta original current).isSome &&
      original.isNone) = true
  · -- the slots recorded so far belong to the new account
    rw [if_pos hcr]
    have hslot : ∀ k s, ((x.slots.bind fun slots => someSlots (slots.filterMapValues fun slot =>
        if slot.current = 0 then none else some ⟨0, slot.current⟩)).bind fun m => m.lookup k) =
          some s → s.original = 0 ∧ s.current ≠ 0 := by
      intro k s hk
      cases hs : x.slots with
      | none => simp [hs] at hk
      | some slots =>
        rw [hs, Option.bind_some, lookup_someSlots, Map.lookup_filterMapValues] at hk
        obtain ⟨old, -, hold⟩ := Option.bind_eq_some_iff.mp hk
        split_ifs at hold with h0
        cases hold
        exact ⟨rfl, h0⟩
    refine ⟨⟨fun d hd => (hset hd).1, hclone, fun _ => ⟨rfl, fun k s hk => (hslot k s hk).1⟩,
      fun d hd hc => absurd hc (hlive d hd), fun k s hk => ?_, fun m hm => ?_⟩,
      fun d hd hc => absurd hc (hlive d hd)⟩
    · obtain ⟨h0, hne⟩ := hslot k s hk
      split_ifs
      · exact hne
      · rw [h0]
        exact Ne.symm hne
    · obtain ⟨slots, -, hm⟩ := Option.bind_eq_some_iff.mp hm
      exact someSlots_ne_nil hm
  · rw [if_neg hcr]
    have hcreated := @created_setDelta x original current
      (fun hc => hn (Option.isNone_iff_eq_none.mpr hc)) hcr
    refine ⟨⟨fun d hd => (hset hd).1, hclone, fun hc => h.created (hcreated ▸ hc),
      fun d hd hc => absurd hc (hlive d hd), fun k s hk => ?_, h.nonempty⟩,
      fun d hd hc => absurd hc (hlive d hd)⟩
    have := h.slot k s hk
    unfold AccountDelta.replaced at this ⊢
    rw [hcreated]
    exact this

theorem Sound.foldl (h : x.Sound) (l : List StateChange) : (l.foldl receive x).Sound := by
  induction l generalizing x with
  | nil => exact h
  | cons change l ih =>
    refine ih ?_
    cases change with
    | account ref => exact (h.account ref).toSound
    | storageWipe address => exact h.storageWipe
    | storage ref => exact h.storage _ _ _
    | bytecode codeHash code | accountRead address info | storageRead address key value => exact h

/-! ## The changes of transactions -/

def Agrees (x : AccountDelta) (info : Option PlainInfo) : Prop :=
  ∀ d, x.delta = some d → d.current.map AccountInfo.plain = info

theorem agrees_account (x : AccountDelta) (change : AccountChangeRef) :
    (x.account change).Agrees (change.current.map AccountInfo.plain) := by
  have hdelta : (x.account change).delta =
      setDelta x.delta (change.original.map AccountInfo.cloneNoCode)
        (change.current.map AccountInfo.cloneNoCode) := by
    unfold account
    simp only
    split_ifs <;> rfl
  intro d hd
  rw [hdelta] at hd
  rw [(setDelta_eq_some hd).2.1]
  cases change.current <;> rfl

theorem delta_foldl_visitSlot (c : AccountChanges) (l : List (Σ _ : Word, StorageSlot))
    (x : AccountDelta) :
    ((l.map fun e => c.visitSlot e.1 e.2).foldl receive x).delta = x.delta := by
  induction l generalizing x with
  | nil => rfl
  | cons e l ih =>
    rw [List.map_cons, List.foldl_cons, ih]
    unfold AccountChanges.visitSlot
    split_ifs <;> rfl

theorem slots_foldl_visitSlot (c : AccountChanges) {l : List (Σ _ : Word, StorageSlot)}
    (hl : ∀ e ∈ l, e.2.value.current = 0) {x : AccountDelta} (hw : x.wiped = true)
    (hx : x.slots = none) :
    ((l.map fun e => c.visitSlot e.1 e.2).foldl receive x).slots = none := by
  induction l generalizing x with
  | nil => exact hx
  | cons e l ih =>
    rw [List.map_cons, List.foldl_cons]
    have hrest : ∀ e ∈ l, e.2.value.current = 0 := fun e' he' => hl e' (List.mem_cons_of_mem _ he')
    unfold AccountChanges.visitSlot
    split_ifs
    · refine ih hrest hw ?_
      have h0 := hl e List.mem_cons_self
      have hnone : ((∅ : Map Word (Tracked Word)).alter e.1
          (setSlot x.created x.replaced e.2.value.original e.2.value.current)).entries = [] := by
        refine Map.entries_eq_nil fun k => ?_
        rw [Map.lookup_alter, h0]
        have hr : x.replaced = true := by simp [replaced, hw]
        split_ifs
        · simp only [AList.lookup_empty, setSlot, hr]
          rfl
        · rfl
      simp only [receive, storage, hx, Option.getD_none, someSlots, hnone]
      rfl
    · exact ih hrest hw hx

/-- What is left after all calls for the changes of a transaction but the last one. -/
def beforeLast (x : AccountDelta) (c : AccountChanges) : AccountDelta :=
  (c.storage.slots.entries.map fun e => c.visitSlot e.1 e.2).foldl receive
    (if c.storage.wiped then x.storageWipe else x)

theorem foldl_visitAccount (x : AccountDelta) (c : AccountChanges) :
    c.visitAccount.foldl receive x = if c.isInfoChanged then
      (x.beforeLast c).account ⟨c.address, c.original, c.current, c.created, c.selfdestructed⟩
      else x.beforeLast c := by
  rw [AccountChanges.visitAccount, List.foldl_append, List.foldl_append, beforeLast]
  split_ifs <;> rfl

theorem delta_beforeLast (x : AccountDelta) (c : AccountChanges) :
    (x.beforeLast c).delta = x.delta := by
  rw [beforeLast, delta_foldl_visitSlot]
  split_ifs <;> rfl

/-- **The changes of a transaction leave a settled delta**, if an account that is absent before them
is taken to be so, and one that is absent after them has no nonzero slot. -/
theorem Settled.visitAccount {x : AccountDelta} (h : x.Settled) {c : AccountChanges}
    (horiginal : ∀ d, x.delta = some d → d.current = none → c.original = none)
    (habsent : c.current = none → ∀ k slot, c.storage.slots.lookup k = some slot →
      slot.value.current = 0) :
    (c.visitAccount.foldl receive x).Settled := by
  have hs₁ : (if c.storage.wiped then x.storageWipe else x).Sound := by
    split_ifs
    · exact h.toSound.storageWipe
    · exact h.toSound
  rw [foldl_visitAccount]
  by_cases hi : c.isInfoChanged = true
  · rw [if_pos hi]
    exact (hs₁.foldl _).account _
  · rw [if_neg hi]
    refine ⟨hs₁.foldl _, fun d hd hn => ?_⟩
    -- the account stays absent, so that all its slots are zero
    rw [delta_beforeLast] at hd
    have hcurrent : c.current = none := by
      have hsame := optInfoEq_iff_plain.mp (AccountChanges.optInfoEq_of_not_isInfoChanged hi)
      rw [horiginal d hd hn] at hsame
      exact Option.map_eq_none_iff.mp hsame.symm
    refine slots_foldl_visitSlot c
      (fun e he => habsent hcurrent e.1 e.2 (AList.mem_lookup_iff.mpr he)) ?_ ?_
    · split_ifs
      · exact h.toSound.storageWipe.deleted d hd hn
      · exact h.deleted d hd hn
    · split_ifs
      · rfl
      · exact h.noSlots d hd hn

theorem Agrees.visitAccount {x : AccountDelta} {y : PlainAccount} (hx : x.Agrees y.info)
    {c : AccountChanges} (hc : c.Follows y) :
    (c.visitAccount.foldl receive x).Agrees (c.apply y).info := by
  rw [foldl_visitAccount]
  by_cases hi : c.isInfoChanged = true
  · rw [if_pos hi]
    exact agrees_account _ _
  · rw [if_neg hi]
    intro d hd
    rw [delta_beforeLast] at hd
    rw [hx d hd, ← hc.original]
    exact optInfoEq_iff_plain.mp (AccountChanges.optInfoEq_of_not_isInfoChanged hi)

/-! ## Replay -/

def visit (x : AccountDelta) (a : Address) : List StateChange :=
  (if x.wiped && x.delta.elim true (fun d => d.current.isSome) then [.storageWipe a] else []) ++
    (x.slots.elim [] fun slots => slots.sortedEntries.map fun slot =>
      .storage ⟨a, slot.1, slot.2.original, slot.2.current⟩) ++
    x.delta.elim [] fun d => [.account ⟨a, d.original, d.current, false, false⟩]

/-- The same is known of the account. -/
structure Same (x y : AccountDelta) : Prop where
  delta : x.delta = y.delta
  wiped : x.wiped = y.wiped
  slots : Option.Rel (fun m m' : Map Word (Tracked Word) => ∀ k, m.lookup k = m'.lookup k) x.slots
    y.slots

theorem rel_slots {m m' : Option (Map Word (Tracked Word))}
    (hm : ∀ s, m = some s → s.entries ≠ []) (hm' : ∀ s, m' = some s → s.entries ≠ [])
    (h : ∀ k, (m.bind fun s => s.lookup k) = m'.bind fun s => s.lookup k) :
    Option.Rel (fun m m' : Map Word (Tracked Word) => ∀ k, m.lookup k = m'.lookup k) m m' := by
  cases m with
  | none =>
    cases m' with
    | none => exact .none
    | some s' => exact absurd (Map.entries_eq_nil fun k => (h k).symm) (hm' s' rfl)
  | some s =>
    cases m' with
    | none => exact absurd (Map.entries_eq_nil h) (hm s rfl)
    | some s' => exact .some h

theorem foldl_slots (a : Address) (slots : Option (Map Word (Tracked Word))) (w : Bool) :
    let y := (slots.elim [] fun slots => slots.sortedEntries.map fun slot =>
      StateChange.storage ⟨a, slot.1, slot.2.original, slot.2.current⟩).foldl receive
        ⟨none, w, none⟩
    y.delta = none ∧ y.wiped = w ∧ ∀ k, y.slot k = (slots.bind fun m => m.lookup k).bind fun s =>
      setSlot false w s.original s.current none := by
  cases slots with
  | none => exact ⟨rfl, rfl, fun _ => rfl⟩
  | some slots =>
    simp only [Option.elim_some, Option.bind_some, List.foldl_map]
    have hkeep : ∀ (l : List (Σ _ : Word, Tracked Word)) (y : AccountDelta),
        (l.foldl (fun y e => y.receive (.storage ⟨a, e.1, e.2.original, e.2.current⟩)) y).delta =
          y.delta ∧
        (l.foldl (fun y e => y.receive (.storage ⟨a, e.1, e.2.original, e.2.current⟩)) y).wiped =
          y.wiped := by
      intro l
      induction l with
      | nil => exact fun y => ⟨rfl, rfl⟩
      | cons e l ih => exact fun y => ih _
    refine ⟨(hkeep _ _).1, (hkeep _ _).2, fun k => ?_⟩
    -- the slot of `k`, next to what decides on it
    have hproj := Map.foldl_sortedEntries_proj
      (fun y : AccountDelta => (y.created, y.replaced, y.slot k))
      (fun y key s => y.receive (.storage ⟨a, key, s.original, s.current⟩))
      (fun p s => (p.1, p.2.1, setSlot p.1 p.2.1 s.original s.current p.2.2)) (k := k)
      (fun y key s => by
        have hs : (y.receive (.storage ⟨a, key, s.original, s.current⟩)).slot k = _ :=
          slot_storage y key s.original s.current k
        by_cases hk : key = k
        · subst hk
          rw [if_pos rfl] at hs
          rw [if_pos rfl, hs]
          rfl
        · rw [if_neg (Ne.symm hk)] at hs
          rw [if_neg hk, hs]
          rfl) slots ⟨none, w, none⟩
    have hslot := congrArg (fun p : Bool × Bool × Option (Tracked Word) => p.2.2) hproj
    simp only at hslot
    rw [hslot]
    have hw : (⟨none, w, none⟩ : AccountDelta).replaced = w := by simp [replaced, created]
    cases slots.lookup k with
    | none => rfl
    | some s =>
      simp only [Option.elim_some, hw, Option.bind_some]
      rfl

theorem Sound.setSlot_slot {x : AccountDelta} (h : x.Sound) (hc : x.created = false) (k : Word) :
    ((x.slot k).bind fun s => setSlot false x.wiped s.original s.current none) = x.slot k := by
  cases hs : x.slot k with
  | none => rfl
  | some s =>
    have hk := h.slot k s hs
    have hr : x.replaced = x.wiped := by simp [replaced, hc]
    rw [hr] at hk
    simp only [Option.bind_some, setSlot]
    cases hw : x.wiped with
    | false =>
      rw [hw] at hk
      simp only [Bool.false_eq_true, if_false] at hk
      simp [hk]
    | true =>
      rw [hw] at hk
      simp only [if_true] at hk
      have hne : (s.current != 0) = true := bne_iff_ne.mpr hk
      rw [if_pos (by rw [hne]; rfl)]
      rfl

/-- **A settled delta is replayed.** -/
theorem Settled.replay {x : AccountDelta} (h : x.Settled) (a : Address) :
    ((x.visit a).foldl receive empty).Same x := by
  have hfold : (x.visit a).foldl receive empty =
      (x.delta.elim [] fun d => [.account ⟨a, d.original, d.current, false, false⟩]).foldl receive
        ((x.slots.elim [] fun slots => slots.sortedEntries.map fun slot =>
          StateChange.storage ⟨a, slot.1, slot.2.original, slot.2.current⟩).foldl receive
            ⟨none, x.wiped && x.delta.elim true (fun d => d.current.isSome), none⟩) := by
    rw [visit, List.foldl_append, List.foldl_append]
    cases x.wiped && x.delta.elim true (fun d => d.current.isSome) <;> rfl
  rw [hfold]
  generalize hw : (x.wiped && x.delta.elim true (fun d => d.current.isSome)) = w
  have hslots := foldl_slots a x.slots w
  have hstart : (⟨none, w, none⟩ : AccountDelta).Sound := by
    constructor <;> simp [created, slot]
  have hy := hstart.foldl (x.slots.elim [] fun slots => slots.sortedEntries.map fun slot =>
    StateChange.storage ⟨a, slot.1, slot.2.original, slot.2.current⟩)
  generalize hfy : (x.slots.elim [] fun slots => slots.sortedEntries.map fun slot =>
    StateChange.storage ⟨a, slot.1, slot.2.original, slot.2.current⟩).foldl receive
      ⟨none, w, none⟩ = y at hslots hy ⊢
  obtain ⟨hd, hwy, hslot⟩ := hslots
  cases hx : x.delta with
  | none =>
    have hwx : w = x.wiped := by rw [← hw, hx]; simp
    refine ⟨hd.trans hx.symm, hwy.trans hwx, rel_slots hy.nonempty h.nonempty fun k => ?_⟩
    refine (hslot k).trans ?_
    rw [hwx]
    exact h.setSlot_slot (by simp [created, hx]) k
  | some d =>
    obtain ⟨ho, hc⟩ := h.noCode d hx
    have hset : setDelta y.delta (d.original.map AccountInfo.cloneNoCode)
        (d.current.map AccountInfo.cloneNoCode) = some d := by
      rw [hd, ho, hc]
      simp only [setDelta, h.changed d hx]
      rfl
    simp only [Option.elim_some, List.foldl_cons, List.foldl_nil, receive, account, hset]
    rw [ho, hc]
    cases hcur : d.current with
    | none =>
      -- the wipe is not listed, but the deletion marks it again
      exact ⟨hx.symm, (h.deleted d hx hcur).symm, by rw [h.noSlots d hx hcur]; exact .none⟩
    | some info =>
      have hwx : w = x.wiped := by rw [← hw, hx]; simp [hcur]
      cases horig : d.original with
      | some info₀ =>
        rw [hd]
        refine ⟨hx.symm, hwy.trans hwx, rel_slots hy.nonempty h.nonempty fun k => ?_⟩
        refine (hslot k).trans ?_
        rw [hwx]
        exact h.setSlot_slot (by simp [created, hx, horig]) k
      | none =>
        have hcr : x.created = true := by simp [created, hx, horig]
        obtain ⟨hwf, h0⟩ := h.created hcr
        rw [hd]
        refine ⟨hx.symm, hwf.symm, rel_slots (fun m hm => ?_) h.nonempty fun k => ?_⟩
        · obtain ⟨slots, -, hm⟩ := Option.bind_eq_some_iff.mp hm
          exact someSlots_ne_nil hm
        · -- slots of a created account are replayed as changes from zero
          have hky := hslot k
          have hbind : ((y.slots.bind fun slots => someSlots (slots.filterMapValues fun slot =>
              if slot.current = 0 then none else some ⟨0, slot.current⟩)).bind fun m =>
                m.lookup k) = (y.slot k).bind fun slot =>
                  if slot.current = 0 then none else some ⟨0, slot.current⟩ := by
            unfold slot
            cases y.slots with
            | none => rfl
            | some slots =>
              rw [Option.bind_some, lookup_someSlots, Map.lookup_filterMapValues]
              rfl
          refine hbind.trans ?_
          rw [hky]
          change ((x.slot k).bind _).bind _ = x.slot k
          cases hs : x.slot k with
          | none => rfl
          | some s =>
            have hk := h.slot k s hs
            have hr : x.replaced = true := by simp [replaced, hcr]
            rw [hr, if_pos rfl] at hk
            have hos := h0 k s hs
            have hne : (s.original != s.current) = true := by
              rw [hos]
              exact bne_iff_ne.mpr (Ne.symm hk)
            rw [hwx, hwf]
            simp only [Option.bind_some, setSlot, hne, Bool.false_and, Bool.not_false,
              Bool.true_and, Bool.or_true, if_true, Bool.false_eq_true, if_false, if_neg hk]
            rw [← hos]

end AccountDelta

namespace BlockStateAccumulator

theorem filter_visit (acc : BlockStateAccumulator) (a : Address) :
    acc.visit.filter (StateChange.isAbout a) = (acc.accountDelta a).visit a := by
  have hcode : acc.visitCode.filter (StateChange.isAbout a) = [] := by
    refine List.filter_eq_nil_iff.mpr fun e he => ?_
    obtain ⟨e', -, rfl⟩ := List.mem_map.mp he
    simp [StateChange.isAbout]
  have hwipes := Map.filter_sortedEntries StateChange.isAbout
    (fun e : Σ _ : Address, Unit => if acc.isListedWipe e.1 then [.storageWipe e.1] else [])
    (fun e => if acc.isListedWipe e.1 then [.storageWipe e.1] else [])
    (fun e k => by by_cases h : e.1 = k <;> split_ifs <;> simp [StateChange.isAbout, h])
    acc.storageWipes a
  have hstorage := Map.filter_sortedEntries StateChange.isAbout
    (fun e : Σ _ : Address, Map Word (Tracked Word) => e.2.sortedEntries.map fun slot =>
      .storage ⟨e.1, slot.1, slot.2.original, slot.2.current⟩)
    (fun e => e.2.sortedEntries.map fun slot =>
      .storage ⟨e.1, slot.1, slot.2.original, slot.2.current⟩)
    (fun e k => by
      rw [List.filter_map]
      by_cases h : e.1 = k
      · rw [if_pos h, List.filter_eq_self.mpr]
        simp [StateChange.isAbout, h]
      · rw [if_neg h, List.filter_eq_nil_iff.mpr, List.map_nil]
        simp [StateChange.isAbout, h]) acc.storage a
  have haccounts := Map.filter_sortedEntries StateChange.isAbout
    (fun e : Σ _ : Address, Tracked (Option AccountInfo) =>
      [.account ⟨e.1, e.2.original, e.2.current, false, false⟩])
    (fun e => [.account ⟨e.1, e.2.original, e.2.current, false, false⟩])
    (fun e k => by by_cases h : e.1 = k <;> simp [StateChange.isAbout, h]) acc.accounts a
  rw [visit, visitAccounts, List.filter_append, List.filter_append, List.filter_append, hcode,
    hwipes, hstorage, haccounts, List.nil_append, AccountDelta.visit]
  refine congrArg₂ _ (congrArg₂ _ ?_ rfl) rfl
  change _ = if ((acc.storageWipes.lookup a).isSome && acc.isListedWipe a) = true then
    [StateChange.storageWipe a] else []
  cases acc.storageWipes.lookup a <;> simp

/-- Two accumulators are equal as maps. -/
structure Same (acc acc' : BlockStateAccumulator) : Prop where
  accounts : ∀ a, acc.accounts.lookup a = acc'.accounts.lookup a
  storageWipes : ∀ a, acc.storageWipes.lookup a = acc'.storageWipes.lookup a
  storage : ∀ a, Option.Rel (fun m m' : Map Word (Tracked Word) => ∀ k, m.lookup k = m'.lookup k)
    (acc.storage.lookup a) (acc'.storage.lookup a)
  code : ∀ hash, acc.code.lookup hash = acc'.code.lookup hash

theorem settled_changes {changes : List AccountChanges} {D : PlainState} (h : Chained D changes)
    (a : Address) {acc : BlockStateAccumulator} (hs : (acc.accountDelta a).Settled)
    (hacc : (acc.accountDelta a).Agrees (D a).info) :
    (((changes.flatMap AccountChanges.visit).foldl sink acc).accountDelta a).Settled := by
  induction changes generalizing D acc with
  | nil => exact hs
  | cons c changes ih =>
    obtain ⟨hc, hrest⟩ := h
    rw [List.flatMap_cons, List.foldl_append]
    have hstep := accountDelta_foldl a c.visit acc
    rw [c.filter_visit] at hstep
    by_cases ha : c.address = a
    · subst ha
      rw [if_pos rfl] at hstep
      have hs' := hs.visitAccount (c := c) (fun d hd hn => by
        have := hacc d hd
        rw [hn, ← hc.original] at this
        exact Option.map_eq_none_iff.mp this.symm) hc.absent
      have hacc' := hacc.visitAccount hc
      rw [← hstep] at hs' hacc'
      refine ih hrest hs' ?_
      rw [PlainState.commit, Function.update_self]
      exact hacc'
    · rw [if_neg ha] at hstep
      refine ih hrest (by rw [hstep]; exact hs) ?_
      rw [PlainState.commit, Function.update_of_ne (Ne.symm ha), hstep]
      exact hacc

theorem code_foldl_sink {changes : List StateChange}
    (h : ∀ e ∈ changes, ∀ hash code, e ≠ .bytecode hash code) (acc : BlockStateAccumulator) :
    (changes.foldl sink acc).code = acc.code := by
  induction changes generalizing acc with
  | nil => rfl
  | cons e changes ih =>
    rw [List.foldl_cons, ih fun e' he' => h e' (List.mem_cons_of_mem _ he')]
    have he := h e List.mem_cons_self
    cases e with
    | bytecode hash code => exact absurd rfl (he hash code)
    | account ref => rfl
    | storageWipe address => rfl
    | storage ref => rfl
    | accountRead address info => rfl
    | storageRead address key value => rfl

theorem code_replay (acc : BlockStateAccumulator) (hash : B256) :
    (acc.visit.foldl sink new).code.lookup hash = acc.code.lookup hash := by
  have hrest : ∀ e ∈ acc.visitAccounts, ∀ hash code, e ≠ .bytecode hash code := by
    intro e he hash code
    simp only [visitAccounts, List.mem_append, List.mem_flatMap, List.mem_map,
      List.mem_singleton] at he
    rcases he with (⟨w, -, he⟩ | ⟨w, -, slot, -, rfl⟩) | ⟨w, -, rfl⟩
    · split_ifs at he
      · rw [List.mem_singleton.mp he]
        simp
      · cases he
    · simp
    · simp
  have hproj := Map.foldl_sortedEntries_proj
    (fun acc : BlockStateAccumulator => acc.code.lookup hash)
    (fun acc hash' code => acc.sink (.bytecode hash' code)) (fun x code => some (x.getD code))
    (k := hash) (fun s hash' code => by
      simp only [sink, Map.lookup_adjust]
      by_cases h : hash' = hash
      · subst h
        simp
      · simp [h, Ne.symm h]) acc.code new
  rw [visit, List.foldl_append, code_foldl_sink hrest, visitCode, List.foldl_map, hproj]
  cases acc.code.lookup hash <;> rfl

end BlockStateAccumulator

def BlockStateAccumulator.ofPending (ps : List PendingState) : BlockStateAccumulator :=
  ps.foldl (fun acc p => p.visit.foldl BlockStateAccumulator.sink acc) .new

theorem BlockStateAccumulator.ofPending_eq (ps : List PendingState) :
    BlockStateAccumulator.ofPending ps =
      ((ps.flatMap PendingState.accountChanges).flatMap AccountChanges.visit).foldl
        BlockStateAccumulator.sink .new := by
  rw [ofPending]
  generalize BlockStateAccumulator.new = acc
  induction ps generalizing acc with
  | nil => rfl
  | cons p ps ih =>
    rw [List.foldl_cons, ih, List.flatMap_cons, List.flatMap_append, List.foldl_append]
    rfl

open BlockStateAccumulator in
/-- **Replaying a block accumulator reproduces it.** -/
theorem accumulator_replays (D : PlainState) (ps : List PendingState)
    (h : Chained D (ps.flatMap PendingState.accountChanges)) :
    ((BlockStateAccumulator.ofPending ps).visit.foldl sink new).Same
      (BlockStateAccumulator.ofPending ps) := by
  set acc := BlockStateAccumulator.ofPending ps with hacc
  have hreplay : ∀ a, ((acc.visit.foldl sink new).accountDelta a).Same (acc.accountDelta a) := by
    intro a
    have hs : (acc.accountDelta a).Settled := by
      rw [hacc, ofPending_eq]
      refine settled_changes h a AccountDelta.settled_empty fun d hd => ?_
      cases hd
    rw [accountDelta_foldl, filter_visit]
    exact hs.replay a
  refine ⟨fun a => (hreplay a).delta, fun a => ?_, fun a => (hreplay a).slots,
    code_replay acc⟩
  have hw := (hreplay a).wiped
  simp only [accountDelta] at hw
  cases h₁ : (acc.visit.foldl sink new).storageWipes.lookup a <;>
    cases h₂ : acc.storageWipes.lookup a <;> simp_all

theorem chained_create_destroy :
    Chained .empty ([createPending, destroyPending].flatMap PendingState.accountChanges) := by
  refine ⟨⟨rfl, fun k slot hk => ?_, fun h => ?_⟩, ⟨rfl, fun k slot hk => ?_, fun _ => ?_⟩, trivial⟩
  · obtain ⟨rfl, rfl⟩ := Map.lookup_singleton_eq_some hk
    rfl
  · cases h
  · obtain ⟨rfl, rfl⟩ := Map.lookup_singleton_eq_some hk
    rfl
  · intro k slot hk
    obtain ⟨rfl, rfl⟩ := Map.lookup_singleton_eq_some hk
    rfl

open BlockStateAccumulator in
theorem accumulator_replays_create :
    let acc := BlockStateAccumulator.ofPending [createPending, destroyPending]
    (acc.visit.foldl sink new).Same acc :=
  accumulator_replays .empty _ chained_create_destroy

end Evm2
