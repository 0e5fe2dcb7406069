import Evm2.State.Accumulator
import Evm2.State.CacheSink

/-!
# The accumulator sums up a block

The changes of a block's transactions are committed to a cache one after another, or accumulated
first and committed as a whole.
-/

namespace Evm2

variable [Keccak]

/-! ## The changes of a transaction -/

namespace AccountView

/-- The original values of the changes are those that are read, an account absent after the
transaction has no nonzero slot, and new code comes with its hash. -/
structure Precedes (v : AccountView) (c : AccountChanges) : Prop where
  original : v.info = .ok (c.original.map AccountInfo.plain)
  slot : ∀ k slot, c.storage.slots.lookup k = some slot → v.storage k = .ok slot.value.original
  absent : c.current = none → ∀ k slot, c.storage.slots.lookup k = some slot →
    slot.value.current = 0
  codeMatches : ∀ info, c.current = some info → info.CodeMatches

end AccountView

namespace AccountDelta

omit [Keccak] in
theorem replaced_storageWipe (x : AccountDelta) : x.storageWipe.replaced = true := by
  unfold replaced storageWipe created
  cases x.delta with
  | none => simp
  | some d => cases hd : d.original <;> simp [hd]

omit [Keccak] in
theorem setSlot_replaced (created : Bool) (original current : Word) (slot : Option (Tracked Word)) :
    setSlot created true original current slot = if current = 0 then none else
      some ⟨slot.elim (if created then 0 else original) Tracked.original, current⟩ := by
  unfold setSlot
  cases slot <;> by_cases h : current = 0#256 <;> simp [h]

omit [Keccak] in
theorem setSlot_kept (original current : Word) (slot : Option (Tracked Word)) :
    setSlot false false original current slot =
      if slot.elim original Tracked.original = current then none else
        some ⟨slot.elim original Tracked.original, current⟩ := by
  unfold setSlot
  cases slot with
  | none => by_cases h : original = current <;> simp [h]
  | some s => by_cases h : s.original = current <;> simp [h]

omit [Keccak] in
theorem created_of_not_replaced {x : AccountDelta} (h : x.replaced = false) :
    x.created = false := by
  simp only [replaced, Bool.or_eq_false_iff] at h
  exact h.2

def afterWipe (x : AccountDelta) (c : AccountChanges) : AccountDelta :=
  if c.storage.wiped then x.storageWipe else x

omit [Keccak] in
theorem slot_beforeLast (x : AccountDelta) (c : AccountChanges) (k : Word) :
    (x.beforeLast c).created = (x.afterWipe c).created ∧
      (x.beforeLast c).replaced = (x.afterWipe c).replaced ∧
      (x.beforeLast c).slot k = match c.storage.changedSlotMap.lookup k with
        | some s => setSlot (x.afterWipe c).created (x.afterWipe c).replaced s.original s.current
            ((x.afterWipe c).slot k)
        | none => (x.afterWipe c).slot k := by
  have hproj := Map.foldl_entries_proj (k := k)
    (fun y : AccountDelta => (y.created, y.replaced, y.slot k))
    (fun y key slot => y.receive (c.visitSlot key slot))
    (fun p slot => if slot.isChanged c.storage.wiped then
      (p.1, p.2.1, setSlot p.1 p.2.1 slot.value.original slot.value.current p.2.2) else p)
    (fun y key slot => by
      unfold AccountChanges.visitSlot
      split_ifs with hc hk hk
      · subst hk
        have hs := slot_storage y key slot.value.original slot.value.current key
        rw [if_pos rfl] at hs
        exact congrArg (fun s => (y.created, y.replaced, s)) hs
      · have hs := slot_storage y key slot.value.original slot.value.current k
        rw [if_neg (Ne.symm hk)] at hs
        exact congrArg (fun s => (y.created, y.replaced, s)) hs
      · rfl
      · rfl) c.storage.slots (x.afterWipe c)
  rw [← List.foldl_map (f := fun e : Σ _ : Word, StorageSlot => c.visitSlot e.1 e.2)
    (g := receive)] at hproj
  change ((x.beforeLast c).created, (x.beforeLast c).replaced, (x.beforeLast c).slot k) = _ at hproj
  rw [StorageOverlay.changedSlotMap, Map.lookup_filterMapValues]
  cases hl : c.storage.slots.lookup k with
  | none =>
    rw [hl] at hproj
    simp only [Option.elim_none, Prod.mk.injEq] at hproj
    exact hproj
  | some slot =>
    rw [hl] at hproj
    simp only [Option.elim_some, Option.bind_some, StorageOverlay.changedValue] at hproj ⊢
    split_ifs at hproj ⊢
    · simp only [Prod.mk.injEq] at hproj
      exact hproj
    · simp only [Prod.mk.injEq] at hproj
      exact hproj

end AccountDelta

/-! ## What a delta tells -/

/-- A delta tells what became of an account that was `v₀` at the start of the block. -/
structure Summary (v₀ v : AccountView) (x : AccountDelta) : Prop where
  info : v.info = x.delta.elim v₀.info fun d => .ok (d.current.map AccountInfo.stored)
  original : ∀ d, x.delta = some d → v₀.info = .ok (d.original.map AccountInfo.plain)
  slot : ∀ k, v.storage k = match x.slot k with
    | some s => .ok s.current
    | none => if x.replaced then .ok 0 else v₀.storage k
  slotOriginal : x.replaced = false → ∀ k s, x.slot k = some s → v₀.storage k = .ok s.original

namespace Summary

variable {v₀ v : AccountView} {x : AccountDelta} {c : AccountChanges}

theorem start (v : AccountView) : Summary v v .empty where
  info := rfl
  original d hd := by cases hd
  slot k := rfl
  slotOriginal _ k s hs := by cases hs

theorem afterWipe (h : Summary v₀ v x) (c : AccountChanges) :
    Summary v₀ (if c.storage.wiped then { v with storage := fun _ => .ok 0 } else v)
      (x.afterWipe c) := by
  unfold AccountDelta.afterWipe
  split_ifs
  · refine ⟨h.info, h.original, fun k => ?_, fun hr => ?_⟩
    · rw [x.replaced_storageWipe]
      rfl
    · rw [x.replaced_storageWipe] at hr
      cases hr
  · exact h

theorem beforeLast (h : Summary v₀ v x) (hc : v.Precedes c) :
    Summary v₀ ⟨v.info, v.storageBeforeLast c⟩ (x.beforeLast c) := by
  have hw := h.afterWipe c
  have hdelta := x.delta_beforeLast c
  set v₁ : AccountView := if c.storage.wiped then { v with storage := fun _ => .ok 0 } else v
    with hv₁
  set x₁ := x.afterWipe c with hx₁
  -- as long as the storage is that of before the block, the original values are those before
  have hread : ∀ k s, c.storage.changedSlotMap.lookup k = some s → x₁.replaced = false →
      v₁.storage k = .ok s.original := by
    intro k s hs hr
    have hnw : c.storage.wiped = false := by
      by_contra hwiped
      rw [hx₁, AccountDelta.afterWipe, if_pos (by simpa using hwiped),
        x.replaced_storageWipe] at hr
      cases hr
    obtain ⟨slot, hslot, rfl⟩ := StorageOverlay.lookup_changedSlotMap hs
    rw [hv₁, hnw]
    exact hc.slot k slot hslot
  refine ⟨?_, fun d hd => h.original d (hdelta.symm.trans hd), fun k => ?_, fun hr k s hs => ?_⟩
  · rw [hdelta]
    exact h.info
  · obtain ⟨-, hrep, hslot⟩ := x.slot_beforeLast c k
    rw [← hx₁] at hrep hslot
    have hk := hw.slot k
    rw [hrep, hslot]
    simp only [AccountView.storageBeforeLast]
    cases hs : c.storage.changedSlotMap.lookup k with
    | none =>
      simp only
      rw [← hk, hv₁]
      split_ifs <;> rfl
    | some s =>
      simp only
      cases hr : x₁.replaced with
      | true =>
        rw [AccountDelta.setSlot_replaced]
        by_cases h0 : s.current = 0
        · rw [if_pos h0, h0]
          rfl
        · rw [if_neg h0]
      | false =>
        rw [AccountDelta.created_of_not_replaced hr, AccountDelta.setSlot_kept]
        by_cases hback : (x₁.slot k).elim s.original Tracked.original = s.current
        · -- the slot has its value of before the block again
          rw [if_pos hback]
          simp only [Bool.false_eq_true, if_false]
          cases ho : x₁.slot k with
          | some old =>
            rw [ho, Option.elim_some] at hback
            rw [hw.slotOriginal hr k old ho, hback]
          | none =>
            rw [ho, Option.elim_none] at hback
            rw [ho, hr] at hk
            simp only [Bool.false_eq_true, if_false] at hk
            rw [← hk, hread k s hs hr, hback]
        · rw [if_neg hback]
  · obtain ⟨hcr, hrep, hslot⟩ := x.slot_beforeLast c k
    rw [← hx₁] at hrep hslot hcr
    rw [hrep] at hr
    rw [hslot] at hs
    cases hsl : c.storage.changedSlotMap.lookup k with
    | none =>
      rw [hsl] at hs
      exact hw.slotOriginal hr k s hs
    | some new =>
      rw [hsl] at hs
      simp only [hr, AccountDelta.created_of_not_replaced hr, AccountDelta.setSlot_kept] at hs
      split_ifs at hs
      cases hs
      cases ho : x₁.slot k with
      | some old => exact hw.slotOriginal hr k old ho
      | none =>
        have hk := hw.slot k
        rw [ho, hr] at hk
        simp only [Bool.false_eq_true, if_false] at hk
        rw [← hk]
        exact hread k new hsl hr

theorem info_start (h : Summary v₀ v x) {original : Option AccountInfo}
    (ho : v.info = .ok (original.map AccountInfo.plain)) :
    v₀.info = .ok ((x.delta.elim (original.map AccountInfo.cloneNoCode) Tracked.original).map
      AccountInfo.plain) := by
  cases hd : x.delta with
  | none =>
    have hi : v.info = v₀.info := by
      have := h.info
      rwa [hd] at this
    rw [← hi, ho]
    cases original <;> rfl
  | some d => exact h.original d hd

theorem account (h : Summary v₀ v x) (hz : v₀.AbsentIsEmpty) (hn : v₀.IsNormal)
    {change : AccountChangeRef} (ho : v.info = .ok (change.original.map AccountInfo.plain))
    (hm : ∀ info, change.current = some info → info.CodeMatches) :
    Summary v₀ (v.receive (.account change)) (x.account change) := by
  have hstart := h.info_start ho
  set original := change.original.map AccountInfo.cloneNoCode with horiginal
  set o := x.delta.elim original Tracked.original with hodef
  have hset : ∀ current, AccountDelta.setDelta x.delta original current =
      if optInfoEq o current then none else some ⟨o, current⟩ := by
    intro current
    rw [hodef]
    cases x.delta <;> rfl
  unfold AccountDelta.account
  simp only [← horiginal, hset]
  cases hcur : change.current with
  | none =>
    simp only [AccountView.receive, hcur, Option.map_none, Option.isNone_none, if_true]
    by_cases he : optInfoEq o none = true
    · -- an account created by the block is deleted again
      have hnone : v₀.info = .ok none := by
        rw [hstart]
        exact congrArg _ (optInfoEq_iff_plain.mp he)
      rw [if_pos he]
      refine ⟨hnone.symm, fun d hd => ?_, fun k => (hz hnone k).symm, fun _ k s hs => ?_⟩
      · cases hd
      · cases hs
    · rw [if_neg he]
      refine ⟨rfl, fun d hd => ?_, fun k => rfl, fun _ k s hs => ?_⟩
      · cases hd
        exact hstart
      · cases hs
  | some info =>
    have hinfo : info.cloneNoCode.stored = info.stored := (hm info hcur).stored_eq.symm
    simp only [AccountView.receive, hcur, Option.map_some, Option.isNone_some, Bool.false_eq_true,
      if_false]
    set delta : Option (Tracked (Option AccountInfo)) :=
      if optInfoEq o (some info.cloneNoCode) then none else some ⟨o, some info.cloneNoCode⟩
      with hdelta
    -- the new delta ends with the new info
    have hnew : (.ok (some info.stored) : Except DatabaseError (Option PlainInfo)) =
        delta.elim v₀.info fun d => .ok (d.current.map AccountInfo.stored) := by
      by_cases he : optInfoEq o (some info.cloneNoCode) = true
      · have hsame : v₀.info = .ok (some info.plain) := by
          rw [hstart]
          exact congrArg _ (optInfoEq_iff_plain.mp he)
        rw [hdelta, if_pos he, Option.elim_none, hsame, ← hinfo, AccountInfo.stored_cloneNoCode,
          normalizeCodeHash_of_ne (hn info.plain hsame)]
      · rw [hdelta, if_neg he, Option.elim_some, Option.map_some, hinfo]
    have horig : ∀ d, delta = some d → v₀.info = .ok (d.original.map AccountInfo.plain) := by
      intro d hd
      rw [hdelta] at hd
      split_ifs at hd
      cases hd
      exact hstart
    split_ifs with hcr
    · -- the account is created: it had no storage before the block
      simp only [Bool.and_eq_true, Option.isNone_iff_eq_none] at hcr
      obtain ⟨⟨hd, hsome⟩, hnone⟩ := hcr
      have hoN : o = none := by rw [hodef, hd, Option.elim_none, hnone]
      have hzero : ∀ k, v₀.storage k = .ok 0 := hz (by rw [hstart, hoN]; rfl)
      have hrep : ∀ slots, (⟨delta, false, slots⟩ : AccountDelta).replaced = true := by
        intro slots
        rw [hdelta, hoN]
        rfl
      refine ⟨hnew, horig, fun k => ?_, fun hr => ?_⟩
      · have hk := h.slot k
        rw [hrep]
        have hslot : (x.slots.bind fun slots => someSlots (slots.filterMapValues fun slot =>
            if slot.current = 0 then none else some (⟨0, slot.current⟩ : Tracked Word))).bind
              (fun m => m.lookup k) = (x.slot k).bind fun slot =>
                if slot.current = 0 then none else some ⟨0, slot.current⟩ := by
          unfold AccountDelta.slot
          cases x.slots with
          | none => rfl
          | some slots =>
            rw [Option.bind_some, lookup_someSlots, Map.lookup_filterMapValues]
            rfl
        simp only [AccountDelta.slot]
        rw [hslot]
        cases hs : x.slot k with
        | none =>
          rw [hs] at hk
          simp only [Option.bind_none, if_true]
          rw [hk, hzero]
          simp
        | some s =>
          rw [hs] at hk
          simp only [Option.bind_some] at hk ⊢
          rw [hk]
          by_cases h0 : s.current = 0
          · simp only [h0, if_true]
          · simp only [if_neg h0]
      · rw [hrep] at hr
        cases hr
    · have hrep : ({ x with delta := delta } : AccountDelta).replaced = x.replaced := by
        have hcreated := @AccountDelta.created_setDelta x original (some info.cloneNoCode) (by simp)
          (by rw [hset]; exact hcr)
        rw [hset, ← hdelta] at hcreated
        unfold AccountDelta.replaced
        rw [hcreated]
      refine ⟨hnew, horig, fun k => ?_, fun hr => ?_⟩
      · rw [hrep]
        exact h.slot k
      · rw [hrep] at hr
        exact h.slotOriginal hr

theorem visitAccount (h : Summary v₀ v x) (hz : v₀.AbsentIsEmpty) (hn : v₀.IsNormal)
    (hc : v.Precedes c) :
    Summary v₀ (c.visitAccount.foldl AccountView.receive v)
      (c.visitAccount.foldl AccountDelta.receive x) := by
  have hb := h.beforeLast hc
  rw [AccountView.foldl_visitAccount, AccountDelta.foldl_visitAccount]
  split_ifs
  · exact hb.account hz hn hc.original hc.codeMatches
  · exact hb

theorem replay (h : Summary v₀ v x) (hx : x.Settled) (hz : v₀.AbsentIsEmpty) (a : Address) :
    (x.visit a).foldl AccountView.receive v₀ = v := by
  set v₁ : AccountView := if (x.wiped && x.delta.elim true fun d => d.current.isSome) = true then
    { v₀ with storage := fun _ => .ok 0 } else v₀ with hv₁
  have hinfo₁ : v₁.info = v₀.info := by
    rw [hv₁]
    split_ifs <;> rfl
  have hslots : (x.slots.elim [] fun slots => slots.sortedEntries.map fun slot =>
      StateChange.storage ⟨a, slot.1, slot.2.original, slot.2.current⟩).foldl AccountView.receive
        v₁ = ⟨v₀.info, fun k => (x.slot k).elim (v₁.storage k) fun s => .ok s.current⟩ := by
    unfold AccountDelta.slot
    cases x.slots with
    | none => exact AccountView.ext hinfo₁ rfl
    | some slots =>
      simp only [Option.elim_some, Option.bind_some, List.foldl_map]
      refine AccountView.ext ?_ (funext fun k => ?_)
      · rw [← hinfo₁]
        generalize slots.sortedEntries = l
        generalize v₁ = w
        induction l generalizing w with
        | nil => rfl
        | cons e l ih => exact ih _
      · refine Map.foldl_sortedEntries_proj (k := k) (fun v : AccountView => v.storage k)
          (fun v key s => v.receive (.storage ⟨a, key, s.original, s.current⟩))
          (fun _ s => .ok s.current) (fun v key s => ?_) slots v₁
        by_cases hk : key = k
        · subst hk
          simp [AccountView.receive]
        · simp [AccountView.receive, hk, Ne.symm hk]
  have hfold : (x.visit a).foldl AccountView.receive v₀ =
      (x.delta.elim [] fun d => [StateChange.account ⟨a, d.original, d.current, false,
        false⟩]).foldl AccountView.receive
        ⟨v₀.info, fun k => (x.slot k).elim (v₁.storage k) fun s => .ok s.current⟩ := by
    rw [AccountDelta.visit, List.foldl_append, List.foldl_append, ← hslots, hv₁]
    split_ifs <;> rfl
  -- without a wipe that is listed, storage is replaced only for accounts created or deleted
  have hstorage : (∀ d, x.delta = some d → d.current ≠ none) → ∀ k,
      ((x.slot k).elim (v₁.storage k) fun s => .ok s.current) = v.storage k := by
    intro hlive k
    rw [h.slot k]
    cases hs : x.slot k with
    | some s => rfl
    | none =>
      simp only [Option.elim_none]
      have hlisted : (x.delta.elim true fun d => d.current.isSome) = true := by
        cases hd : x.delta with
        | none => rfl
        | some d => exact Option.isSome_iff_ne_none.mpr (hlive d hd)
      rw [hv₁, hlisted, Bool.and_true]
      cases hw : x.wiped with
      | true => simp [AccountDelta.replaced, hw]
      | false =>
        cases hcr : x.created with
        | false => simp [AccountDelta.replaced, hw, hcr]
        | true =>
          have hnone : v₀.info = .ok none := by
            unfold AccountDelta.created at hcr
            cases hd : x.delta with
            | none => simp [hd] at hcr
            | some d =>
              simp only [hd, Option.elim_some, Option.isNone_iff_eq_none] at hcr
              rw [h.original d hd, hcr]
              rfl
          simp [AccountDelta.replaced, hcr, hz hnone]
  rw [hfold]
  have hi := h.info
  cases hd : x.delta with
  | none =>
    rw [hd] at hi
    exact AccountView.ext hi.symm (funext (hstorage fun d hd' => by rw [hd] at hd'; cases hd'))
  | some d =>
    rw [hd] at hi
    simp only [Option.elim_some, List.foldl_cons, List.foldl_nil, AccountView.receive] at hi ⊢
    cases hc : d.current with
    | some info =>
      rw [hc] at hi
      refine AccountView.ext hi.symm (funext (hstorage fun d' hd' => ?_))
      rw [hd] at hd'
      cases hd'
      rw [hc]
      simp
    | none =>
      rw [hc] at hi
      refine AccountView.ext hi.symm (funext fun k => ?_)
      rw [h.slot k]
      have hs : x.slot k = none := by
        unfold AccountDelta.slot
        rw [hx.noSlots d hd hc]
        rfl
      simp [hs, AccountDelta.replaced, hx.deleted d hd hc]

end Summary

theorem AccountView.AbsentIsEmpty.visitAccount {v : AccountView} {c : AccountChanges}
    (hz : v.AbsentIsEmpty) (hc : v.Precedes c) :
    (c.visitAccount.foldl AccountView.receive v).AbsentIsEmpty := by
  rw [AccountView.foldl_visitAccount]
  split_ifs with hi
  · simp only [AccountView.receive]
    cases c.current with
    | none => exact fun _ _ => rfl
    | some info =>
      intro h
      cases h
  · intro hn k
    -- the account was absent before, and is now
    have habs : c.current = none := by
      have ho := hc.original
      rw [show v.info = .ok none from hn] at ho
      have hsame := optInfoEq_iff_plain.mp (AccountChanges.optInfoEq_of_not_isInfoChanged hi)
      rw [← Except.ok.inj ho] at hsame
      exact Option.map_eq_none_iff.mp hsame.symm
    simp only [AccountView.storageBeforeLast]
    cases hs : c.storage.changedSlotMap.lookup k with
    | none =>
      simp only
      split_ifs
      · rfl
      · exact hz hn k
    | some slot =>
      obtain ⟨s, hslot, rfl⟩ := StorageOverlay.lookup_changedSlotMap hs
      simp only
      rw [hc.absent habs k s hslot]

/-! ## Whole blocks -/

/-- What a pending state has of an account is in order: its original values are those that the cache
database answers, an account that is absent in the end has no nonzero slot, and code comes with its
hash. -/
structure Cache.Precedes (db : Database) (c : Cache) (a : Address) (x : Account) : Prop where
  original : ((Cache.getAccount db a).run c).1.map (Option.map AccountInfo.plain) =
    .ok (x.original.map AccountInfo.plain)
  slot : ∀ k slot, x.storage.slots.lookup k = some slot →
    ((Cache.getStorage db a k).run c).1 = .ok slot.value.original
  absent : x.present = none → ∀ k slot, x.storage.slots.lookup k = some slot →
    slot.value.current = 0
  codeMatches : ∀ info, x.present = some info → info.CodeMatches

def Cache.commitAll (c : Cache) (ps : List PendingState) : Cache :=
  ps.foldl (fun c p => c.commitSource p.visit) c

/-- The original values of each pending state are those read after the ones before it were
committed. -/
def Cache.ReadChain (db : Database) : Cache → List PendingState → Prop
  | _, [] => True
  | c, p :: ps => (∀ a x, p.accounts.lookup a = some x → c.Precedes db a x) ∧
      ReadChain db (c.commitSource p.visit) ps

theorem summary_commitAll {db : Database} {a : Address} {v₀ : AccountView}
    (hz₀ : v₀.AbsentIsEmpty) (hn₀ : v₀.IsNormal) {ps : List PendingState} {c : Cache}
    (hz : (c.view db a).AbsentIsEmpty) (hc : c.ReadChain db ps) {acc : BlockStateAccumulator}
    (h : Summary v₀ (c.view db a) (acc.accountDelta a)) (hs : (acc.accountDelta a).Settled) :
    let acc' := ps.foldl (fun acc p => p.visit.foldl BlockStateAccumulator.sink acc) acc
    Summary v₀ ((c.commitAll ps).view db a) (acc'.accountDelta a) ∧
      (acc'.accountDelta a).Settled ∧ ((c.commitAll ps).view db a).AbsentIsEmpty := by
  induction ps generalizing c acc with
  | nil => exact ⟨h, hs, hz⟩
  | cons p ps ih =>
    obtain ⟨hp, hrest⟩ := hc
    have hview := Cache.view_foldl db a p.visit c
    have hdelta := BlockStateAccumulator.accountDelta_foldl a p.visit acc
    rw [p.filter_visit] at hview hdelta
    cases hl : p.accounts.lookup a with
    | none =>
      rw [hl] at hview hdelta
      refine ih (c := c.commitSource p.visit) ?_ hrest ?_ ?_
      · rw [hview]
        exact hz
      · rw [hview, hdelta]
        exact h
      · rw [hdelta]
        exact hs
    | some x =>
      rw [hl] at hview hdelta
      have hx := hp a x hl
      have hprec : (c.view db a).Precedes (x.changes a) :=
        ⟨hx.original,
          fun k slot hk => (Cache.getStorage_eq_view hz k).symm.trans (hx.slot k slot hk),
          hx.absent, hx.codeMatches⟩
      refine ih (c := c.commitSource p.visit) ?_ hrest ?_ ?_
      · rw [hview]
        exact hz.visitAccount hprec
      · rw [hview, hdelta]
        exact h.visitAccount hz₀ hn₀ hprec
      · rw [hdelta]
        refine hs.visitAccount (c := x.changes a) (fun d hd hn => ?_) hx.absent
        -- a delta that ends with a deletion: the account is read as absent
        have hinfo := h.info
        rw [hd, Option.elim_some, hn, hprec.original] at hinfo
        exact Option.map_eq_none_iff.mp (Except.ok.inj hinfo)

/-- **The accumulator is a faithful summary of a block.** -/
theorem accumulator_summarizes_block (db : Database) (c : Cache)
    (hz : ∀ a, (c.view db a).AbsentIsEmpty) (ps : List PendingState) (hc : c.ReadChain db ps)
    (a : Address) :
    let whole := c.commitSource (BlockStateAccumulator.ofPending ps).visit
    let each := c.commitAll ps
    ((Cache.getAccount db a).run whole).1.map (Option.map AccountInfo.plain) =
        ((Cache.getAccount db a).run each).1.map (Option.map AccountInfo.plain) ∧
      ∀ k, ((Cache.getStorage db a k).run whole).1 = ((Cache.getStorage db a k).run each).1 := by
  have hstart : Summary (c.view db a) (c.view db a) (BlockStateAccumulator.new.accountDelta a) :=
    .start _
  obtain ⟨hsum, hs, hzero⟩ := summary_commitAll (hz a) (c.isNormal_view db a) (hz a) hc hstart
    AccountDelta.settled_empty
  have hview : (c.commitSource (BlockStateAccumulator.ofPending ps).visit).view db a =
      (c.commitAll ps).view db a := by
    rw [Cache.view_foldl, BlockStateAccumulator.filter_visit]
    exact hsum.replay hs (hz a) a
  refine ⟨congrArg AccountView.info hview, fun k => ?_⟩
  rw [Cache.getStorage_eq_view (by rw [hview]; exact hzero), Cache.getStorage_eq_view hzero, hview]

omit [Keccak] in
/-- A block that creates an account and destroys it again, over an empty database. -/
theorem accumulator_summarizes_block_create :
    letI := Keccak.const
    let ps := [createPending, destroyPending]
    let whole := Cache.default.commitSource (BlockStateAccumulator.ofPending ps).visit
    ∀ k, ((Cache.getStorage .empty 1 k).run whole).1 =
      ((Cache.getStorage .empty 1 k).run (Cache.default.commitAll ps)).1 := by
  let _ := Keccak.const
  intro ps
  refine (accumulator_summarizes_block .empty .default (fun a _ k => rfl) ps
    ⟨fun a x hx => ?_, fun a x hx => ?_, trivial⟩ 1).2
  · obtain ⟨rfl, rfl⟩ := Map.lookup_singleton_eq_some hx
    refine ⟨rfl, fun k slot hk => ?_, by simp, fun info hi => ?_⟩
    · obtain ⟨rfl, rfl⟩ := Map.lookup_singleton_eq_some hk
      rfl
    · cases hi
      intro code hcode he
      cases hcode
      cases he
  · obtain ⟨rfl, rfl⟩ := Map.lookup_singleton_eq_some hx
    refine ⟨rfl, fun k slot hk => ?_, fun _ k slot hk => ?_, nofun⟩
    · obtain ⟨rfl, rfl⟩ := Map.lookup_singleton_eq_some hk
      rfl
    · obtain ⟨rfl, rfl⟩ := Map.lookup_singleton_eq_some hk
      rfl

end Evm2
