import Evm2.State.Returns
import Evm2.State.Warmth

/-!
# Cold loads that are skipped

A load that skips cold entries does what it does without skipping, or it is refused, and then the
entry is cold.
-/

namespace Evm2

/-- The run `r` is `r'`, or it was refused where `isWarm` does not hold. -/
def Refused {σ α : Type} (isWarm : Bool) (r r' : Except LoadError α × σ) : Prop :=
  r = r' ∨ (∃ s, r = (.error .coldLoadSkipped, s)) ∧ isWarm = false

namespace State

variable (db : Database) (s : State) (a : Address) {α : Type}

theorem accountRaw_skips [Keccak] :
    Refused (s.isWarm a) ((accountRawWithSkip db a true).run s)
      ((accountRawWithSkip db a false).run s) := by
  cases hl : s.accounts.lookup a with
  | some x =>
    rw [accountRawWithSkip_some db true hl, accountRawWithSkip_some db false hl, isWarm_some hl]
    simp only [Bool.false_and, Bool.true_and, Bool.false_eq_true, if_false, PrewarmSet.isCold]
    split_ifs with hcold
    · refine .inr ⟨⟨s, rfl⟩, ?_⟩
      simpa using hcold
    · exact .inl rfl
  | none =>
    rw [accountRawWithSkip_none db true hl, accountRawWithSkip_none db false hl, isWarm_none hl]
    simp only [Bool.false_and, Bool.true_and, Bool.false_eq_true, if_false]
    split_ifs with hcold
    · refine .inr ⟨⟨s, rfl⟩, ?_⟩
      simpa using hcold
    · exact .inl rfl

theorem accountWithSkip_skips [Keccak] (f : Op AccountHandle LoadError α) :
    Refused (s.isWarm a) ((accountWithSkip db a true f).run s)
      ((accountWithSkip db a false f).run s) := by
  unfold accountWithSkip
  rcases accountRaw_skips db s a with hsame | ⟨⟨t, hskip⟩, hcold⟩
  · rw [Op.run_bind, Op.run_bind, hsame]
    exact .inl rfl
  · rw [Op.run_bind_error hskip]
    exact .inr ⟨⟨t, rfl⟩, hcold⟩

theorem loadSlot_skips (h : StorageHandle) (key : Word) :
    Refused (h.isSlotWarm key) ((StorageHandle.loadSlot db true key true).run h)
      ((StorageHandle.loadSlot db true key false).run h) := by
  unfold StorageHandle.loadSlot StorageHandle.isSlotWarm
  dsimp only
  cases hl : h.storage.slots.lookup key with
  | some slot =>
    simp only [Bool.true_or, Bool.true_and, Bool.false_and, Bool.false_eq_true, if_false,
      Option.elim_some]
    split_ifs with hcold
    · refine .inr ⟨⟨h, rfl⟩, ?_⟩
      simpa using hcold
    · exact .inl rfl
  | none =>
    simp only [Bool.true_and, Bool.false_and, Bool.false_eq_true, if_false, Option.elim_none,
      Bool.false_or]
    split_ifs with hcold
    · refine .inr ⟨⟨h, rfl⟩, ?_⟩
      simpa using hcold
    · exact .inl rfl

theorem storage_skips [Keccak] (key : Word)
    (f : Bool → StorageSlotHandle → α × StorageSlotHandle) :
    Refused (s.isStorageWarm a key)
      ((storage db a (StorageHandle.intoSlotInner db true key true f)).run s)
      ((storage db a (StorageHandle.intoSlotInner db true key false f)).run s) := by
  unfold storage
  obtain ⟨hsame, hload⟩ := accountRaw_sameWarmth db a false s
  rcases hr : (accountRawWithSkip db a false).run s with ⟨e | x, u⟩
  · rw [Op.run_bind_error hr, Op.run_bind_error hr]
    exact .inl rfl
  rw [hr] at hsame hload
  rw [Op.run_bind_ok hr, Op.run_bind_ok hr]
  set h : StorageHandle := ⟨a, x.storage, x.flags.discardsStorage, u.inner⟩ with hh
  have hwarm : h.isSlotWarm key = s.isStorageWarm a key := by
    rw [← hsame.isStorageWarm a key]
    exact (isStorageWarm_some (hload x rfl) key).symm
  unfold StorageHandle.intoSlotInner
  dsimp only
  rcases loadSlot_skips db h key with heq | ⟨⟨h', hskip⟩, hcold⟩
  · left
    rw [Op.run_bind, Op.run_bind, heq]
  · right
    rw [Op.run_bind_error hskip, ← hwarm]
    exact ⟨⟨_, rfl⟩, hcold⟩

end State

end Evm2
