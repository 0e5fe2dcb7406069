import Evm2.Lib.Undo
import Evm2.State.State

/-!
# What undoing a journal entry restores

The overlay of a state (`Core`) with the journal entries is an `UndoSystem`. A state lies above
another one when it has loaded more, and what it has loaded more is as it was loaded; under
EIP-161 the touch of precompile 3 may be left behind as well.

* **`journalUndo`**: the undo system of `State.undoEntry`.
-/

namespace Evm2

/-- The part of a state that journal entries restore: overlay and transient storage. -/
abbrev Core : Type := Map Address Account × Map (Address × Word) Word

open State (precompile3 undoEntry)

/-! ## The order on overlays -/

section Order

variable (pw : PrewarmSet) (k : Bool)

/-- The flags of account `a` are as before; if `k`, precompile 3 may have been touched. -/
def FlagsRestored (a : Address) (f f' : AccountFlags) : Prop :=
  f' = f ∨ (k = true ∧ a = precompile3 ∧ f' = { f with touched := true })

/-- All slots of `o` are in `o'` as they were; any other slot of `o'` is as it was loaded. -/
structure SlotsExtend (a : Address) (o o' : StorageOverlay) : Prop where
  wiped : o'.wiped = o.wiped
  kept : ∀ key slot, o.slots.lookup key = some slot → o'.slots.lookup key = some slot
  fresh : ∀ key slot, o.slots.lookup key = none → o'.slots.lookup key = some slot →
    slot = .loaded slot.value.original (pw.isStorageWarm a key)

/-- Account `x'` is `x` with more slots loaded. -/
structure AccountExtends (a : Address) (x x' : Account) : Prop where
  original : x'.original = x.original
  present : x'.present = x.present
  flags : FlagsRestored k a x.flags x'.flags
  storage : SlotsExtend pw a x.storage x'.storage

/-- Overlay `c'` is `c` with more accounts and slots loaded. -/
structure CoreExtends (c c' : Core) : Prop where
  transient : ∀ key, c'.2.lookup key = c.2.lookup key
  kept : ∀ a x, c.1.lookup a = some x →
    ∃ x', c'.1.lookup a = some x' ∧ AccountExtends pw k a x x'
  fresh : ∀ a x', c.1.lookup a = none → c'.1.lookup a = some x' →
    AccountExtends pw k a (.loaded x'.original (pw.isWarm a)) x'

variable {pw k} {a : Address}

theorem FlagsRestored.refl (f : AccountFlags) : FlagsRestored k a f f := .inl rfl

theorem FlagsRestored.trans {f g h : AccountFlags} (h₁ : FlagsRestored k a f g)
    (h₂ : FlagsRestored k a g h) : FlagsRestored k a f h := by
  rcases h₁ with rfl | ⟨hk, ha, rfl⟩
  · exact h₂
  · rcases h₂ with rfl | ⟨-, -, rfl⟩
    · exact .inr ⟨hk, ha, rfl⟩
    · exact .inr ⟨hk, ha, rfl⟩

theorem SlotsExtend.refl (o : StorageOverlay) : SlotsExtend pw a o o where
  wiped := rfl
  kept _ _ h := h
  fresh _ _ h h' := by rw [h] at h'; cases h'

theorem SlotsExtend.trans {o₁ o₂ o₃ : StorageOverlay} (h₁ : SlotsExtend pw a o₁ o₂)
    (h₂ : SlotsExtend pw a o₂ o₃) : SlotsExtend pw a o₁ o₃ where
  wiped := h₂.wiped.trans h₁.wiped
  kept key slot h := h₂.kept key slot (h₁.kept key slot h)
  fresh key slot h h' := by
    cases hm : o₂.slots.lookup key with
    | none => exact h₂.fresh key slot hm h'
    | some slot₂ =>
      obtain rfl : slot₂ = slot := by simpa [h'] using (h₂.kept key slot₂ hm).symm
      exact h₁.fresh key slot₂ h hm

theorem AccountExtends.refl (x : Account) : AccountExtends pw k a x x :=
  ⟨rfl, rfl, .refl _, .refl _⟩

theorem AccountExtends.trans {x y z : Account} (h₁ : AccountExtends pw k a x y)
    (h₂ : AccountExtends pw k a y z) : AccountExtends pw k a x z :=
  ⟨h₂.original.trans h₁.original, h₂.present.trans h₁.present, h₁.flags.trans h₂.flags,
    h₁.storage.trans h₂.storage⟩

theorem CoreExtends.refl (c : Core) : CoreExtends pw k c c where
  transient _ := rfl
  kept _ x h := ⟨x, h, .refl x⟩
  fresh _ _ h h' := by rw [h] at h'; cases h'

theorem CoreExtends.trans {c₁ c₂ c₃ : Core} (h₁ : CoreExtends pw k c₁ c₂)
    (h₂ : CoreExtends pw k c₂ c₃) : CoreExtends pw k c₁ c₃ where
  transient key := (h₂.transient key).trans (h₁.transient key)
  kept a x h := by
    obtain ⟨y, hy, hxy⟩ := h₁.kept a x h
    obtain ⟨z, hz, hyz⟩ := h₂.kept a y hy
    exact ⟨z, hz, hxy.trans hyz⟩
  fresh a z h hz := by
    cases hm : c₂.1.lookup a with
    | none => exact h₂.fresh a z hm hz
    | some y =>
      obtain ⟨z', hz', hyz⟩ := h₂.kept a y hm
      obtain rfl : z = z' := Option.some.inj (hz.symm.trans hz')
      have hy := h₁.fresh a y h hm
      rw [hyz.original]
      exact hy.trans hyz

end Order

/-! ## Changing one account or one slot -/

section Modify

variable {pw : PrewarmSet} {k : Bool} {a : Address}

theorem CoreExtends.modify {c c' : Core} (h : CoreExtends pw k c c') {f : Account → Account}
    (hin : (c.1.lookup a).isSome)
    (hf : ∀ x x', AccountExtends pw k a x x' → AccountExtends pw k a (f x) (f x')) :
    CoreExtends pw k (c.1.modify a f, c.2) (c'.1.modify a f, c'.2) where
  transient := h.transient
  kept b x hx := by
    rw [Map.lookup_modify] at hx ⊢
    split_ifs at hx ⊢ with hb
    · subst hb
      obtain ⟨y, hy, rfl⟩ := Option.map_eq_some_iff.mp hx
      obtain ⟨y', hy', hyy⟩ := h.kept b y hy
      exact ⟨f y', by rw [hy']; rfl, hf y y' hyy⟩
    · exact h.kept b x hx
  fresh b x' hx hx' := by
    rw [Map.lookup_modify] at hx hx'
    split_ifs at hx hx' with hb
    · subst hb
      rw [Option.map_eq_none_iff] at hx
      rw [hx] at hin
      cases hin
    · exact h.fresh b x' hx hx'

theorem SlotsExtend.modify {o o' : StorageOverlay} (h : SlotsExtend pw a o o') {key : Word}
    {f : StorageSlot → StorageSlot} (hin : (o.slots.lookup key).isSome) :
    SlotsExtend pw a { o with slots := o.slots.modify key f }
      { o' with slots := o'.slots.modify key f } where
  wiped := h.wiped
  kept j slot hj := by
    simp only [Map.lookup_modify] at hj ⊢
    split_ifs at hj ⊢ with hk
    · obtain ⟨slot₀, hs, rfl⟩ := Option.map_eq_some_iff.mp hj
      rw [h.kept key slot₀ hs]
      rfl
    · exact h.kept j slot hj
  fresh j slot hj hj' := by
    simp only [Map.lookup_modify] at hj hj'
    split_ifs at hj hj' with hk
    · rw [Option.map_eq_none_iff] at hj
      rw [hj] at hin
      cases hin
    · exact h.fresh j slot hj hj'

end Modify

/-! ## The undo system of the journal -/

def Account.modifySlot (x : Account) (key : Word) (f : StorageSlot → StorageSlot) : Account :=
  { x with storage := { x.storage with slots := x.storage.slots.modify key f } }

def Core.slot (c : Core) (a : Address) (key : Word) : Option StorageSlot :=
  (c.1.lookup a).bind fun x => x.storage.slots.lookup key

/-- What the entry restores is loaded; a zero transient value is never stored. -/
def JournalEntry.Valid : JournalEntry → Core → Prop
  | .accountChange a _ _, c => (c.1.lookup a).isSome
  | .storageChange a key _, c => (Core.slot c a key).isSome
  | .transientStorageChange _ _ previous, _ => previous ≠ some 0
  | .storageWarmed a key, c => (Core.slot c a key).isSome

theorem Core.slot_modify_isSome (c : Core) (a b : Address) (key : Word) (f : Account → Account)
    (hf : ∀ x, ((f x).storage.slots.lookup key).isSome = (x.storage.slots.lookup key).isSome) :
    (Core.slot (c.1.modify b f, c.2) a key).isSome = (Core.slot c a key).isSome := by
  simp only [Core.slot, Map.lookup_modify]
  split_ifs with h
  · subst h
    cases hx : c.1.lookup a with
    | none => rfl
    | some x => simpa using hf x
  · rfl

theorem valid_undoEntry {b : Bool} {e e' : JournalEntry} {c : Core} :
    e.Valid (undoEntry b e' c) ↔ e.Valid c := by
  have key : ∀ c' : Core, (∀ a, (c'.1.lookup a).isSome = (c.1.lookup a).isSome) →
      (∀ a key, (Core.slot c' a key).isSome = (Core.slot c a key).isSome) →
      (e.Valid c' ↔ e.Valid c) := by
    intro c' h₁ h₂
    cases e <;> simp only [JournalEntry.Valid, h₁, h₂]
  apply key
  · intro a
    cases e' with
    | accountChange b p f | storageChange b j p | storageWarmed b j =>
      exact Map.lookup_modify_isSome _ _ _ _
    | transientStorageChange b j p => cases p <;> rfl
  · intro a j
    cases e' with
    | accountChange b p f => exact Core.slot_modify_isSome c a b j _ fun x => rfl
    | storageChange b i p | storageWarmed b i =>
      exact Core.slot_modify_isSome c a b j _ fun x => Map.lookup_modify_isSome _ _ _ _
    | transientStorageChange b i p => cases p <;> rfl

section System

variable {pw : PrewarmSet} {k : Bool}

theorem CoreExtends.slot {c c' : Core} (h : CoreExtends pw k c c') {a : Address} {key : Word}
    {slot : StorageSlot} (hs : Core.slot c a key = some slot) : Core.slot c' a key = some slot := by
  obtain ⟨x, hx, hslot⟩ := Option.bind_eq_some_iff.mp hs
  obtain ⟨x', hx', hxx⟩ := h.kept a x hx
  simp only [Core.slot, hx', Option.bind_some]
  exact hxx.storage.kept key slot hslot

theorem JournalEntry.Valid.mono {e : JournalEntry} {c c' : Core} (h : CoreExtends pw k c c')
    (hv : e.Valid c) : e.Valid c' := by
  cases e with
  | accountChange a p f =>
    obtain ⟨x, hx⟩ := Option.isSome_iff_exists.mp hv
    obtain ⟨x', hx', -⟩ := h.kept a x hx
    exact Option.isSome_iff_exists.mpr ⟨x', hx'⟩
  | transientStorageChange a j p => exact hv
  | storageChange a j p | storageWarmed a j =>
    obtain ⟨slot, hs⟩ := Option.isSome_iff_exists.mp hv
    exact Option.isSome_iff_exists.mpr ⟨slot, h.slot hs⟩

theorem CoreExtends.modifySlot {c c' : Core} (h : CoreExtends pw k c c') {a : Address} {key : Word}
    {f : StorageSlot → StorageSlot} (hin : (Core.slot c a key).isSome) :
    CoreExtends pw k (c.1.modify a fun x => x.modifySlot key f, c.2)
      (c'.1.modify a fun x => x.modifySlot key f, c'.2) := by
  obtain ⟨slot, hs⟩ := Option.isSome_iff_exists.mp hin
  obtain ⟨x, hx, hslot⟩ := Option.bind_eq_some_iff.mp hs
  obtain ⟨x', hx', hxx⟩ := h.kept a x hx
  have hstorage := hxx.storage.modify (f := f)
    (Option.isSome_iff_exists.mpr ⟨slot, hslot⟩)
  constructor
  · exact h.transient
  · intro b y hy
    rw [Map.lookup_modify] at hy ⊢
    split_ifs at hy ⊢ with hb
    · subst hb
      rw [hx] at hy
      cases hy
      rw [hx']
      exact ⟨_, rfl, hxx.original, hxx.present, hxx.flags, hstorage⟩
    · exact h.kept b y hy
  · intro b y' hy hy'
    rw [Map.lookup_modify] at hy hy'
    split_ifs at hy hy' with hb
    · subst hb
      rw [hx] at hy
      cases hy
    · exact h.fresh b y' hy hy'

theorem undoEntry_mono {b : Bool} {e : JournalEntry} {c c' : Core}
    (hv : e.Valid c) (h : CoreExtends pw k c c') :
    CoreExtends pw k (undoEntry b e c) (undoEntry b e c') := by
  cases e with
  | accountChange a p f =>
    refine h.modify hv fun x x' hx => ⟨hx.original, rfl, ?_, hx.storage⟩
    dsimp only
    split_ifs with hkeep
    · -- the touch of precompile 3 is taken from the entry's own flags
      rcases hx.flags with hf | ⟨hk, ha, hf⟩
      · rw [hf]; exact .refl _
      · rw [hf]; exact .inr ⟨hk, ha, rfl⟩
    · exact .refl _
  | storageChange a j p | storageWarmed a j => exact h.modifySlot hv
  | transientStorageChange a j p =>
    have hlookup : ∀ key, (undoEntry b (.transientStorageChange a j p) c').2.lookup key =
        (undoEntry b (.transientStorageChange a j p) c).2.lookup key := by
      intro key
      cases p with
      | none => simp only [undoEntry, Map.lookup_erase_ite, h.transient]
      | some v =>
        simp only [undoEntry]
        split_ifs
        · simp only [Map.lookup_erase_ite, h.transient]
        · simp only [Map.lookup_set, h.transient]
    cases p with
    | none | some v => exact ⟨hlookup, h.kept, h.fresh⟩

/-- **The journal is an undo system** over the overlay. -/
def journalUndo (pw : PrewarmSet) (k b : Bool) : UndoSystem Core JournalEntry where
  undo := undoEntry b
  le := CoreExtends pw k
  valid := JournalEntry.Valid
  le_refl := .refl
  le_trans := .trans
  valid_mono h hv := hv.mono h
  valid_undo := valid_undoEntry
  undo_mono hv h := undoEntry_mono hv h

end System

end Evm2
