import Evm2.Lib.Ledger
import Evm2.State.View

/-!
# What operations do to accounts and logs

* `Permit.calm`: everything but changing balances, creating accounts and logging;
  **`Runs.calm`**: calm runs keep balances and logs;
* **`transfer_balance`**, `createAccount_balance`: what transfers and creations do to balances.
-/

namespace Evm2

/-- The permitted edits do not change what `f` reads of an account. -/
def Permit.Keeps (P : Permit) {β : Type} (f : Address → Option AccountInfo → β) : Prop :=
  ∀ a x x', P.edit a x x' → f a x'.present = f a x.present

namespace State

variable [Keccak] {db : Database} {P : Permit} {k : Bool} {s t : State} {a : Address}

section Info

theorem info_withCache {c : Cache} (hc : Cache.SameData db s.cache c) (b : Address) :
    (s.withCache c).info db b = s.info db b := by
  unfold info withCache
  dsimp only
  cases s.accounts.lookup b with
  | some x => rfl
  | none => exact hc.info b

theorem info_setAccount (x : Account) (b : Address) :
    (s.setAccount a x).info db b = if b = a then .ok x.present else s.info db b := by
  unfold info setAccount
  rw [Map.lookup_set]
  by_cases hb : b = a
  · rw [if_pos hb, if_pos hb]
  · rw [if_neg hb, if_neg hb]

theorem info_setAccount_self {x : Account} (h : s.info db a = .ok x.present) (b : Address) :
    (s.setAccount a x).info db b = s.info db b := by
  rw [info_setAccount]
  split_ifs with hb
  · rw [hb, h]
  · rfl

theorem info_setSlot {x : Account} (hl : s.accounts.lookup a = some x) (key : Word)
    (slot : StorageSlot) (b : Address) :
    (s.setAccount a (x.setSlot key slot)).info db b = s.info db b :=
  info_setAccount_self (by rw [info_some hl]; rfl) b

theorem info_tstore (key value : Word) (b : Address) :
    (s.tstore a key value).info db b = s.info db b := by
  unfold tstore
  split <;> split_ifs <;> rfl

variable {β : Type} {f : Address → Option AccountInfo → β}

theorem Step.map_info (hP : P.Keeps f) (hs : s.Sound db) (h : Step db P s t) (b : Address) :
    (t.info db b).map (f b) = (s.info db b).map (f b) := by
  cases h with
  | readAccount a => rw [info_withCache (Cache.sameData_getAccount s.cache a)]
  | readCode h => rw [info_withCache (Cache.sameData_getCodeByHash s.cache h)]
  | readBlockHash n => rw [info_withCache (Cache.sameData_getBlockHash s.cache n)]
  | readStorage a key x hl => rw [info_withCache (Cache.sameData_getStorage (hs a x hl) key)]
  | load a info hv hk =>
    refine congrArg _ (info_setAccount_self ?_ b)
    rw [info_none hv]
    exact Cache.Knows.info hk
  | mutate a x x' hl ho hst hf he =>
    have hkeep : f a x'.present = f a x.present := by
      clear ho hst hf
      induction he with
      | refl => rfl
      | tail _ hstep ih => exact (hP a _ _ hstep).trans ih
    refine (congrArg _ (info_setAccount x' b)).trans ?_
    by_cases hb : b = a
    · subst hb
      rw [if_pos rfl, info_some hl]
      exact congrArg Except.ok hkeep
    · rw [if_neg hb]
  | loadSlot a x key value hl hv hst | warmSlot a x key slot hl hb hc =>
    exact congrArg _ (info_setSlot hl key _ b)
  | writeSlot a x key value slot hl hb hw => exact congrArg _ (info_setSlot hl key _ b)
  | tstore a key value hw => exact congrArg _ (info_tstore key value b)
  | log l hw => rfl

/-- **Runs do not change what is read of accounts** if the permitted edits do not. -/
theorem Runs.map_info (hP : P.Keeps f) (h : Runs db P k s t) (hs : s.Sound db)
    (hnz : s.TransientNonzero) (b : Address) :
    (t.info db b).map (f b) = (s.info db b).map (f b) := by
  induction h with
  | refl => rfl
  | step hr hst ih => rw [hst.map_info hP (hr.sound hs).1, ih hs hnz]
  | rollback features hk hout hin ih _ =>
    rw [hin.rollback_info (hout.sound hs).1 (hout.journals hnz).nonzero hk, ih hs hnz]

theorem Runs.logs (hP : ¬P.log) (h : Runs db P k s t) (hnz : s.TransientNonzero) :
    t.logs = s.logs := by
  induction h with
  | refl => rfl
  | step hr hst ih =>
    rw [← ih hnz]
    cases hst with
    | tstore a key value hw =>
      unfold State.tstore
      split <;> split_ifs <;> rfl
    | log l hl => exact absurd hl hP
    | _ => rfl
  | rollback features hk hout hin ih _ =>
    rw [((hin.journals (hout.journals hnz).nonzero).rollback hk).1, ih hnz]

end Info

/-! ## Balances -/

section Balance

def balanceOf : Option AccountInfo → Nat
  | some info => info.balance.toNat
  | none => 0

theorem balance_eq (s : State) (b : Address) :
    s.balance db b = match (s.info db b).map balanceOf with
      | .ok n => n
      | .error _ => 0 := by
  unfold balance
  rw [run_accountInfoUntracked]
  cases s.info db b with
  | error e => rfl
  | ok i => cases i <;> rfl

theorem balance_of_info {i : Option AccountInfo} (h : s.info db a = .ok i) :
    s.balance db a = balanceOf i := by
  rw [balance_eq, h]
  rfl

theorem balance_lt (s : State) (b : Address) : s.balance db b < 2 ^ 256 := by
  unfold balance
  split
  · exact BitVec.isLt _
  · exact Nat.two_pow_pos _

theorem balance_congr {b : Address} (h : t.info db b = s.info db b) :
    t.balance db b = s.balance db b := by
  rw [balance_eq, balance_eq, h]

end Balance

end State

def Permit.calm : Permit where
  edit _ x x' := State.balanceOf x'.present = State.balanceOf x.present
  write := True
  log := False

namespace Permit

open State (balanceOf)

theorem toNat_balance_getD (i : Option AccountInfo) :
    (i.getD .default).balance.toNat = balanceOf i := by cases i <;> rfl

instance : Touches calm := ⟨fun _ _ => rfl⟩
instance : Warms calm := ⟨fun _ _ => rfl⟩
instance (features : EvmFeatures) : Destroys calm features := ⟨fun _ _ _ => rfl⟩
instance : BumpsNonce calm := ⟨fun _ x _ => toNat_balance_getD x.present⟩

theorem keeps_calm : calm.Keeps fun _ => balanceOf := fun _ _ _ h => h

end Permit

namespace State

variable [Keccak] {db : Database} {P : Permit} {k : Bool} {s t : State} {a : Address}

/-- **Calm runs keep balances and logs.** -/
theorem Runs.calm (h : Runs db .calm k s t) (hs : s.Sound db) (hnz : s.TransientNonzero) :
    t.balance db = s.balance db ∧ t.logs = s.logs := by
  refine ⟨?_, h.logs id hnz⟩
  funext b
  rw [balance_eq, balance_eq, h.map_info Permit.keeps_calm hs hnz]

/-! ## Sessions -/

section Sessions

open AccountHandle (Mutates)

variable {α : Type}

theorem sameData_of_codeReads {c c' : Cache} (h : CodeReads db c c') : Cache.SameData db c c' := by
  induction h with
  | refl => exact .refl c
  | tail _ hstep ih =>
    obtain ⟨codeHash, rfl⟩ := hstep
    exact ih.trans (Cache.sameData_getCodeByHash _ codeHash)

omit [Keccak] in
theorem dropHandle_inner (u : State) (h : AccountHandle) :
    (u.dropHandle h).cache = h.inner.cache ∧ (u.dropHandle h).logs = h.inner.logs := by
  unfold dropHandle
  cases h.snapshot <;> exact ⟨rfl, rfl⟩

theorem Loads.info {x : Account} {u : State} (h : Loads db a s x u) (b : Address) :
    u.info db b = s.info db b := by
  cases h with
  | here hl => rfl
  | @fetch i c hl hr =>
    have hc : Cache.SameData db s.cache c := by
      have hread : Cache.SameData db s.cache _ := Cache.sameData_getAccount s.cache a
      rwa [hr] at hread
    rw [info_setAccount_self, info_withCache hc]
    rw [info_withCache hc, info_none hl]
    exact congrArg Prod.fst hr

theorem Loads.logs {x : Account} {u : State} (h : Loads db a s x u) : u.logs = s.logs := by
  cases h <;> rfl

/-- **What a session does**: it works on the info that the state has for the account; it changes the
info of no other account, and no log. -/
theorem account_info {f : AccountHandle → α × AccountHandle}
    (hf : ∀ h, Mutates db P h (f h).2) {r : α} (h : (account db a f).run s = (.ok r, t)) :
    ∃ hd : AccountHandle, s.info db a = .ok hd.tracked.present ∧ r = (f hd).1 ∧
      t.info db a = .ok (f hd).2.tracked.present ∧ (∀ b, b ≠ a → t.info db b = s.info db b) ∧
      t.logs = s.logs := by
  obtain ⟨x, u, hx, hr, rfl⟩ := account_ok db h
  set hd : AccountHandle := ⟨a, x, u.inner, none⟩ with hhd
  have hm : Mutates db P hd (f hd).2 := hf hd
  obtain ⟨c, hc, hi⟩ := hm.inner
  refine ⟨hd, ?_, hr, ?_, fun b hb => ?_, ?_⟩
  · rw [← hx.info, info_some hx.lookup]
  · exact info_some ((Map.lookup_set _ _ _ _).trans (if_pos hm.address.symm))
  · rw [← hx.info]
    unfold info dropHandle
    dsimp only
    rw [hm.address, Map.lookup_set, if_neg hb]
    cases u.accounts.lookup b with
    | some y => rfl
    | none =>
      have hcache : (u.dropHandle (f hd).2).cache = c := by rw [(dropHandle_inner u _).1, hi]
      exact (congrArg (Cache.info db · b) hcache).trans ((sameData_of_codeReads hc).info b)
  · rw [(dropHandle_inner u _).2, hi, ← hx.logs]

theorem account_balance {f : AccountHandle → α × AccountHandle}
    (hf : ∀ h, Mutates db P h (f h).2) {r : α} (h : (account db a f).run s = (.ok r, t)) :
    ∃ hd : AccountHandle, s.balance db a = balanceOf hd.tracked.present ∧ r = (f hd).1 ∧
      (∀ b, t.balance db b =
        if b = a then balanceOf (f hd).2.tracked.present else s.balance db b) ∧
      t.logs = s.logs := by
  obtain ⟨hd, hs, hr, ht, hne, hlogs⟩ := account_info hf h
  refine ⟨hd, balance_of_info hs, hr, fun b => ?_, hlogs⟩
  by_cases hb : b = a
  · rw [if_pos hb, hb]
    exact balance_of_info ht
  · rw [if_neg hb]
    exact balance_congr (hne b hb)

theorem account_calm {f : AccountHandle → α × AccountHandle} (hf : ∀ h, Mutates db P h (f h).2)
    (hb : ∀ h, balanceOf (f h).2.tracked.present = balanceOf h.tracked.present) {r : α}
    (h : (account db a f).run s = (.ok r, t)) :
    t.balance db = s.balance db ∧ t.logs = s.logs := by
  obtain ⟨hd, hs, -, ht, hlogs⟩ := account_balance hf h
  refine ⟨funext fun b => ?_, hlogs⟩
  rw [ht, hb, ← hs]
  split_ifs with hba
  · rw [hba]
  · rfl

end Sessions

/-! ## Transfers and creations -/

section Transfers

open AccountHandle

omit [Keccak] in
@[simp] theorem touch_present (h : AccountHandle) : h.touch.tracked.present = h.tracked.present := by
  unfold touch
  split_ifs <;> rfl

omit [Keccak] in
theorem toNat_balance (h : AccountHandle) : h.balance.toNat = balanceOf h.tracked.present := by
  unfold AccountHandle.balance
  cases h.tracked.present <;> rfl

omit [Keccak] in
theorem balanceOf_setBalance (h : AccountHandle) (b : Word) :
    balanceOf (h.setBalance b).tracked.present = b.toNat := rfl

theorem debit_balance {g : AccountHandle → AccountHandle} {value : Word} {covered : Bool}
    (hg : ∀ h, Mutates db .any h (g h))
    (hp : ∀ h, (g h).tracked.present = h.tracked.present)
    (h : (account db a fun h => if h.balance < value then (false, h)
      else (true, g (h.setBalance (h.balance - value)))).run s = (.ok covered, t)) :
    t.logs = s.logs ∧ (covered = false → t.balance db = s.balance db) ∧
      (covered = true → value.toNat ≤ s.balance db a ∧
        ∀ b, t.balance db b = if b = a then s.balance db a - value.toNat else s.balance db b) := by
  have hf : ∀ h : AccountHandle, Mutates db .any h (if h.balance < value then (false, h)
      else (true, g (h.setBalance (h.balance - value)))).2 := by
    intro h
    split_ifs
    · exact .refl h
    · exact (mutates_setBalance h _).trans (hg _)
  obtain ⟨hd, hs, hr, ht, hlogs⟩ := account_balance hf h
  refine ⟨hlogs, ?_, ?_⟩
  all_goals
    rintro rfl
    by_cases hlt : hd.balance < value
  · refine funext fun b => ?_
    rw [ht, if_pos hlt, ← hs]
    split_ifs with hb
    · rw [hb]
    · rfl
  · rw [if_neg hlt] at hr
    cases hr
  · rw [if_pos hlt] at hr
    cases hr
  · rw [BitVec.lt_def, toNat_balance, ← hs] at hlt
    refine ⟨by omega, fun b => ?_⟩
    rw [ht]
    split_ifs with hb hc
    · rw [BitVec.lt_def, toNat_balance, ← hs] at hc
      exact absurd hc hlt
    · rw [hp, balanceOf_setBalance, BitVec.toNat_sub_of_le, toNat_balance, ← hs]
      rw [BitVec.le_def, toNat_balance, ← hs]
      omega
    · rfl

variable (db) in
structure Paid (src dst : Address) (value : Word) (s t : State) : Prop where
  logs : t.logs = s.logs
  void : value = 0 ∨ src = dst → t.balance db = s.balance db
  covered : value ≠ 0 → src ≠ dst → value.toNat ≤ s.balance db src
  moved : value ≠ 0 → src ≠ dst → s.balance db dst + value.toNat < 2 ^ 256 →
    t.balance db = (Ledger.Move.mk src (some dst) value.toNat).apply (s.balance db)

theorem Paid.of_void {src dst : Address} {value : Word} (hv : value = 0 ∨ src = dst)
    (h : t.balance db = s.balance db ∧ t.logs = s.logs) : Paid db src dst value s t where
  logs := h.2
  void _ := h.1
  covered hz hsd := absurd hv (not_or.mpr ⟨hz, hsd⟩)
  moved hz hsd := absurd hv (not_or.mpr ⟨hz, hsd⟩)

theorem Paid.of_steps {src dst : Address} {value : Word} {u : State} (hz : value ≠ 0)
    (hsd : src ≠ dst) (hlogs : t.logs = s.logs) (hc : value.toNat ≤ s.balance db src)
    (hu : ∀ b, u.balance db b = if b = src then s.balance db src - value.toNat else s.balance db b)
    (ht : s.balance db dst + value.toNat < 2 ^ 256 → ∀ b, t.balance db b =
      if b = dst then u.balance db dst + value.toNat else u.balance db b) :
    Paid db src dst value s t where
  logs := hlogs
  void h := absurd h (not_or.mpr ⟨hz, hsd⟩)
  covered _ _ := hc
  moved _ _ hfit := by
    funext b
    rw [ht hfit, hu, hu, if_neg (Ne.symm hsd)]
    unfold Ledger.Move.apply
    dsimp only
    by_cases hb : b = dst
    · subst hb
      rw [if_pos rfl, if_neg hsd, if_pos rfl]
    · rw [if_neg hb]
      by_cases hs : src = b
      · subst hs
        rw [if_pos rfl, if_pos rfl]
      · rw [if_neg (Ne.symm hs), if_neg hs, if_neg]
        simpa using Ne.symm hb

theorem transfer_balance {src dst : Address} {value : Word} {covered : Bool}
    (h : (transfer db src dst value).run s = (.ok covered, t)) :
    (covered = false → t.balance db = s.balance db ∧ t.logs = s.logs) ∧
      (covered = true → Paid db src dst value s t) := by
  unfold transfer at h
  by_cases hz : value = 0
  · rw [if_pos hz] at h
    obtain ⟨_, u, hu, h⟩ := Op.run_bind_eq_ok h
    cases h
    have hcalm := account_calm (P := .any) mutates_touch (fun h => by rw [touch_present]) hu
    exact ⟨fun _ => hcalm, fun _ => .of_void (.inl hz) hcalm⟩
  rw [if_neg hz] at h
  by_cases hsd : src = dst
  · rw [if_pos hsd] at h
    have hcalm : t.balance db = s.balance db ∧ t.logs = s.logs := by
      refine account_calm (P := .any) (fun h => ?_) (fun h => ?_) h
      · split_ifs
        · exact .refl h
        · exact mutates_touch h
      · split_ifs
        · rfl
        · rw [touch_present]
    exact ⟨fun _ => hcalm, fun _ => .of_void (.inr hsd) hcalm⟩
  rw [if_neg hsd] at h
  obtain ⟨paid, u, hu, h⟩ := Op.run_bind_eq_ok h
  obtain ⟨hlogs, hno, hyes⟩ := debit_balance mutates_touch touch_present hu
  cases paid with
  | false =>
    cases h
    exact ⟨fun _ => ⟨hno rfl, hlogs⟩, fun hc => by cases hc⟩
  | true =>
    obtain ⟨hc, hub⟩ := hyes rfl
    rw [if_pos rfl] at h
    obtain ⟨hd, hs, hr, ht, hlogs'⟩ := account_balance (P := .any)
      (fun h => (mutates_setBalance h _).trans (mutates_touch _)) h
    refine ⟨fun hf => ?_, fun _ => ?_⟩
    · rw [hr] at hf
      cases hf
    refine .of_steps hz hsd (hlogs'.trans hlogs) hc hub fun hfit b => ?_
    have hdst : u.balance db dst = s.balance db dst := by rw [hub, if_neg (Ne.symm hsd)]
    rw [← hdst, hs, ← toNat_balance] at hfit
    rw [ht, touch_present, balanceOf_setBalance, if_pos hfit, BitVec.toNat_add,
      Nat.mod_eq_of_lt hfit, toNat_balance, ← hs]

theorem create_balance {value : Word} {features : EvmFeatures}
    (h : (account db a fun h =>
      let balance := h.balance + value
      let h := h.presentMut fun _ => createdInfo features balance
      ((), h.markCreatedDiscardingStorage.touch)).run s = (.ok (), t)) :
    t.logs = s.logs ∧ (s.balance db a + value.toNat < 2 ^ 256 →
      ∀ b, t.balance db b = if b = a then s.balance db a + value.toNat else s.balance db b) := by
  have hf : ∀ h : AccountHandle, Mutates db .any h ((h.presentMut fun _ =>
      createdInfo features (h.balance + value)).markCreatedDiscardingStorage.touch) := by
    intro h
    have hc : Mutates db .any h
        (h.presentMut fun _ => createdInfo features (h.balance + value)).markCreatedDiscardingStorage :=
      .record _ rfl rfl ⟨id, id, id, fun _ => rfl, fun _ => rfl⟩ trivial
    exact hc.trans (mutates_touch _)
  obtain ⟨hd, hs, -, ht, hlogs⟩ := account_balance hf h
  refine ⟨hlogs, fun hfit b => ?_⟩
  rw [hs, ← toNat_balance] at hfit
  have hsum : (hd.balance + value).toNat = s.balance db a + value.toNat := by
    rw [BitVec.toNat_add, Nat.mod_eq_of_lt hfit, toNat_balance, ← hs]
  rw [ht, touch_present, ← hsum]
  rfl

theorem createAccount_balance {caller : Address} {value : Word} {features : EvmFeatures}
    {r : Except CreateError Unit} (h : (createAccount db caller a value features).run s = (.ok r, t)) :
    (∀ e, r = .error e → t.balance db = s.balance db ∧ t.logs = s.logs) ∧
      (r = .ok () → Paid db caller a value s t) := by
  obtain ⟨collision, s₁, h₁, h⟩ := Op.run_bind_eq_ok h
  have hread : s₁.balance db = s.balance db ∧ s₁.logs = s.logs :=
    account_calm (P := .any) (fun h => .refl h) (fun _ => rfl) h₁
  cases collision with
  | true =>
    cases h
    exact ⟨fun _ _ => hread, fun hr => by cases hr⟩
  | false =>
  obtain ⟨covered, s₂, h₂, h⟩ := Op.run_bind_eq_ok h
  by_cases hz : value = 0
  · -- without an endowment nobody pays
    rw [if_pos hz] at h₂
    cases h₂
    obtain ⟨_, s₃, h₃, h⟩ := Op.run_bind_eq_ok h
    cases h
    obtain ⟨hlogs, hbal⟩ := create_balance h₃
    refine ⟨nofun, fun _ => .of_void (.inl hz) ⟨funext fun b => ?_, ?_⟩⟩
    · rw [hbal (by simpa [hz] using balance_lt s₁ a), ← hread.1]
      split_ifs with hb
      · simp [hz, hb]
      · rfl
    · rw [hlogs, hread.2]
  rw [if_neg hz] at h₂
  obtain ⟨hlogs₂, hno, hyes⟩ :=
    debit_balance (g := id) (fun h => .refl h) (fun _ => rfl) h₂
  cases covered with
  | false =>
    cases h
    exact ⟨fun _ _ => ⟨(hno rfl).trans hread.1, hlogs₂.trans hread.2⟩, fun hr => by cases hr⟩
  | true =>
    obtain ⟨hc, hpay⟩ := hyes rfl
    obtain ⟨_, s₃, h₃, h⟩ := Op.run_bind_eq_ok h
    cases h
    obtain ⟨hlogs₃, hbal⟩ := create_balance h₃
    have hlogs : t.logs = s.logs := by rw [hlogs₃, hlogs₂, hread.2]
    rw [hread.1] at hc hpay
    refine ⟨nofun, fun _ => ?_⟩
    by_cases hca : caller = a
    · -- the account pays itself
      subst hca
      have hlt : s.balance db caller < 2 ^ 256 := balance_lt s caller
      have hs₂ := hpay caller
      rw [if_pos rfl] at hs₂
      refine .of_void (.inr rfl) ⟨funext fun b => ?_, hlogs⟩
      rw [hbal (by omega), hs₂]
      split_ifs with hb
      · rw [hb]
        omega
      · rw [hpay, if_neg hb]
    · refine .of_steps hz hca hlogs hc hpay fun hfit => hbal ?_
      rwa [hpay, if_neg (Ne.symm hca)]

end Transfers

end State

end Evm2
