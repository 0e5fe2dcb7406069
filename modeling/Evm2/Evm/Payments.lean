import Evm2.Evm.Upholds

/-!
# Balances along an execution

Every execution of a message moves balances by covered transfers, and burns the balances of
contracts that self-destruct to themselves. Nothing saturates, because all balances together fit
into a word.
-/

namespace Evm2

/-! ## Transfer logs -/

def Log.transfer (l : Log) : Option (Ledger.Move Address) :=
  match l.topics with
  | [topic, src, dst] =>
    if l.address = SYSTEM_ADDRESS ∧ topic = EIP7708_TRANSFER_TOPIC then
      some ⟨Word.toAddress src, some (Word.toAddress dst), ofBeBytes l.data⟩
    else none
  | _ => none

theorem Log.transfer_eip7708TransferLog {src dst : Address} {value : Word} {l : Log}
    (h : eip7708TransferLog src dst value = some l) :
    value ≠ 0 ∧ src ≠ dst ∧ l.transfer = some ⟨src, some dst, value.toNat⟩ := by
  unfold eip7708TransferLog at h
  split_ifs at h with hv
  rw [not_or] at hv
  refine ⟨hv.1, hv.2, ?_⟩
  cases h
  have hfit : value.toNat < 256 ^ 32 := value.isLt
  simpa [transfer, Address.toAddress_intoWord, ofBeBytes_beBytes] using hfit

theorem Log.transfer_of_ne {l : Log} (h : l.address ≠ SYSTEM_ADDRESS) : l.transfer = none := by
  unfold transfer
  split
  · rw [if_neg fun hc => h hc.1]
  · rfl

namespace Evm

variable [Keccak] (evm : Evm)

def total (s : State) : ℕ := ∑ a, s.balance evm.db a

/-- The balances fit into a word, and nothing has saturated. -/
structure Sane (w : World) : Prop where
  sound : w.state.Sound evm.db
  nonzero : w.state.TransientNonzero
  total : evm.total w.state < 2 ^ 256
  exact : w.exact = true

/-- Transfers are logged, and no balance is burned. -/
structure Reports : Prop where
  eip7708 : evm.feature .eip7708 = true
  eip8246 : evm.feature .eip8246 = true
  logCollection : evm.feature .logCollection = true

/-- Balances have moved along `ms`. The logs report exactly these moves, if transfers are logged
and the system address has no frame that logs. -/
structure PaysAlong (ms : List (Ledger.Move Address)) (w w' : World) : Prop where
  moves : Ledger.Run (w.state.balance evm.db) ms (w'.state.balance evm.db)
  burned : w'.burned = w.burned + Ledger.burned ms
  eip8246 : evm.feature .eip8246 = true → ∀ m ∈ ms, m.dst ≠ none
  systemLog : w.systemLog = true → w'.systemLog = true
  logs : ∃ new, w'.state.logs = w.state.logs ++ new ∧
    (evm.Reports → w'.systemLog = false → new.filterMap Log.transfer = ms)

/-- Balances have moved. -/
def Pays (w w' : World) : Prop := ∃ ms, evm.PaysAlong ms w w'

variable {evm} {w w' : World}

theorem PaysAlong.trans {ms ms' : List (Ledger.Move Address)} {w'' : World}
    (h : evm.PaysAlong ms w w') (h' : evm.PaysAlong ms' w' w'') :
    evm.PaysAlong (ms ++ ms') w w'' where
  moves := h.moves.append h'.moves
  burned := by rw [h'.burned, h.burned, Ledger.burned_append, Nat.add_assoc]
  eip8246 hf m hm := by
    rcases List.mem_append.mp hm with hm | hm
    · exact h.eip8246 hf m hm
    · exact h'.eip8246 hf m hm
  systemLog hs := h'.systemLog (h.systemLog hs)
  logs := by
    obtain ⟨new, hnew, hms⟩ := h.logs
    obtain ⟨new', hnew', hms'⟩ := h'.logs
    refine ⟨new ++ new', by rw [hnew', hnew, List.append_assoc], fun hr hs => ?_⟩
    have hs' : w'.systemLog = false := by
      rw [← Bool.not_eq_true]
      intro h1
      rw [h'.systemLog h1] at hs
      cases hs
    rw [List.filterMap_append, hms hr hs', hms' hr hs]

theorem Pays.of_same (hb : w'.state.balance evm.db = w.state.balance evm.db)
    (hburned : w'.burned = w.burned) (hsys : w'.systemLog = w.systemLog)
    (hlogs : w'.state.logs = w.state.logs) : evm.Pays w w' := by
  refine ⟨[], ?_, hburned, nofun, hsys.trans, [], by simpa using hlogs, fun _ _ => rfl⟩
  rw [hb]
  exact .nil _

instance : Std.Refl evm.Pays := ⟨fun _ => .of_same rfl rfl rfl rfl⟩

instance : IsTrans World evm.Pays where
  trans _ _ _ := fun ⟨ms, h⟩ ⟨ms', h'⟩ => ⟨ms ++ ms', h.trans h'⟩

theorem Pays.total_le (h : evm.Pays w w') : evm.total w'.state ≤ evm.total w.state := by
  obtain ⟨ms, hms⟩ := h
  have hsum := hms.moves.sum
  unfold Evm.total
  omega

theorem Sane.step (h : evm.Sane w) (hr : World.Runs evm .any w w')
    (hp : evm.Pays w w') (he : w'.exact = true) : evm.Sane w' where
  sound := ((hr h.nonzero).sound h.sound).1
  nonzero := ((hr h.nonzero).journals h.nonzero).nonzero
  total := hp.total_le.trans_lt h.total
  exact := he

theorem Sane.calm (h : evm.Sane w) (hr : World.Runs evm .calm w w')
    (hsame : World.SameRecords w w') : evm.Sane w' ∧ evm.Pays w w' := by
  obtain ⟨hbal, hlogs⟩ := (hr h.nonzero).calm h.sound h.nonzero
  have hpays : evm.Pays w w' := .of_same hbal hsame.burned hsame.systemLog hlogs
  refine ⟨h.step (fun hnz => ?_) hpays (hsame.exact.trans h.exact), hpays⟩
  exact (hr hnz).mono Permit.le_any

theorem Sane.undo {u : World} (hw : evm.Sane w) (hu : evm.Sane u)
    (h : World.Runs evm .any w u) (hp : evm.Pays w u) :
    evm.Sane (u.rollback evm w.checkpoint) ∧ evm.Pays w (u.rollback evm w.checkpoint) := by
  have hr := h hw.nonzero
  have hinfo : ∀ a, (u.rollback evm w.checkpoint).state.info evm.db a = w.state.info evm.db a :=
    hr.rollback_info hw.sound hw.nonzero id
  have hbal : (u.rollback evm w.checkpoint).state.balance evm.db = w.state.balance evm.db :=
    funext fun a => State.balance_congr (hinfo a)
  have hlogs : (u.rollback evm w.checkpoint).state.logs = w.state.logs :=
    ((hr.journals hw.nonzero).rollback id).1
  obtain ⟨ms, hms⟩ := hp
  refine ⟨⟨hu.sound.rollback _ _, ?_, ?_, hu.exact⟩,
    [], ?_, rfl, nofun, hms.systemLog, [], by simpa using hlogs, fun _ _ => rfl⟩
  · exact ((h.rollback hw.nonzero).journals hw.nonzero).nonzero
  · unfold Evm.total
    rw [hbal]
    exact hw.total
  · rw [hbal]
    exact .nil _

/-! ## Transfers with their logs -/

section Transfers

variable {src dst : Address} {value : Word} {s : State}

theorem balance_log (l : Log) (s : State) :
    State.balance evm.db (evm.log l s) = State.balance evm.db s := by
  unfold log
  split_ifs
  · exact funext fun a => State.balance_congr rfl
  · rfl

theorem balance_logEip7708Transfer (src dst : Address) (value : Word) (s : State) :
    State.balance evm.db (evm.logEip7708Transfer src dst value s) = State.balance evm.db s := by
  unfold logEip7708Transfer
  split_ifs
  · split
    · exact balance_log _ s
    · rfl
  · rfl

variable (evm) in
omit [Keccak] in
theorem logs_logEip7708Transfer (src dst : Address) (value : Word) (s : State) :
    ∃ new, (evm.logEip7708Transfer src dst value s).logs = s.logs ++ new ∧
      (value = 0 ∨ src = dst → new = []) ∧
      (value ≠ 0 → src ≠ dst → evm.feature .eip7708 = true → evm.feature .logCollection = true →
        new.filterMap Log.transfer = [⟨src, some dst, value.toNat⟩]) := by
  unfold logEip7708Transfer
  cases h : eip7708TransferLog src dst value with
  | none =>
    have hv : value = 0 ∨ src = dst := by
      unfold eip7708TransferLog at h
      split_ifs at h with hv
      exact hv
    refine ⟨[], by split_ifs <;> simp, fun _ => rfl, fun hz hsd => ?_⟩
    exact absurd hv (not_or.mpr ⟨hz, hsd⟩)
  | some l =>
    obtain ⟨hz, hsd, hl⟩ := Log.transfer_eip7708TransferLog h
    by_cases hf : evm.feature .eip7708 = true ∧ evm.feature .logCollection = true
    · refine ⟨[l], ?_, fun hv => absurd hv (not_or.mpr ⟨hz, hsd⟩), fun _ _ _ _ => by simp [hl]⟩
      simp [log, hf.1, hf.2, State.log]
    · refine ⟨[], ?_, fun _ => rfl, fun _ _ h1 h2 => absurd ⟨h1, h2⟩ hf⟩
      split_ifs with h1
      · simp [log, show evm.feature .logCollection = false by simpa [h1] using hf]
      · simp

theorem Sane.pays (hw : evm.Sane w)
    (hpaid : State.Paid evm.db src dst value w.state s)
    (hs : w'.state = evm.logEip7708Transfer src dst value s) (hb : w'.burned = w.burned)
    (hsys : w'.systemLog = w.systemLog) :
    evm.Pays w w' ∧
      (src = dst ∨ s.balance evm.db dst = w.state.balance evm.db dst + value.toNat) := by
  obtain ⟨new, hnew, hvoid, hmove⟩ := logs_logEip7708Transfer evm src dst value s
  have hbal : w'.state.balance evm.db = s.balance evm.db := by
    rw [hs, balance_logEip7708Transfer]
  have hlogs : w'.state.logs = w.state.logs ++ new := by rw [hs, hnew, hpaid.logs]
  by_cases hv : value = 0 ∨ src = dst
  · have hsame := hpaid.void hv
    refine ⟨.of_same (hbal.trans hsame) hb hsys (by rw [hlogs, hvoid hv, List.append_nil]), ?_⟩
    rcases hv with hz | hsd
    · exact .inr (by rw [hsame, hz]; rfl)
    · exact .inl hsd
  · rw [not_or] at hv
    obtain ⟨hz, hsd⟩ := hv
    have hc := hpaid.covered hz hsd
    have hfit : w.state.balance evm.db dst + value.toNat < 2 ^ 256 := by
      have hsum := Ledger.add_le_sum (w.state.balance evm.db) hsd
      have htotal := hw.total
      unfold Evm.total at htotal
      omega
    have hmoved := hpaid.moved hz hsd hfit
    have hpos : 0 < value.toNat := by
      rw [Nat.pos_iff_ne_zero]
      exact fun h0 => hz (BitVec.eq_of_toNat_eq h0)
    refine ⟨⟨[⟨src, some dst, value.toNat⟩], ?_, by simp [hb, Ledger.burned, Ledger.Move.burned],
      fun _ m hm => ?_, hsys.trans, new, hlogs,
      fun h _ => hmove hz hsd h.eip7708 h.logCollection⟩, .inr ?_⟩
    · rw [hbal, hmoved]
      refine .single ⟨?_, hpos, hc⟩
      simpa using Ne.symm hsd
    · rw [List.mem_singleton] at hm
      rw [hm]
      intro h
      cases h
    · rw [hmoved]
      simp [Ledger.Move.apply, hsd]

theorem Sane.payment (hw : evm.Sane w)
    {paid : Bool}
    {w₁ : World} (hruns : World.Runs evm .any w w₁) (hburned : w₁.burned = w.burned)
    (hsys : w₁.systemLog = w.systemLog)
    (hexact : w₁.exact = (!paid || src == dst ||
      w₁.state.balance evm.db dst == w.state.balance evm.db dst + value.toNat))
    (hno : paid = false →
      w₁.state.balance evm.db = w.state.balance evm.db ∧ w₁.state.logs = w.state.logs)
    (hyes : paid = true → State.Paid evm.db src dst value w.state w₁.state)
    (hw' : w' = if paid then
      { w₁ with state := evm.logEip7708Transfer src dst value w₁.state } else w₁) :
    evm.Sane w' ∧ evm.Pays w w' := by
  cases paid with
  | false =>
    obtain rfl : w' = w₁ := hw'
    have hpays : evm.Pays w w' := .of_same (hno rfl).1 hburned hsys (hno rfl).2
    exact ⟨hw.step hruns hpays hexact, hpays⟩
  | true =>
    rw [if_pos rfl] at hw'
    have hs : w'.state = evm.logEip7708Transfer src dst value w₁.state := by rw [hw']
    obtain ⟨hpays, hgot⟩ := hw.pays (hyes rfl) hs (by rw [hw', hburned]) (by rw [hw', hsys])
    refine ⟨hw.step ?_ hpays ?_, hpays⟩
    · rw [hw']
      exact IsTrans.trans _ _ _ hruns (moves_logEip7708Transfer src dst value (fun _ _ => trivial) w₁)
    · rw [hw', hexact]
      rcases hgot with hsd | hgot
      · simp [hsd]
      · simp [hgot]

theorem Sane.transfer (hw : evm.Sane w)
    {covered : Bool}
    {w₁ : World} (h : (evm.transfer src dst value).run w = (.ok covered, w₁))
    (hw' : w' = if covered then
      { w₁ with state := evm.logEip7708Transfer src dst value w₁.state } else w₁) :
    evm.Sane w' ∧ evm.Pays w w' := by
  obtain ⟨hrun, hburned, hsys, hexact⟩ := World.noting_ok h
  obtain ⟨hno, hyes⟩ := State.transfer_balance hrun
  have hmove : World.Runs evm .any w _ :=
    moves_transfer src dst value (fun _ _ => inferInstance) w
  rw [h] at hmove
  rw [hw.exact, Bool.true_and] at hexact
  exact hw.payment hmove hburned hsys hexact hno hyes hw'

theorem Sane.createAccount (hw : evm.Sane w)
    {r : Except State.CreateError Unit} {w₁ : World}
    (h : (evm.createAccount src dst value).run w = (.ok r, w₁))
    (hw' : w' = if r.isOk then
      { w₁ with state := evm.logEip7708Transfer src dst value w₁.state } else w₁) :
    evm.Sane w' ∧ evm.Pays w w' := by
  obtain ⟨hrun, hburned, hsys, hexact⟩ := World.noting_ok h
  obtain ⟨hno, hyes⟩ := State.createAccount_balance hrun
  have hmove : World.Runs evm .any w _ := moves_createAccount src dst value w
  rw [h] at hmove
  rw [hw.exact, Bool.true_and] at hexact
  refine hw.payment hmove hburned hsys hexact (fun hr => ?_) (fun hr => ?_) hw'
  · cases r with
    | error e => exact hno e rfl
    | ok => cases hr
  · cases r with
    | error e => cases hr
    | ok => exact hyes rfl

end Transfers

/-! ## Self-destruction and deployment -/

section Selfdestruct

variable {contract target : Address} {balance : Word}

theorem Sane.ensures_calm {α : Type} {x : Op World ExecutionError α}
    (hm : Op.Moves (World.Runs evm .calm) x)
    (hghost : ∀ w, World.SameRecords w (x.run w).2) : Op.Ensures evm.Sane evm.Pays x := by
  intro w a w' hw h
  have hrun := hm w
  have hsame := hghost w
  rw [h] at hrun hsame
  exact hw.calm hrun hsame

theorem Sane.burn (hw : evm.Sane w) (h8246 : evm.feature .eip8246 = false) (hz : balance ≠ 0)
    (hbal : w.state.balance evm.db contract = balance.toNat) {w₁ : World}
    (h : (World.onState (State.account evm.db contract fun h =>
      ((), h.addBalance (0 - balance)))).run w = (.ok (), w₁))
    (hw' : w' = { w₁ with burned := w₁.burned + balance.toNat }) :
    evm.Sane w' ∧ evm.Pays w w' := by
  have hmut : ∀ h : AccountHandle,
      AccountHandle.Mutates evm.db .any h (h.addBalance (0 - balance)) :=
    fun h => AccountHandle.mutates_addBalance h _
  have hmoves : Op.Moves (World.Runs evm .any) (World.onState
      (State.account evm.db contract fun h => ((), h.addBalance (0 - balance)))) :=
    World.moves_onState (State.moves_account evm.db hmut)
  have hmove := hmoves w
  rw [h] at hmove
  obtain ⟨hrun, hsame⟩ := World.onState_ok h
  obtain ⟨hd, hs, -, ht, hlogs⟩ := State.account_balance hmut hrun
  -- the balance read before is the balance now, so adding its negative gives zero
  have hd0 : hd.balance = balance := by
    apply BitVec.eq_of_toNat_eq
    rw [State.toNat_balance, ← hs, hbal]
  have hzero : State.balanceOf (hd.addBalance (0 - balance)).tracked.present = 0 := by
    have hneg : (0 - balance : Word) ≠ 0 := by
      intro h0
      exact hz (by simpa using h0)
    have hsum : balance + (0 - balance) = 0 := by bv_omega
    rw [AccountHandle.addBalance, if_neg hneg, State.balanceOf_setBalance, hd0, hsum]
    rfl
  have hpos : 0 < balance.toNat := by
    rw [Nat.pos_iff_ne_zero]
    exact fun h0 => hz (BitVec.eq_of_toNat_eq h0)
  have hpays : evm.Pays w w' := by
    refine ⟨[⟨contract, none, balance.toNat⟩], ?_, ?_, fun hf => ?_, ?_, [], ?_, fun h => ?_⟩
    · have hafter : w'.state.balance evm.db =
          (Ledger.Move.mk contract none balance.toNat).apply (w.state.balance evm.db) := by
        funext b
        rw [hw', ht, hzero]
        unfold Ledger.Move.apply
        by_cases hb : b = contract
        · subst hb
          simp [hbal]
        · simp [hb, Ne.symm hb]
      rw [hafter]
      exact .single ⟨nofun, hpos, hbal.ge⟩
    · rw [hw', hsame.burned]
      simp [Ledger.burned, Ledger.Move.burned]
    · rw [h8246] at hf
      cases hf
    · rw [hw']
      exact hsame.systemLog.trans
    · rw [hw', hlogs, List.append_nil]
    · rw [h.eip8246] at h8246
      cases h8246
  refine ⟨hw.step ?_ hpays ?_, hpays⟩
  · rw [hw']
    exact hmove
  · rw [hw', hsame.exact, hw.exact]

theorem Sane.selfdestructBalance (hw : evm.Sane w)
    {shouldDestroy : Bool}
    (hbal : w.state.balance evm.db contract = balance.toNat)
    (h : (evm.selfdestructBalance contract target balance shouldDestroy).run w = (.ok (), w')) :
    evm.Sane w' ∧ evm.Pays w w' := by
  unfold Evm.selfdestructBalance at h
  split_ifs at h with hct hburn
  · obtain ⟨transferred, w₁, ht, h⟩ := Op.run_bind_eq_ok h
    refine hw.transfer ht ?_
    cases transferred <;> cases h <;> rfl
  · obtain ⟨_, w₁, ht, h⟩ := Op.run_bind_eq_ok h
    cases h
    simp only [Bool.and_eq_true, decide_eq_true_eq, Bool.not_eq_true'] at hburn
    exact hw.burn hburn.2 hburn.1.2 hbal ht rfl
  · cases h
    exact ⟨hw, refl w⟩

theorem Sane.selfdestructContract (hw : evm.Sane w)
    {isCold targetIsEmpty : Bool}
    {result : SelfDestructResult}
    (h : (evm.selfdestructContract contract target isCold targetIsEmpty).run w =
      (.ok result, w')) :
    evm.Sane w' ∧ evm.Pays w w' := by
  obtain ⟨⟨destroyed, balance, shouldDestroy⟩, w₁, h₁, h⟩ := Op.run_bind_eq_ok h
  obtain ⟨_, w₂, h₂, h⟩ := Op.run_bind_eq_ok h
  obtain ⟨_, w₃, h₃, h⟩ := Op.run_bind_eq_ok h
  cases h
  have hread : Op.Ensures evm.Sane evm.Pays (World.onState
      (State.account evm.db contract fun h => ((h.tracked.flags.destroyed, h.balance,
        !evm.version.features.contains .eip6780 || h.isCreated), h))) :=
    Sane.ensures_calm (World.moves_onState (State.moves_account evm.db fun h => .refl h))
      (World.sameRecords_onState _)
  have hmark : Op.Ensures evm.Sane evm.Pays (World.onState
      (State.account evm.db contract fun h => ((), h.markDestructed))) := by
    refine Sane.ensures_calm (World.moves_onState (State.moves_account evm.db fun h => ?_))
      (World.sameRecords_onState _)
    exact AccountHandle.mutates_markDestructed h rfl
  obtain ⟨hw₁, hp₁⟩ := hread w _ w₁ hw h₁
  -- the balance that was read is the balance of the contract
  obtain ⟨hd, -, hr, ht, -⟩ :=
    State.account_balance (P := .any) (fun h => .refl h) (World.onState_ok h₁).1
  have hbal : w₁.state.balance evm.db contract = balance.toNat := by
    rw [ht, if_pos rfl, ← State.toNat_balance]
    cases hr
    rfl
  obtain ⟨hw₂, hp₂⟩ := hw₁.selfdestructBalance hbal h₂
  have hlast : evm.Sane w' ∧ evm.Pays w₂ w' := by
    split_ifs at h₃
    · exact hmark w₂ _ w' hw₂ h₃
    · cases h₃
      exact ⟨hw₂, refl w'⟩
  exact ⟨hlast.1, IsTrans.trans _ _ _ (IsTrans.trans _ _ _ hp₁ hp₂) hlast.2⟩

theorem Sane.deploy (code : Bytecode) : Op.Ensures evm.Sane evm.Pays
    (World.onState (State.account evm.db contract fun h => ((), h.setCodeSlow code))) := by
  intro w r w' hw h
  have hmut : ∀ h : AccountHandle, AccountHandle.Mutates evm.db .any h (h.setCodeSlow code) :=
    fun h => AccountHandle.mutates_setCode h _ _ trivial
  have hpres : ∀ h : AccountHandle, State.balanceOf (h.setCodeSlow code).tracked.present =
      State.balanceOf h.tracked.present := by
    intro h
    refine (Permit.toNat_balance_getD h.touch.tracked.present).trans ?_
    rw [State.touch_present]
  have hmoves : Op.Moves (World.Runs evm .any) (World.onState
      (State.account evm.db contract fun h => ((), h.setCodeSlow code))) :=
    World.moves_onState (State.moves_account evm.db hmut)
  have hmove := hmoves w
  rw [h] at hmove
  obtain ⟨hrun, hsame⟩ := World.onState_ok h
  obtain ⟨hbal, hlogs⟩ := State.account_calm hmut hpres hrun
  have hpays : evm.Pays w w' := .of_same hbal hsame.burned hsame.systemLog hlogs
  exact ⟨hw.step hmove hpays (hsame.exact.trans hw.exact), hpays⟩

end Selfdestruct

/-! ## Whole executions -/

variable (evm) in
def CalmPrecompiles : Prop :=
  ∀ m, Op.Moves (fun gs gs' : GasTracker × State =>
    State.Runs evm.db .calm (evm.feature .eip161) gs.2 gs'.2) (evm.precompiles.execute m)

/-- **Every part of an execution keeps the world sane and pays.** -/
theorem upholds_pays (hpre : evm.CalmPrecompiles) :
    evm.Upholds evm.Sane evm.Pays fun _ => True where
  sends _ _ _ _ _ := trivial
  input _ _ := trivial
  undo _ _ hw hu h hp := hw.undo hu h hp
  calm _ _ hw h hsame := hw.calm h hsame
  log m l _ _ _ := by
    refine .update fun w hw => ?_
    have hpays : evm.Pays w { w with
        state := evm.log l w.state, systemLog := w.systemLog || l.address == SYSTEM_ADDRESS } := by
      refine ⟨[], ?_, rfl, nofun, fun hs => by simp [hs], ?_⟩
      · rw [balance_log]
        exact .nil _
      · unfold Evm.log
        split_ifs
        · refine ⟨[l], rfl, fun _ hs => ?_⟩
          have hne : l.address ≠ SYSTEM_ADDRESS := by
            intro h
            simp [h] at hs
          simp [Log.transfer_of_ne hne]
        · exact ⟨[], by simp, fun _ _ => rfl⟩
    exact ⟨hw.step (moves_log trivial l w) hpays hw.exact, hpays⟩
  selfdestruct m target skip _ _ := by
    intro w r w' hw h
    obtain ⟨access, w₁, h₁, h⟩ := Op.run_bind_eq_ok h
    have hacc : Op.Ensures evm.Sane evm.Pays (World.onLoad
        (State.accountWithSkip evm.db target skip (Op.total fun h =>
          ((h.warm.1, h.warm.2.isEmptyForNewAccountGas evm.version.features), h.warm.2)))) := by
      refine Sane.ensures_calm (World.moves_onLoad
        (State.moves_accountWithSkip evm.db skip fun h => ?_)) (World.sameRecords_onLoad _)
      exact AccountHandle.mutates_warm h
    obtain ⟨hw₁, hp₁⟩ := hacc w _ w₁ hw h₁
    cases access with
    | error reason =>
      cases h
      exact ⟨hw₁, hp₁⟩
    | ok access =>
      obtain ⟨result, w₂, h₂, h⟩ := Op.run_bind_eq_ok h
      cases h
      obtain ⟨hw₂, hp₂⟩ := hw₁.selfdestructContract h₂
      exact ⟨hw₂, IsTrans.trans _ _ _ hp₁ hp₂⟩
  transfer m _ _ := by
    intro w r w' hw h
    unfold callTransfer at h
    split_ifs at h
    · obtain ⟨covered, w₁, h₁, h⟩ := Op.run_bind_eq_ok h
      obtain ⟨_, w₂, h₂, h⟩ := Op.run_bind_eq_ok h
      cases h
      refine hw.transfer h₁ ?_
      cases r <;> cases h₂ <;> rfl
    · cases h
      exact ⟨hw, refl w⟩
  create m _ _ := by
    intro w r w' hw h
    obtain ⟨created, w₁, h₁, h⟩ := Op.run_bind_eq_ok h
    refine hw.createAccount h₁ ?_
    cases created with
    | error e | ok => cases h; rfl
  deploy _ code _ _ := Sane.deploy code
  precompile m _ _ :=
    Sane.ensures_calm (fun w _ => hpre m (_, w.state)) fun _ => ⟨rfl, rfl, rfl⟩

theorem executeMessage_error_same (hp : evm.Permits .any fun _ => True) (hw : evm.Sane w)
    {fuel : Nat} {m : Message} {e : ExecutionError}
    (h : (evm.executeMessage fuel m).run w = (.error e, w')) :
    w'.state.balance evm.db = w.state.balance evm.db ∧ w'.state.logs = w.state.logs := by
  rcases executeMessage_error hp trivial h with rfl | ⟨u, hu, rfl⟩
  · exact ⟨rfl, rfl⟩
  · have hr := hu hw.nonzero
    refine ⟨funext fun a => State.balance_congr ?_, ((hr.journals hw.nonzero).rollback id).1⟩
    exact hr.rollback_info hw.sound hw.nonzero id a

end Evm

/-- **Transfer logs explain every balance change** (EIP-7708), however a message ends, as long as no
frame of the system address logs. -/
theorem transfer_logs_explain_balances [Keccak] {evm : Evm} (hreports : evm.Reports)
    (hpre : evm.CalmPrecompiles) {s : State} (hs : s.Reached evm.db .any)
    (htotal : evm.total s < 2 ^ 256) (fuel : Nat) (m : Message)
    (hsystem : ((evm.executeMessage fuel m).run (.ofState s)).2.systemLog = false) :
    let s' := ((evm.executeMessage fuel m).run (.ofState s)).2.state
    ∃ new, s'.logs = s.logs ++ new ∧
      (∀ a, (s'.balance evm.db a : ℤ) - s.balance evm.db a =
        Ledger.received (new.filterMap Log.transfer) a - Ledger.sent (new.filterMap Log.transfer) a) ∧
      ∀ move ∈ new.filterMap Log.transfer, move.dst ≠ some move.src ∧ 0 < move.value := by
  intro s'
  have hsane : evm.Sane (.ofState s) := ⟨hs.sound, hs.nonzero, htotal, rfl⟩
  have hany : evm.Permits .any fun _ => True :=
    Evm.permits_any fun m gs => (hpre m gs).mono Permit.le_any
  rcases hrun : (evm.executeMessage fuel m).run (.ofState s) with ⟨e | result, w'⟩
  · -- an error is rolled back
    obtain ⟨hbal, hlogs⟩ := Evm.executeMessage_error_same hany hsane hrun
    have hs' : s' = w'.state := congrArg (fun r => r.2.state) hrun
    refine ⟨[], ?_, fun a => ?_, nofun⟩
    · rw [hs', hlogs, List.append_nil]
      rfl
    · rw [hs', hbal]
      simp [Ledger.received, Ledger.sent, World.ofState]
  · obtain ⟨-, -, ms, hms⟩ :=
      Evm.executeMessage_ensures (Evm.upholds_pays hpre) hany fuel trivial _ _ _ hsane hrun
    obtain ⟨new, hnew, hreport⟩ := hms.logs
    rw [hrun] at hsystem
    have hlist : new.filterMap Log.transfer = ms := hreport hreports hsystem
    have hs' : s' = w'.state := congrArg (fun r => r.2.state) hrun
    refine ⟨new, ?_, fun a => ?_, fun move hmove => ?_⟩
    · rw [hs']
      exact hnew
    · have hbalance : w'.state.balance evm.db a + Ledger.sent ms a =
          s.balance evm.db a + Ledger.received ms a := hms.moves.balance a
      rw [hs', hlist]
      omega
    · rw [hlist] at hmove
      exact hms.moves.proper hmove

/-! ### On small inputs -/

def reporting [Keccak] : Evm :=
  { Evm.bare with
    version := { Evm.bare.version with features := .ofList [.eip7708, .eip8246, .logCollection] }
    db := { Database.empty with
      getAccount := fun a => .ok (if a = 1 then some { AccountInfo.default with balance := 5 }
        else none) } }

theorem reports_reporting [Keccak] : reporting.Reports := ⟨rfl, rfl, rfl⟩

theorem calm_reporting [Keccak] : reporting.CalmPrecompiles := fun _ gs => .refl gs.2

theorem reached_new [Keccak] (db : Database) : State.new.Reached db .any :=
  ⟨.new, false, rfl, rfl, .refl _⟩

theorem total_reporting [Keccak] : reporting.total .new = 5 := by
  have hbal : ∀ a, State.new.balance reporting.db a = if a = 1 then 5 else 0 := by
    intro a
    by_cases ha : a = 1
    · subst ha
      rfl
    · have ha' : a ≠ 1#160 := ha
      simp [State.balance, State.accountInfoUntracked, State.onCache, State.onInner,
        StateInner.onCache, Cache.getAccount, State.new, Cache.default, reporting, ha']
  unfold Evm.total
  simp [hbal]

def payingCall : Message :=
  { Message.default with caller := 1, destination := 2, callTarget := 2, value := 3 }

theorem transfer_logs_explain_balances_call :
    letI := Keccak.const
    let s' := ((reporting.executeMessage 1 payingCall).run (.ofState .new)).2.state
    s'.balance reporting.db 2 = 3 ∧
      ∃ new, s'.logs = [] ++ new ∧
        (∀ a, (s'.balance reporting.db a : ℤ) - State.new.balance reporting.db a =
          Ledger.received (new.filterMap Log.transfer) a -
            Ledger.sent (new.filterMap Log.transfer) a) ∧
        ∀ move ∈ new.filterMap Log.transfer, move.dst ≠ some move.src ∧ 0 < move.value :=
  letI := Keccak.const
  ⟨by decide +kernel, transfer_logs_explain_balances reports_reporting calm_reporting
    (reached_new _) (by rw [total_reporting]; decide) 1 payingCall (by decide +kernel)⟩

/-- A call to the system address with code that logs what looks like a transfer of one wei from
address one to address two. -/
def forgingCall : Message :=
  { Message.default with
    destination := SYSTEM_ADDRESS
    callTarget := SYSTEM_ADDRESS
    code := .legacy ([0x60#8, 0x01#8, 0x5F#8, 0x52#8, 0x60#8, 0x02#8, 0x60#8, 0x01#8, 0x7F#8] ++
      beBytes 32 EIP7708_TRANSFER_TOPIC.toNat ++ [0x60#8, 0x20#8, 0x5F#8, 0xA3#8]) }

/-- The logs do not explain the balances if the system address logs. -/
theorem forged_transfer_log :
    letI := Keccak.const
    let r := (reporting.executeMessage 12 forgingCall).run (.ofState .new)
    r.1.map MessageResult.stop = .ok .stop ∧
      ¬∃ new, r.2.state.logs = [] ++ new ∧
        ∀ a, (r.2.state.balance reporting.db a : ℤ) - State.new.balance reporting.db a =
          Ledger.received (new.filterMap Log.transfer) a -
            Ledger.sent (new.filterMap Log.transfer) a := by
  let := Keccak.const
  intro r
  refine ⟨by decide +kernel, ?_⟩
  rintro ⟨new, hnew, hbal⟩
  have hgain : (r.2.state.balance reporting.db 2 : ℤ) - State.new.balance reporting.db 2 = 0 := by
    decide +kernel
  have hlogged : Ledger.received (r.2.state.logs.filterMap Log.transfer) 2 = 1 ∧
      Ledger.sent (r.2.state.logs.filterMap Log.transfer) 2 = 0 := by
    decide +kernel
  have h2 := hbal 2
  rw [List.nil_append] at hnew
  rw [hgain, ← hnew, hlogged.1, hlogged.2] at h2
  cases h2

end Evm2
