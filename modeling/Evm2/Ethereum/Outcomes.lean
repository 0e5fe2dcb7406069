import Evm2.Ethereum.Accesses
import Evm2.Evm.Payments
import Evm2.Evm.Static

/-!
# What a transaction can do

Preparing and executing a transaction moves the state along runs, however it ends; in between, what
is prewarmed changes. But for the charge, the messages and the settlement, these runs are calm.
-/

namespace Evm2

section Transactions

variable [Keccak]

/-- The state stays sound, and the cache database says the same. -/
def World.Stays (db : Database) (w w' : World) : Prop :=
  w.state.Sound db → w.state.TransientNonzero →
    w'.state.Sound db ∧ w'.state.TransientNonzero ∧
      Cache.SameData db w.state.cache w'.state.cache

instance {db : Database} : Std.Refl (World.Stays db) := ⟨fun _ hs hnz => ⟨hs, hnz, .refl _⟩⟩

instance {db : Database} : IsTrans World (World.Stays db) where
  trans _ _ _ h h' hs hnz := by
    obtain ⟨hs₁, hnz₁, hc₁⟩ := h hs hnz
    obtain ⟨hs₂, hnz₂, hc₂⟩ := h' hs₁ hnz₁
    exact ⟨hs₂, hnz₂, hc₁.trans hc₂⟩

theorem World.Runs.stays {evm : Evm} {P : Permit} {w w' : World} (h : World.Runs evm P w w') :
    World.Stays evm.db w w' := by
  intro hs hnz
  obtain ⟨hs', hc⟩ := (h hnz).sound hs
  exact ⟨hs', ((h hnz).journals hnz).nonzero, hc⟩

/-! ## Calm phases -/

/-- A run that changes no balance and logs nothing. -/
structure World.Calm (evm : Evm) (w w' : World) : Prop where
  runs : World.Runs evm .calm w w'
  records : World.SameRecords w w'

namespace World

variable {evm : Evm} {α : Type}

instance : Std.Refl (Calm evm) := ⟨fun w => ⟨refl w, rfl, rfl, rfl⟩⟩

instance : IsTrans World (Calm evm) where
  trans _ _ _ h h' := ⟨IsTrans.trans _ _ _ h.runs h'.runs, h'.records.burned.trans h.records.burned,
    h'.records.exact.trans h.records.exact, h'.records.systemLog.trans h.records.systemLog⟩

theorem Calm.runs_any {w w' : World} (h : Calm evm w w') : Runs evm .any w w' :=
  fun hnz => (h.runs hnz).mono Permit.le_any

theorem calm_onState {x : Op State DatabaseError α} (h : Op.Moves (State.Run evm.db .calm) x) :
    Op.Moves (Calm evm) (onState x) :=
  fun w => ⟨moves_onState h w, sameRecords_onState x w⟩

end World

omit [Keccak] in
theorem AccountHandle.calm_loadCode (db : Database) : Op.Moves (AccountHandle.Mutates db .calm)
    ((AccountHandle.loadCode db).mapError LoadError.database) :=
  fun h => AccountHandle.mutates_loadCode h

omit [Keccak] in
theorem AccountHandle.calm_warm (db : Database) : Op.Moves (AccountHandle.Mutates db .calm)
    (Op.total AccountHandle.warm : Op AccountHandle LoadError Bool) :=
  AccountHandle.mutates_warm

namespace TxHost

open AccountHandle (calm_loadCode calm_warm)
open Evm (OnSnd moves_onWorld moves_onGas)

variable {host : TxHost} {α : Type}

theorem calm_session {a : Address} {f : Op AccountHandle LoadError α}
    (h : Op.Moves (AccountHandle.Mutates host.evm.db .calm) f) :
    Op.Moves (OnSnd (World.Calm host.evm)) (host.session a f) :=
  moves_onWorld (World.calm_onState ((State.moves_accountWithSkip host.evm.db false h).mapError _))

theorem calm_resolveCode (recipient : Address) (code : Bytecode) :
    Op.Moves (OnSnd (World.Calm host.evm)) (host.resolveCode recipient code) := by
  unfold resolveCode
  cases if host.evm.feature .eip7702 then code.eip7702Address else none with
  | none => exact .ret _
  | some delegated =>
    refine .bind (.ite ?_ (.bind (calm_session ?_) fun _ => .ret _)) fun _ => .ret _
    · refine .bind (moves_onGas _) fun enough => .ite (.ret _) (.bind (moves_onGas _) fun _ => ?_)
      refine .bind (moves_onWorld fun w =>
        ⟨Evm.moves_loadAccount _ _ _ w, World.sameRecords_onLoad _ w⟩) fun access => ?_
      cases access with
      | error reason => exact .ret _
      | ok load => exact .bind (.ite (moves_onGas _) (.ret _)) fun _ => .ret _
    · exact .bind (calm_warm _) fun _ => calm_loadCode _

theorem calm_prepareInitialFrame (caller : Address) (nonce : U64) (recipient : TxKind)
    (input : Bytes) (value : Word) :
    Op.Moves (OnSnd (World.Calm host.evm))
      (host.prepareInitialFrame caller nonce recipient input value) := by
  refine .bind (moves_onGas _) fun budget => .bind ?_ fun _ => .ret _
  cases recipient with
  | call a =>
    refine .bind (calm_session (.bind .get fun _ => .bind (calm_loadCode _) fun _ => .ret _))
      fun r => .bind (.ite (moves_onGas _) (.ret _)) fun enough => .ite (.ret _) ?_
    refine .bind (calm_resolveCode a r.2) fun code => ?_
    cases code with
    | none => exact .ret _
    | some code => exact .bind (moves_onGas _) fun _ => .ret _
  | create =>
    refine .bind (.ite (moves_onWorld (World.calm_onState ?_)) (.ret _)) fun charges =>
      .bind (.ite (moves_onGas _) (.ret _)) fun enough => .ite (.ret _) ?_
    · exact State.moves_account host.evm.db fun h => .refl h
    · exact .bind (moves_onGas _) fun _ => .ret _

/-! ### Authorizations -/

theorem calm_validateOneAuth (db : Database) (chainId : Nat) (auth : Authorization) :
    Op.Moves (State.Run db .calm) (validateOneAuth db chainId auth) := by
  rw [validateOneAuth_eq]
  cases auth.names chainId with
  | none => exact fun s => .refl
  | some authority =>
    refine .bind ((State.moves_accountWithSkip db false ?_).mapError _) fun _ => .ret _
    exact Op.Moves.bind (calm_warm db) fun _ => Tracked.moves_authorityChecks auth
      (fun h => AccountHandle.mutates_loadCode h) fun h => AccountHandle.mutates_originalCode h

theorem calm_setDelegation {db : Database} (h : AccountHandle) (a : Address) :
    AccountHandle.Mutates db .calm h (h.setDelegation a) :=
  (AccountHandle.mutates_setCode h _ _ (Permit.toNat_balance_getD _)).trans
    (AccountHandle.mutates_bumpNonce _)

theorem calm_applyAuthList {σ : Type} (db : Database) (A : AuthAccounting σ) (chainId : Nat)
    (auths : List Authorization) :
    Op.Moves (Order.Preimage Prod.fst (State.Run db .calm)) (applyAuthList db A chainId auths) := by
  induction auths with
  | nil => exact .ret _
  | cons auth auths ih =>
    refine .bind (fun sc => calm_validateOneAuth db chainId auth sc.1) fun checked => ?_
    cases checked with
    | none => exact .bind (.update fun sc => .refl) fun _ => ih
    | some checked =>
      refine .bind (fun sc => .refl) fun oog => .ite (.ret _) (.bind (fun sc => ?_) fun _ => ih)
      exact State.moves_account (f := fun h => ((), h.setDelegation auth.address)) db
        (fun h => calm_setDelegation h _) sc.1

theorem calm_authorize (prepared : PreparedTx) (tx : TxEip7702) :
    Op.Moves (OnSnd (World.Calm host.evm)) (host.authorize prepared tx) := by
  intro gw
  refine ⟨World.Runs.of_run ?_, rfl, rfl, rfl⟩
  unfold authorize authorizationPhase
  dsimp only
  split_ifs
  · exact calm_applyAuthList _ _ _ _ (gw.2.state, _)
  · split <;> exact calm_applyAuthList _ _ _ _ (gw.2.state, _)

theorem calm_authorizedFrame (prepared : PreparedTx) (tx : TxEip7702)
    (executionGasLimit reservoir : Nat) :
    Op.Moves (OnSnd (World.Calm host.evm))
      (host.authorizedFrame prepared tx executionGasLimit reservoir) := by
  intro gw
  have hframe := @calm_prepareInitialFrame _ host prepared.caller prepared.senderNonce
    (.call tx.recipient) tx.input tx.value
  have hcp : (Evm.onWorld (Op.total fun w => (w.checkpoint, w)) :
      Op (GasTracker × World) ExecutionError _).run gw = (.ok gw.2.checkpoint, gw) := rfl
  unfold authorizedFrame
  rw [Op.run_bind_ok hcp]
  refine (Op.Keeps.bind ((calm_authorize prepared tx).keeps gw) fun r => ?_) gw (refl gw)
  refine .bind (.ite (fun _ => .ret _) fun _ => hframe.keeps gw) fun frame =>
    .bind (.ite (fun _ => ?_) fun _ => .ret _) fun _ => .ret _
  -- the delegations are dropped
  intro gw' h
  exact ⟨h.runs.rollback, rfl, h.records.exact, h.records.systemLog⟩

/-! ## Whole transactions -/

theorem moves_defaultSettleGas (settlement : GasSettlement) :
    Op.Moves (World.Runs host.evm .any) (host.defaultSettleGas settlement) := by
  have hcredit : ∀ a amount, Op.Moves (World.Runs host.evm .any) (host.credit a amount) :=
    fun a amount => World.moves_noting (State.moves_account host.evm.db fun h =>
      AccountHandle.mutates_addBalance h amount)
  exact .bind (.ite (.bind (hcredit _ _) fun _ => hcredit _ _) (.ret _)) fun _ => .ret _

theorem moves_executeInitialFrame (hpre : host.evm.precompiles.Stateless) (fuel : Nat)
    (frame : InitialFrame) (txGas : GasTracker) (executionGasLimit reservoir : Nat) :
    Op.Moves (World.Runs host.evm .any)
      (host.executeInitialFrame fuel frame txGas executionGasLimit reservoir) := by
  have hp : host.evm.Permits .any fun _ => True := by
    refine Evm.permits_any fun m gs => ?_
    dsimp only
    rw [hpre m gs]
    exact .refl _
  exact .ite (.ret _) (.bind (Evm.executeMessage_moves hp fuel trivial) fun _ => .ret _)

omit [Keccak] in
theorem moves_withGas {R : World → World → Prop} {x : Op (GasTracker × World) ExecutionError α}
    (h : Op.Moves (OnSnd R) x) (gas : GasTracker) : Op.Moves R (withGas gas x) :=
  fun w => h (gas, w)

variable (hpre : host.evm.precompiles.Stateless)

include hpre

theorem moves_executePrepared (fuel : Nat) (tx : TxTerms) (prepared : PreparedTx) :
    Op.Moves (World.Stays host.evm.db) (host.executePrepared fuel tx prepared) := by
  have hpre' : (host.executing prepared tx.blobs).evm.precompiles.Stateless := hpre
  have hmoves : Op.Moves (World.Runs (host.executing prepared tx.blobs).evm .any)
      (host.executePrepared fuel tx prepared) := by
    unfold executePrepared
    exact .bind (fun w => (moves_withGas (calm_prepareInitialFrame _ _ _ _ _) _ w).runs_any)
      fun r => .bind (moves_executeInitialFrame hpre' _ _ _ _ _) fun _ => moves_defaultSettleGas _
  exact fun w => (hmoves w).stays

theorem moves_executePreparedEip7702 (fuel : Nat) (tx : TxEip7702) (prepared : PreparedTx) :
    Op.Moves (World.Stays host.evm.db) (host.executePreparedEip7702 fuel tx prepared) := by
  have hpre' : (host.executing prepared none).evm.precompiles.Stateless := hpre
  have hmoves : Op.Moves (World.Runs (host.executing prepared none).evm .any)
      (host.executePreparedEip7702 fuel tx prepared) := by
    unfold executePreparedEip7702
    exact .bind (fun w => (moves_withGas (calm_authorizedFrame _ _ _ _) _ w).runs_any)
      fun r => .bind (moves_executeInitialFrame hpre' _ _ _ _ _) fun _ => moves_defaultSettleGas _
  exact fun w => (hmoves w).stays

omit hpre in
theorem moves_prepare (caller : Address) (tx : TxTerms) :
    Op.Moves (World.Stays host.evm.db) (host.prepare caller tx) := by
  refine .bind (fun w => refl w) fun _ => .bind (fun w => ?_) fun _ => .bind (.update fun w => ?_)
    fun _ => .bind (fun w => ?_) fun _ => .ret _
  · exact World.Runs.stays (World.Runs.of_run (P := .any) (moves_validateSender host _ _ _ w))
  · intro hs hnz
    have h := onlyPrewarms_warm host tx.recipient tx.accessList w.state
    dsimp only
    rw [h.cache, State.Sound, State.TransientNonzero, h.accounts, h.cache, h.transientStorage]
    exact ⟨hs, hnz, .refl _⟩
  · exact World.Runs.stays (World.Runs.of_run (P := .any) (moves_chargeUpfront host _ _ w))

theorem moves_handleTx (fuel : Nat) (caller : Address) (tx : TxEnvelope) :
    Op.Moves (World.Stays host.evm.db) (host.handleTx fuel caller tx) := by
  refine .bind (moves_prepare caller tx.terms) fun prepared => ?_
  cases tx with
  | eip7702 tx => exact (moves_executePreparedEip7702 hpre fuel tx prepared).mapError _
  | legacy tx | eip2930 tx | eip1559 tx | eip4844 tx =>
    exact (moves_executePrepared hpre fuel _ prepared).mapError _

end TxHost

/-- **A transaction that fails leaves no trace.** If a transaction that starts from an idle overlay
is rejected or fails with an error, at whatever point, the overlay is idle again, and the cache
database says the same as before about every account and slot. -/
theorem failed_transaction_leaves_no_trace {host : TxHost}
    (hpre : host.evm.precompiles.Stateless) {w w' : World} (hidle : w.state.Idle) (fuel : ℕ)
    (caller : Address) (tx : TxEnvelope) {e : HandlerError}
    (h : (host.transact fuel caller tx).run w = (.error e, w')) :
    w'.state.Idle ∧ Cache.SameData host.evm.db w.state.cache w'.state.cache := by
  unfold TxHost.transact at h
  rcases hx : (host.executeTx fuel caller tx).run w with ⟨e' | result, u⟩
  · rw [Op.run_bind_error hx] at h
    cases h
    unfold TxHost.executeTx at hx
    split_ifs at hx
    · rcases hr : (host.handleTx fuel caller tx).run w with ⟨e' | result, v⟩
      · rw [Op.run_onError_error _ hr] at hx
        cases hx
        have hstays := TxHost.moves_handleTx hpre fuel caller tx w
        rw [hr] at hstays
        exact ⟨rfl, (hstays (State.sound_of_empty hidle.accounts) hidle.nonzero).2.2⟩
      · rw [Op.run_onError_ok _ hr] at hx
        cases hx
    · cases hx
      exact ⟨hidle, .refl _⟩
  · -- finalization does not fail
    obtain ⟨accounts, hrun, -⟩ := State.finalizeTransaction_run host.evm.db
      host.evm.version.features u.state
    have hfinal : (handling (World.onState (State.finalizeTransaction host.evm.db
        host.evm.version.features))).run u =
          (.ok (), { u with state := { u.state with accounts := accounts } }) := by
      rw [handling, Op.run_mapError, World.run_onState, hrun]
      rfl
    rw [Op.run_bind_ok hx, TxHost.finishExecutedTx,
      Op.run_bind_ok (Op.run_onError_ok _ hfinal)] at h
    cases h

end Transactions

/-- Berlin, over a database in which the account at 1000 has code that writes slot 0 and then reads
slot 1, which the database fails to read. -/
def faultyHost [Keccak] : TxHost :=
  { berlinHost with evm := { berlinHost.evm with db := { Database.empty with
      getAccount := fun a => .ok (if a = 1000 then
        some ⟨0, 1, 1, some (.legacy [0x60, 0x01, 0x60, 0x00, 0x55, 0x60, 0x01, 0x54])⟩ else none)
      getStorage := fun _ k => if k = 0 then .ok 0 else .error ⟨"unavailable", false⟩ } } }

/-- A call of that account. -/
def writingTx : TxEnvelope := .legacy
  { chainId := some 1, nonce := 0, gasPrice := 0, gasLimit := 100000, recipient := .call 1000,
    value := 0, input := [] }

theorem failed_transaction_leaves_no_trace_write :
    letI := Keccak.const
    let r := (faultyHost.transact 9 2 writingTx).run (.ofState .new)
    ((faultyHost.handleTx 9 2 writingTx).run (.ofState .new)).2.state.journal.length = 2 ∧
      r.1.isOk = false ∧ r.2.state.Idle ∧
      Cache.SameData faultyHost.evm.db .default r.2.state.cache := by
  let _ := Keccak.const
  intro r
  have hfails : r.1.isOk = false := by decide +kernel
  refine ⟨by decide +kernel, hfails, ?_⟩
  cases he : r.1 with
  | ok result =>
    rw [he] at hfails
    cases hfails
  | error e =>
    exact failed_transaction_leaves_no_trace (w := .ofState .new) (fun _ _ => rfl) rfl 9 2
      writingTx (Prod.ext he rfl)

/-! ## Fees -/

section Fees

theorem Word.toNat_mul_of_lt {a b : Word} (ha : a.toNat < 2 ^ 128) (hb : b.toNat < 2 ^ 128) :
    (a * b).toNat = a.toNat * b.toNat := by
  rw [BitVec.toNat_mul, Nat.mod_eq_of_lt ((Nat.mul_lt_mul'' ha hb).trans_le (by decide))]

theorem toNat_ofNat_mul {n : ℕ} {p : Word} (hn : n < 2 ^ 64) (hp : p.toNat < 2 ^ 128) :
    (BitVec.ofNat 256 n * p).toNat = n * p.toNat := by
  have heq : (BitVec.ofNat 256 n).toNat = n := Nat.mod_eq_of_lt (by omega)
  rw [Word.toNat_mul_of_lt (by omega) hp, heq]

theorem Word.toNat_satAdd (a b : Word) :
    (a.satAdd b).toNat = min (a.toNat + b.toNat) (2 ^ 256 - 1) := by
  unfold Word.satAdd
  split_ifs with h
  · rw [BitVec.toNat_add, Nat.mod_eq_of_lt h]
    omega
  · rw [BitVec.toNat_allOnes]
    omega

theorem Except.bind_eq_ok_iff {ε : Type} {x : Except ε Unit} {f : Unit → Except ε Unit} {u : Unit} :
    (x >>= f) = .ok u ↔ x = .ok () ∧ f () = .ok u := by
  cases x with
  | error e | ok v => simp [bind, Except.bind]

namespace TxTerms

variable {version : Version} {block : BlockEnv} {caller : Address} {tx : TxTerms}

theorem gasPrice_le (block : BlockEnv) (tx : TxTerms) :
    (tx.gasPrice block).toNat ≤ tx.maxFeePerGas.toNat := by
  unfold gasPrice
  cases tx.maxPriorityFeePerGas with
  | none => exact le_rfl
  | some fee =>
    unfold effectiveGasPrice
    dsimp only
    split_ifs with h
    · exact (BitVec.lt_def.mp h).le
    · exact le_rfl

theorem blobs_ok (hcheck : version.feature .blobBaseFeeCheck = true)
    (h : tx.validate version block caller = .ok ()) {blobs : TxBlobs} (hb : tx.blobs = some blobs) :
    block.blobBasefee.toNat ≤ blobs.maxFeePerBlobGas.toNat ∧
      blobs.versionedHashes.length ≤ version.maxBlobsPerTx := by
  obtain ⟨_, h, -⟩ := Except.bind_eq_ok h
  obtain ⟨hfee, hcount⟩ :
      validateBlobFee blobs.maxFeePerBlobGas block.blobBasefee = .ok () ∧
        validateBlobs blobs.versionedHashes version.maxBlobsPerTx = .ok () := by
    unfold validateTerms at h
    cases ha : tx.authorizations <;> cases hp : tx.maxPriorityFeePerGas <;>
      simp only [ha, hp, hb, hcheck, if_true, Except.bind_eq_ok_iff] at h <;> tauto
  obtain ⟨_, -, hcount⟩ := Except.bind_eq_ok hcount
  obtain ⟨_, hcount, -⟩ := Except.bind_eq_ok hcount
  have hle := of_decide_eq_false (failIf_eq_ok hfee)
  have hlen := of_decide_eq_false (failIf_eq_ok hcount)
  rw [BitVec.lt_def] at hle
  exact ⟨by omega, by omega⟩

/-- The fee is what the gas limit and the blobs cost, and the sender has been checked for it. -/
theorem upfrontFee_ok (hcheck : version.feature .blobBaseFeeCheck = true)
    (hmax : version.maxBlobsPerTx < 2 ^ 64) (h : tx.validate version block caller = .ok ())
    (hfee : tx.maxFeePerGas.toNat < 2 ^ 128)
    (hblobFee : ∀ blobs, tx.blobs = some blobs → blobs.maxFeePerBlobGas.toNat < 2 ^ 128) :
    (tx.upfrontFee block).toNat = tx.gasLimit.toNat * (tx.gasPrice block).toNat +
        tx.blobGas.toNat * block.blobBasefee.toNat ∧
      (tx.upfrontFee block).toNat ≤ tx.maxUpfront.toNat := by
  have hprice := tx.gasPrice_le block
  have hgas := toNat_ofNat_mul tx.gasLimit.isLt (hprice.trans_lt hfee)
  have hmaxGas := toNat_ofNat_mul tx.gasLimit.isLt hfee
  rw [BitVec.ofNat_toNat] at hgas hmaxGas
  have hle := Nat.mul_le_mul_left tx.gasLimit.toNat hprice
  have hlt := (Nat.mul_lt_mul'' tx.gasLimit.isLt hfee).trans (by decide : _ < 2 ^ 200)
  unfold upfrontFee maxUpfront
  rw [BitVec.toNat_add, hgas]
  cases hb : tx.blobs with
  | none =>
    have hzero : tx.blobGas = 0#256 := by rw [blobGas, hb]; rfl
    rw [hzero, BitVec.zero_mul, BitVec.toNat_zero]
    dsimp only
    rw [Word.toNat_satAdd, hmaxGas]
    omega
  | some blobs =>
    obtain ⟨hbasefee, hcount⟩ := blobs_ok hcheck h hb
    have hblobGas : tx.blobGas.toNat = 131072 * blobs.versionedHashes.length := by
      have heq : tx.blobGas = 131072#256 * BitVec.ofNat 256 blobs.versionedHashes.length := by
        rw [blobGas, hb]
        rfl
      rw [heq, BitVec.toNat_mul, BitVec.toNat_ofNat, BitVec.toNat_ofNat]
      omega
    have hcost : (tx.blobGas * block.blobBasefee).toNat = _ :=
      Word.toNat_mul_of_lt (by omega) (hbasefee.trans_lt (hblobFee _ hb))
    have hmaxCost : (tx.blobGas * blobs.maxFeePerBlobGas).toNat = _ :=
      Word.toNat_mul_of_lt (by omega) (hblobFee _ hb)
    have hle' := Nat.mul_le_mul_left tx.blobGas.toNat hbasefee
    have hlt' := (Nat.mul_lt_mul'' (by omega : tx.blobGas.toNat < 2 ^ 100) (hblobFee _ hb)).trans
      (by decide : _ < 2 ^ 240)
    dsimp only
    rw [hcost, Word.toNat_satAdd, Word.toNat_satAdd, hmaxGas, hmaxCost]
    omega

end TxTerms

theorem TxEnvelope.fees_lt (tx : TxEnvelope) : tx.terms.maxFeePerGas.toNat < 2 ^ 128 ∧
    ∀ blobs, tx.terms.blobs = some blobs → blobs.maxFeePerBlobGas.toNat < 2 ^ 128 := by
  have hlt : ∀ x : BitVec 128, (x.setWidth 256).toNat < 2 ^ 128 := by
    intro x
    rw [BitVec.toNat_setWidth]
    exact (Nat.mod_le _ _).trans_lt x.isLt
  cases tx with
  | eip4844 tx =>
    refine ⟨hlt _, fun blobs h => ?_⟩
    cases h
    exact hlt _
  | legacy tx | eip2930 tx | eip1559 tx | eip7702 tx => exact ⟨hlt _, nofun⟩

namespace TxHost

open State (balanceOf toNat_balance)

theorem txGasUsed_le (version : Version) {st : GasSettlement} (h : st.floorGas ≤ st.gasLimit) :
    (finalizeGas version st).txGasUsed ≤ st.gasLimit := by
  unfold TxResult.txGasUsed finalizeGas gasSpentBreakdown
  dsimp only
  omega

theorem beneficiaryGasPrice_le (host : TxHost) (price : Word) :
    (host.beneficiaryGasPrice price).toNat ≤ price.toNat := by
  unfold beneficiaryGasPrice
  split_ifs
  · unfold Word.satSub
    split_ifs with hle
    · rw [BitVec.toNat_sub_of_le hle]
      omega
    · exact Nat.zero_le _
  · exact le_rfl

variable {host : TxHost} (hbal : host.evm.feature .balanceCheck = true) {nonce n : U64}
  {maxUpfront : Word}

include hbal

theorem senderSession_covers {hd : AccountHandle}
    (h : ((host.senderSession nonce maxUpfront).run hd).1 = .ok (.ok n)) :
    maxUpfront.toNat ≤ balanceOf hd.tracked.present := by
  rcases hr : (host.senderSession nonce maxUpfront).run hd with ⟨r, hd'⟩
  rw [hr] at h
  cases h
  unfold senderSession at hr
  obtain ⟨_, _, hget, hr⟩ := Op.run_bind_eq_ok hr
  cases hget
  obtain ⟨hasCode, _, -, hr⟩ := Op.run_bind_eq_ok hr
  by_cases hlt : hd.balance < maxUpfront
  · have hpoor : host.evm.feature .balanceCheck = true ∧ hd.balance < maxUpfront := ⟨hbal, hlt⟩
    rw [if_pos hpoor] at hr
    split_ifs at hr <;> cases hr
  · rw [BitVec.lt_def, toNat_balance] at hlt
    omega

theorem calm_senderSession :
    Op.Moves (AccountHandle.Mutates host.evm.db .calm) (host.senderSession nonce maxUpfront) := by
  refine .bind .get fun h => .bind (.ite (.bind (AccountHandle.calm_loadCode _) fun _ => .ret _)
    (.ret _)) fun hasCode => .ite (.ret _) (.ite (.ret _) (.ite (.ret _) ?_))
  rw [if_neg (by simp [hbal])]
  exact .bind (.ret _) fun _ => .bind (AccountHandle.calm_warm _) fun _ =>
    .bind AccountHandle.mutates_bumpNonce fun _ => .ret _

end TxHost

end Fees

/-! ## Ether -/

section Ether

theorem sum_add_of_update {ι : Type} [Fintype ι] [DecidableEq ι] {f g : ι → ℕ} {i : ι} {x : ℕ}
    (h : ∀ j, g j = if j = i then x else f j) : ∑ j, g j + f i = ∑ j, f j + x := by
  have hrest : ∑ j ∈ {i}ᶜ, g j = ∑ j ∈ {i}ᶜ, f j :=
    Finset.sum_congr rfl fun j hj => by rw [h j, if_neg (by simpa using hj)]
  rw [Fintype.sum_eq_add_sum_compl i g, Fintype.sum_eq_add_sum_compl i f, h i, if_pos rfl]
  omega

variable [Keccak]

/-- All balances, and what contracts have burned. -/
def Evm.ether (evm : Evm) (w : World) : ℕ := evm.total w.state + w.burned

theorem Evm.Pays.ether {evm : Evm} {w w' : World} (h : evm.Pays w w') :
    evm.ether w' = evm.ether w := by
  obtain ⟨ms, hms⟩ := h
  have hsum := hms.moves.sum
  unfold Evm.ether Evm.total
  rw [hms.burned]
  omega

namespace TxHost

open State (balanceOf toNat_balance balanceOf_setBalance)

variable {host : TxHost} {w w' : World} {a caller : Address} {fuel : ℕ} {prepared : PreparedTx}
  {r : TxResult}

theorem credit_ok {amount : Word} (h : (host.credit a amount).run w = (.ok (), w'))
    (hroom : host.evm.total w.state + amount.toNat < 2 ^ 256) :
    host.evm.total w'.state = host.evm.total w.state + amount.toNat ∧ w'.burned = w.burned := by
  obtain ⟨hrun, hburned, -, -⟩ := World.noting_ok h
  obtain ⟨hd, hs, -, ht, -⟩ := State.account_balance (P := .any)
    (fun h => AccountHandle.mutates_addBalance h amount) hrun
  have hle : w.state.balance host.evm.db a ≤ host.evm.total w.state :=
    Finset.single_le_sum (fun _ _ => Nat.zero_le _) (Finset.mem_univ a)
  have hadd : balanceOf (hd.addBalance amount).tracked.present =
      w.state.balance host.evm.db a + amount.toNat := by
    unfold AccountHandle.addBalance
    split_ifs with hz
    · rw [State.touch_present, hz, hs]
      rfl
    · rw [balanceOf_setBalance, BitVec.toNat_add, toNat_balance, ← hs, Nat.mod_eq_of_lt (by omega)]
  have hsum := sum_add_of_update ht
  rw [hadd] at hsum
  refine ⟨?_, hburned⟩
  unfold Evm.total
  omega

theorem defaultSettleGas_ok (hfee : host.evm.feature .feeCharge = true) {st : GasSettlement}
    (hlimit : st.gasLimit < 2 ^ 64) (hfloor : st.floorGas ≤ st.gasLimit)
    (hprice : st.gasPrice.toNat < 2 ^ 128)
    (hroom : host.evm.total w.state + st.gasLimit * st.gasPrice.toNat < 2 ^ 256)
    (h : (host.defaultSettleGas st).run w = (.ok r, w')) :
    r.txGasUsed ≤ st.gasLimit ∧ host.evm.ether w' = host.evm.ether w +
      (st.gasLimit - r.txGasUsed) * st.gasPrice.toNat +
        r.txGasUsed * (host.beneficiaryGasPrice st.gasPrice).toNat := by
  unfold defaultSettleGas at h
  dsimp only at h
  rw [if_pos hfee] at h
  obtain ⟨_, v, hcredits, h⟩ := Op.run_bind_eq_ok h
  cases h
  obtain ⟨_, u, hcaller, hben⟩ := Op.run_bind_eq_ok hcredits
  have hused := txGasUsed_le host.evm.version hfloor
  generalize (finalizeGas host.evm.version st).txGasUsed = used at *
  have hle := host.beneficiaryGasPrice_le st.gasPrice
  have hc : (BitVec.ofNat 256 (st.gasLimit - used) * st.gasPrice).toNat =
      (st.gasLimit - used) * st.gasPrice.toNat := toNat_ofNat_mul (by omega) hprice
  have hb : (BitVec.ofNat 256 used * host.beneficiaryGasPrice st.gasPrice).toNat =
      used * (host.beneficiaryGasPrice st.gasPrice).toNat :=
    toNat_ofNat_mul (by omega) (hle.trans_lt hprice)
  have hsplit : (st.gasLimit - used) * st.gasPrice.toNat + used * st.gasPrice.toNat =
      st.gasLimit * st.gasPrice.toNat := by rw [← Nat.add_mul, Nat.sub_add_cancel hused]
  have hmul := Nat.mul_le_mul_left used hle
  obtain ⟨ht₁, hb₁⟩ := credit_ok hcaller (by omega)
  obtain ⟨ht₂, hb₂⟩ := credit_ok hben (by omega)
  refine ⟨hused, ?_⟩
  unfold Evm.ether
  omega

theorem chargeUpfront_ok (hfee : host.evm.feature .feeCharge = true) {fee : Word}
    (hle : fee.toNat ≤ w.state.balance host.evm.db a)
    (h : (host.chargeUpfront a fee).run w = (.ok (), w')) :
    host.evm.total w'.state + fee.toNat = host.evm.total w.state ∧ w'.burned = w.burned ∧
      w'.exact = w.exact := by
  unfold chargeUpfront at h
  rw [if_pos hfee] at h
  obtain ⟨hrun, hburned, -, hexact⟩ := World.noting_ok (Op.run_mapError_eq_ok h)
  obtain ⟨hd, hs, -, ht, -⟩ := State.account_balance (P := .any)
    (fun h => AccountHandle.mutates_setBalance h _) hrun
  have hsub : balanceOf (hd.setBalance (Word.satSub hd.balance fee)).tracked.present =
      w.state.balance host.evm.db a - fee.toNat := by
    have hcovered : fee ≤ hd.balance := by rwa [BitVec.le_def, toNat_balance, ← hs]
    rw [balanceOf_setBalance, Word.satSub, if_pos hcovered, BitVec.toNat_sub_of_le hcovered,
      toNat_balance, ← hs]
  have hsum := sum_add_of_update ht
  have ha := ht a
  rw [hsub] at hsum ha
  rw [if_pos rfl] at ha
  refine ⟨?_, hburned, ?_⟩
  · unfold Evm.total
    omega
  · rw [hexact, ha, Nat.sub_add_cancel hle, beq_self_eq_true, Bool.and_true]

theorem validateSender_ok (hbal : host.evm.feature .balanceCheck = true) {nonce n : U64}
    {maxUpfront : Word}
    (h : (host.validateSenderAndBumpNonce caller nonce maxUpfront).run w = (.ok n, w')) :
    World.Calm host.evm w w' ∧ maxUpfront.toNat ≤ w.state.balance host.evm.db caller := by
  obtain ⟨checked, u, hx, h⟩ := Op.run_bind_eq_ok h
  obtain ⟨rfl, rfl⟩ : checked = .ok n ∧ u = w' := by
    cases checked <;> cases h
    exact ⟨rfl, rfl⟩
  have hx := Op.run_mapError_eq_ok hx
  refine ⟨?_, ?_⟩
  · have hsession := State.moves_accountWithSkip (a := caller) host.evm.db false
      (@calm_senderSession host hbal nonce maxUpfront)
    have hcalm := World.calm_onState (hsession.mapError State.loadErrorToDatabase) w
    rwa [hx] at hcalm
  · obtain ⟨x, v, hload, hres, -⟩ := State.accountWithSkip_ok host.evm.db
      (Op.run_mapError_eq_ok (World.onState_ok hx).1)
    rw [State.balance_of_info ((hload.info _).symm.trans (State.info_some hload.lookup))]
    exact senderSession_covers hbal hres

theorem prepare_pays (hfee : host.evm.feature .feeCharge = true)
    (hbal : host.evm.feature .balanceCheck = true)
    (hcheck : host.evm.feature .blobBaseFeeCheck = true)
    (hmax : host.evm.version.maxBlobsPerTx < 2 ^ 64) {tx : TxEnvelope} (hw : host.evm.Sane w)
    (h : (host.prepare caller tx.terms).run w = (.ok prepared, w')) :
    host.evm.Sane w' ∧ w'.burned = w.burned ∧
      host.evm.total w'.state + (tx.terms.gasLimit.toNat * prepared.gasPrice.toNat +
        tx.terms.blobGas.toNat * host.evm.block.blobBasefee.toNat) = host.evm.total w.state ∧
      prepared.gasPrice = tx.terms.gasPrice host.evm.block ∧
      prepared.floorGas ≤ tx.terms.gasLimit.toNat := by
  obtain ⟨hvalid, v, hsender, hcharge, hprepared⟩ := prepare_ok h
  obtain ⟨hcalm, hcovers⟩ := validateSender_ok hbal hsender
  have hv := (hw.calm hcalm.runs hcalm.records).1
  have hsame := ((hcalm.runs hw.nonzero).calm hw.sound hw.nonzero).1
  obtain ⟨hamount, hle⟩ := TxTerms.upfrontFee_ok hcheck hmax hvalid tx.fees_lt.1 tx.fees_lt.2
  have hwarm := onlyPrewarms_warm host tx.terms.recipient tx.terms.accessList v.state
  generalize warmAccessList tx.terms.accessList
    (host.warmBaseAccounts tx.terms.recipient v.state) = q at hwarm hcharge
  have hbalance : q.balance host.evm.db = w.state.balance host.evm.db := by
    rw [← hsame]
    refine funext fun b => State.balance_congr ?_
    unfold State.info
    rw [hwarm.accounts, hwarm.cache]
  have hsum : host.evm.total q = host.evm.total w.state := by
    unfold Evm.total
    rw [hbalance]
  have hcovered : (tx.terms.upfrontFee host.evm.block).toNat ≤ q.balance host.evm.db caller := by
    rw [hbalance]
    exact hle.trans hcovers
  obtain ⟨htotal, hburned, hexact⟩ := chargeUpfront_ok hfee hcovered hcharge
  have hruns := moves_chargeUpfront (P := .any) host caller (tx.terms.upfrontFee host.evm.block)
    { v with state := q }
  rw [hcharge] at hruns
  have hq : q.Sound host.evm.db := by
    rw [State.Sound, hwarm.accounts, hwarm.cache]
    exact hv.sound
  have hqnz : q.TransientNonzero := by
    rw [State.TransientNonzero, hwarm.transientStorage]
    exact hv.nonzero
  have hruns' : World.Runs host.evm .any { v with state := q } w' := .of_run hruns
  obtain ⟨hs', hnz', -⟩ := hruns'.stays hq hqnz
  obtain ⟨_, -, hgas⟩ := Except.bind_eq_ok hvalid
  have hfloor := (TxTerms.validateGas_ok hgas).2
  have hlt := hw.total
  rw [hprepared]
  dsimp only at htotal ⊢
  exact ⟨⟨hs', hnz', by omega, hexact.trans hv.exact⟩, hburned.trans hcalm.records.burned,
    by omega, rfl, hfloor⟩

theorem ensures_executeInitialFrame (hpre : host.evm.CalmPrecompiles) (frame : InitialFrame)
    (txGas : GasTracker) (executionGasLimit reservoir : ℕ) :
    Op.Ensures host.evm.Sane host.evm.Pays
      (host.executeInitialFrame fuel frame txGas executionGasLimit reservoir) := by
  have hany : host.evm.Permits .any fun _ => True :=
    Evm.permits_any fun m gs => (hpre m gs).mono Permit.le_any
  refine .ite (fun _ => .ret _) fun _ => .bind (fun u a v hu hrun => ?_) fun _ => .ret _
  obtain ⟨hv, -, hpays⟩ :=
    Evm.executeMessage_ensures (Evm.upholds_pays hpre) hany fuel trivial u a v hu hrun
  exact ⟨hv, hpays⟩

theorem ether_executing (hpre : host.evm.CalmPrecompiles) (hw : host.evm.Sane w)
    {blobs : Option TxBlobs} {α : Type} {x : Op (GasTracker × World) ExecutionError α}
    (hx : Op.Moves (Evm.OnSnd (World.Calm (host.executing prepared blobs).evm)) x)
    {gas txGas : GasTracker} {a : α × GasTracker} {u v : World}
    (hframe : (withGas gas x).run w = (.ok a, u)) {frame : InitialFrame}
    {executionGasLimit reservoir : ℕ} {result : MessageResult}
    (hexecute : ((host.executing prepared blobs).executeInitialFrame fuel frame txGas
      executionGasLimit reservoir).run u = (.ok result, v)) :
    host.evm.ether v = host.evm.ether w := by
  have hpre' : (host.executing prepared blobs).evm.CalmPrecompiles := hpre
  have hw' : (host.executing prepared blobs).evm.Sane w :=
    ⟨hw.sound, hw.nonzero, hw.total, hw.exact⟩
  have hcalm := moves_withGas hx gas w
  rw [hframe] at hcalm
  obtain ⟨hu, hpays⟩ := hw'.calm hcalm.runs hcalm.records
  have hpays' := (ensures_executeInitialFrame hpre' _ _ _ _ _ _ _ hu hexecute).2
  exact hpays'.ether.trans hpays.ether

/-- Up to the settlement, the execution of a prepared transaction creates no ether. -/
def SettlesFrom (host : TxHost) (gasLimit : ℕ) (prepared : PreparedTx) (w : World) (r : TxResult)
    (w' : World) : Prop :=
  ∃ st u, st.gasLimit = gasLimit ∧ st.gasPrice = prepared.gasPrice ∧
    st.floorGas = prepared.floorGas ∧ host.evm.ether u = host.evm.ether w ∧
    (host.defaultSettleGas st).run u = (.ok r, w')

theorem executePrepared_settles (hpre : host.evm.CalmPrecompiles) (hw : host.evm.Sane w)
    {tx : TxTerms} (h : (host.executePrepared fuel tx prepared).run w = (.ok r, w')) :
    host.SettlesFrom tx.gasLimit.toNat prepared w r w' := by
  unfold executePrepared at h
  obtain ⟨frame, u, hframe, h⟩ := Op.run_bind_eq_ok h
  obtain ⟨result, v, hexecute, h⟩ := Op.run_bind_eq_ok h
  have hether := ether_executing hpre hw (calm_prepareInitialFrame _ _ _ _ _) hframe hexecute
  exact ⟨_, v, rfl, rfl, rfl, hether, h⟩

theorem executePreparedEip7702_settles (hpre : host.evm.CalmPrecompiles) (hw : host.evm.Sane w)
    {tx : TxEip7702}
    (h : (host.executePreparedEip7702 fuel tx prepared).run w = (.ok r, w')) :
    host.SettlesFrom tx.gasLimit.toNat prepared w r w' := by
  unfold executePreparedEip7702 at h
  obtain ⟨frame, u, hframe, h⟩ := Op.run_bind_eq_ok h
  obtain ⟨result, v, hexecute, h⟩ := Op.run_bind_eq_ok h
  have hether := ether_executing hpre hw (calm_authorizedFrame _ _ _ _) hframe hexecute
  exact ⟨_, v, rfl, rfl, rfl, hether, h⟩

end TxHost

/-- **A transaction creates no ether.** The balances after the execution of a transaction sum up to
what they were before, minus what is burned: the part of the gas price that the beneficiary does not
get, for the gas used; the fee for the blobs; and what contracts burn. -/
theorem transaction_conserves_ether {host : TxHost} (hpre : host.evm.CalmPrecompiles)
    (hfee : host.evm.feature .feeCharge = true) (hbal : host.evm.feature .balanceCheck = true)
    (hcheck : host.evm.feature .blobBaseFeeCheck = true)
    (hmax : host.evm.version.maxBlobsPerTx < 2 ^ 64) {s : State} (hidle : s.Idle)
    (htotal : host.evm.total s < 2 ^ 256) (fuel : ℕ) (caller : Address) (tx : TxEnvelope)
    {result : TxResult} {w' : World}
    (h : (host.executeTx fuel caller tx).run (.ofState s) = (.ok result, w')) :
    let price := tx.terms.gasPrice host.evm.block
    host.evm.total w'.state + w'.burned +
        result.txGasUsed * (price.toNat - (host.beneficiaryGasPrice price).toNat) +
        tx.terms.blobGas.toNat * host.evm.block.blobBasefee.toNat = host.evm.total s := by
  have hsane : host.evm.Sane (.ofState s) :=
    ⟨State.sound_of_empty hidle.accounts, hidle.nonzero, htotal, rfl⟩
  unfold TxHost.executeTx at h
  split_ifs at h
  · obtain ⟨prepared, u, hprepare, h⟩ := Op.run_bind_eq_ok (Op.run_onError_eq_ok h)
    obtain ⟨hu, hburned, hsum, hprice, hfloor⟩ :=
      TxHost.prepare_pays hfee hbal hcheck hmax hsane hprepare
    obtain ⟨st, v, hlimit, hstPrice, hstFloor, hether, hsettle⟩ :
        host.SettlesFrom tx.terms.gasLimit.toNat prepared u result w' := by
      cases tx with
      | eip7702 tx => exact TxHost.executePreparedEip7702_settles hpre hu (Op.run_mapError_eq_ok h)
      | legacy tx | eip2930 tx | eip1559 tx | eip4844 tx =>
        exact TxHost.executePrepared_settles hpre hu (Op.run_mapError_eq_ok h)
    intro price
    have hprice : prepared.gasPrice = price := hprice
    have hburned : u.burned = 0 := hburned
    have hsum : host.evm.total u.state + (tx.terms.gasLimit.toNat * price.toNat +
        tx.terms.blobGas.toNat * host.evm.block.blobBasefee.toNat) = host.evm.total s := by
      rw [hprice] at hsum
      exact hsum
    have hroom : host.evm.total v.state + st.gasLimit * st.gasPrice.toNat < 2 ^ 256 := by
      rw [hlimit, hstPrice, hprice]
      unfold Evm.ether at hether
      omega
    have hlt : st.gasPrice.toNat < 2 ^ 128 := by
      rw [hstPrice, hprice]
      exact (tx.terms.gasPrice_le _).trans_lt tx.fees_lt.1
    obtain ⟨hused, hend⟩ := TxHost.defaultSettleGas_ok hfee (hlimit ▸ tx.terms.gasLimit.isLt)
      (by rwa [hstFloor, hlimit]) hlt hroom hsettle
    rw [hlimit] at hused
    rw [hlimit, hstPrice, hprice] at hend
    have hsplit : (tx.terms.gasLimit.toNat - result.txGasUsed) * price.toNat +
        result.txGasUsed * price.toNat = tx.terms.gasLimit.toNat * price.toNat := by
      rw [← Nat.add_mul, Nat.sub_add_cancel hused]
    have hshare : result.txGasUsed * (host.beneficiaryGasPrice price).toNat +
        result.txGasUsed * (price.toNat - (host.beneficiaryGasPrice price).toNat) =
          result.txGasUsed * price.toNat := by
      rw [← Nat.mul_add, Nat.add_sub_cancel' (host.beneficiaryGasPrice_le price)]
    unfold Evm.ether at hend hether
    omega
  · cases h

end Ether

/-- Address 1 has five wei; gas costs nothing but its price. -/
def feeHost [Keccak] : TxHost where
  evm := { reporting with version := { Evm.bare.version with
    features := .ofList [.feeCharge, .balanceCheck, .blobBaseFeeCheck] } }
  specId := .berlin
  registry := ethereumTxRegistry .berlin
  warmPrecompiles := id

/-- Address 1 pays three wei to address 2, and at most two wei for gas. -/
def payingTx : TxEnvelope := .legacy
  { chainId := some 1, nonce := 0, gasPrice := 1, gasLimit := 2, recipient := .call 2,
    value := 3, input := [] }

theorem transaction_conserves_ether_call :
    letI := Keccak.const
    let r := (feeHost.executeTx 1 1 payingTx).run (.ofState .new)
    r.2.state.balance feeHost.evm.db 2 = 3 ∧ ∃ result, r.1 = .ok result ∧
      feeHost.evm.total r.2.state + r.2.burned + result.txGasUsed *
        (1 - (feeHost.beneficiaryGasPrice 1).toNat) + 0 = feeHost.evm.total .new := by
  let _ := Keccak.const
  intro r
  have hok : r.1.isOk = true := by decide +kernel
  refine ⟨by decide +kernel, ?_⟩
  cases he : r.1 with
  | error e =>
    rw [he] at hok
    cases hok
  | ok result =>
    have htotal : feeHost.evm.total .new < 2 ^ 256 := by
      rw [show feeHost.evm.total .new = 5 from total_reporting]
      decide
    exact ⟨result, rfl, @transaction_conserves_ether _ feeHost calm_reporting rfl rfl rfl
      (by decide) .new rfl htotal 1 1 payingTx result r.2 (Prod.ext he rfl)⟩

end Evm2
