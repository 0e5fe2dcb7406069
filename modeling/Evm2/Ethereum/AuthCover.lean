import Evm2.Ethereum.Prepare

/-!
# Are authorization refunds covered by what was charged?

Before EIP-2780 the refunds of an authorization list go against a charge made with the intrinsic
gas. No handler charges state gas there, so under EIP-8037 a state refund is covered only if it is
zero, and it is zero only for lists of a special form.

* **`applyAuthList_stateRefund`**: when a list is not refunded.
-/

namespace Evm2

/-! ## Lists of fresh entries -/

section Fresh

variable (chainId : ℕ)

/-- All entries are accepted and have `E`, and their authorities are different and have `Q`. -/
structure Fresh (v : Standings) (Q : Address → Prop) (E : Authorization → Prop)
    (auths : List Authorization) : Prop where
  accepted : none ∉ verdicts chainId v auths
  distinct : ((verdicts chainId v auths).filterMap id).Nodup
  authority : ∀ a, some a ∈ verdicts chainId v auths → Q a
  entry : ∀ auth ∈ auths, E auth

variable {chainId} {v : Standings} {Q Q' : Address → Prop} {E : Authorization → Prop}
  {auth : Authorization} {auths : List Authorization} {a : Address}

theorem fresh_nil : Fresh chainId v Q E [] := by
  refine ⟨List.not_mem_nil, List.nodup_nil, ?_, ?_⟩
  · intro a ha
    exact absurd ha List.not_mem_nil
  · intro auth hauth
    exact absurd hauth List.not_mem_nil

theorem Fresh.congr (h : ∀ a, Q a ↔ Q' a) :
    Fresh chainId v Q E auths ↔ Fresh chainId v Q' E auths := by
  obtain rfl : Q = Q' := funext fun a => propext (h a)
  rfl

theorem not_fresh_cons (h : auth.acceptedBy chainId v = none) :
    ¬Fresh chainId v Q E (auth :: auths) := by
  intro hf
  have := hf.accepted
  rw [verdicts_none h] at this
  exact this List.mem_cons_self

theorem fresh_cons (h : auth.acceptedBy chainId v = some a) :
    Fresh chainId v Q E (auth :: auths) ↔ Q a ∧ E auth ∧
      Fresh chainId (v.delegate a auth.address) (fun b => b ≠ a ∧ Q b) E auths := by
  have hmem : ∀ b, b ∈ (verdicts chainId (v.delegate a auth.address) auths).filterMap id ↔
      some b ∈ verdicts chainId (v.delegate a auth.address) auths := by
    intro b
    rw [List.mem_filterMap]
    exact ⟨fun ⟨x, hx, hb⟩ => by rwa [← show x = some b from hb], fun hb => ⟨some b, hb, rfl⟩⟩
  have hcons : (verdicts chainId v (auth :: auths)).filterMap id =
      a :: (verdicts chainId (v.delegate a auth.address) auths).filterMap id := by
    rw [verdicts_some h]
    rfl
  constructor
  · rintro ⟨haccepted, hdistinct, hauthority, hentry⟩
    rw [verdicts_some h] at haccepted hauthority
    rw [hcons, List.nodup_cons, hmem] at hdistinct
    refine ⟨hauthority a List.mem_cons_self, hentry auth List.mem_cons_self,
      fun hn => haccepted (List.mem_cons_of_mem _ hn), hdistinct.2, ?_,
      fun auth' h' => hentry auth' (List.mem_cons_of_mem _ h')⟩
    intro b hb
    refine ⟨?_, hauthority b (List.mem_cons_of_mem _ hb)⟩
    rintro rfl
    exact hdistinct.1 hb
  · rintro ⟨hQ, hE, haccepted, hdistinct, hauthority, hentry⟩
    refine ⟨?_, ?_, ?_, ?_⟩
    · rw [verdicts_some h, List.mem_cons]
      exact not_or.mpr ⟨nofun, haccepted⟩
    · rw [hcons, List.nodup_cons, hmem]
      exact ⟨fun ha => (hauthority a ha).1 rfl, hdistinct⟩
    · intro b hb
      rw [verdicts_some h, List.mem_cons] at hb
      rcases hb with hb | hb
      · cases hb
        exact hQ
      · exact (hauthority b hb).2
    · intro auth' h'
      rcases List.mem_cons.mp h' with rfl | h'
      · exact hE
      · exact hentry auth' h'

end Fresh

/-! ## One entry -/

namespace AuthRefunds

variable {r : AuthRefunds} {auth : AppliedAuth}

theorem satAdd64_eq_zero {a b : ℕ} : satAdd64 a b = 0 ↔ a = 0 ∧ b = 0 := by
  simp only [satAdd64, maxU64]
  omega

theorem refund_eq_zero : r.refund auth = 0 ↔ (r.newAccount = 0 ∨ auth.existed = false) ∧
    (r.authBase = 0 ∨
      auth.clearing = false ∧ auth.delegatedNow = false ∧ auth.delegatedBeforeTx = false) := by
  obtain ⟨existed, before, now, clearing⟩ := auth
  simp only [refund]
  cases existed <;> cases clearing <;> cases now <;> cases before <;> simp

theorem accepted_prices (auth : AppliedAuth) (r : AuthRefunds) :
    (accepted auth r).isEip8037 = r.isEip8037 ∧
    (accepted auth r).newAccount = r.newAccount ∧ (accepted auth r).authBase = r.authBase ∧
      (accepted auth r).executionPerAuth = r.executionPerAuth := by
  unfold accepted
  cases auth.existed <;> cases h : r.isEip8037 <;> simp [h]

theorem rejected_prices : r.rejected.isEip8037 = r.isEip8037 ∧
    r.rejected.newAccount = r.newAccount ∧ r.rejected.authBase = r.authBase ∧
      r.rejected.executionPerAuth = r.executionPerAuth := by
  unfold rejected
  cases h : r.isEip8037 <;> simp [h]

theorem accepted_stateRefund (h : r.isEip8037 = true) :
    (accepted auth r).stateRefund = satAdd64 r.stateRefund (r.refund auth) := by
  unfold accepted
  cases auth.existed <;> simp [h, refund]

theorem rejected_stateRefund (h : r.isEip8037 = true) :
    r.rejected.stateRefund = satAdd64 r.stateRefund (r.newAccount + r.authBase) := by
  simp [rejected, h]

theorem accepted_executionRefund_le (auth : AppliedAuth) (r : AuthRefunds) :
    (accepted auth r).executionRefund ≤ r.executionRefund + r.executionPerAuth := by
  have := satAdd64_le r.executionRefund r.executionPerAuth
  unfold accepted
  cases auth.existed <;> cases h : r.isEip8037 <;> simp [h] <;> omega

theorem rejected_executionRefund_le :
    r.rejected.executionRefund ≤ r.executionRefund + r.executionPerAuth := by
  have := satAdd64_le r.executionRefund r.executionPerAuth
  unfold rejected
  cases r.isEip8037 with
  | false => exact Nat.le_add_right _ _
  | true => exact this

end AuthRefunds

/-! ## Lists -/

section Lists

variable [Keccak] {db : Database} {chainId : ℕ} {v : Standings} {s t u : State}
  {auth : Authorization} {auths : List Authorization} {r r' : AuthRefunds} {oog : Bool}
  {a b d : Address}

open State (SameStanding Follows Reports Delegates)

def State.Undelegated (db : Database) (s : State) (a : Address) : Prop :=
  s.delegatedBefore db a = false ∧
    ∀ info code, s.info db a = .ok info → s.cache.code db info = .ok code → code.isEmpty = true

theorem State.Reports.undelegated {applied : AppliedAuth} (h : Reports db s a auth applied) :
    s.Undelegated db a ↔ applied.delegatedNow = false ∧ applied.delegatedBeforeTx = false := by
  obtain ⟨info, code, hinfo, hcode, -, hnow⟩ := h.code
  rw [h.delegatedBeforeTx, hnow, Bool.not_eq_false']
  constructor
  · rintro ⟨hbefore, hempty⟩
    exact ⟨hempty info code hinfo hcode, hbefore⟩
  · rintro ⟨hempty, hbefore⟩
    refine ⟨hbefore, ?_⟩
    intro info' code' hinfo' hcode'
    obtain rfl : info' = info := Except.ok.inj (hinfo'.symm.trans hinfo)
    obtain rfl : code' = code := Except.ok.inj (hcode'.symm.trans hcode)
    exact hempty

theorem code_delegatedInfo_ne (hk : ∀ d, (Bytecode.newEip7702 d).hashSlow ≠ KECCAK256_EMPTY)
    (c : Cache) (info : Option AccountInfo) (hd : d ≠ 0) :
    c.code db (some (delegatedInfo info d)) = .ok (.eip7702 d) := by
  have hcode : delegationCode d = .eip7702 d := if_neg hd
  have hhash : ¬(delegatedInfo info d).isEmptyCodeHash = true := by
    simp only [AccountInfo.isEmptyCodeHash, delegatedInfo, hcode, beq_iff_eq]
    exact hk d
  rw [Cache.code_some, if_neg hhash]
  simp only [delegatedInfo, hcode, Bytecode.isEmpty_eip7702, Bool.not_false, if_true]

theorem State.Delegates.undelegated
    (hk : ∀ d, (Bytecode.newEip7702 d).hashSlow ≠ KECCAK256_EMPTY) (h : Delegates db s u a d)
    (hd : d ≠ 0) (b : Address) : u.Undelegated db b ↔ b ≠ a ∧ s.Undelegated db b := by
  by_cases hb : b = a
  · subst hb
    obtain ⟨info, -, -, hinfo⟩ := h.info
    refine ⟨fun hu => ?_, fun hu => absurd rfl hu.1⟩
    have := hu.2 _ _ hinfo (code_delegatedInfo_ne hk u.cache info hd)
    rw [Bytecode.isEmpty_eip7702] at this
    cases this
  · unfold State.Undelegated
    rw [h.delegatedBefore, (h.other b hb).1]
    simp only [h.codes.code, ne_eq, hb, not_false_eq_true, true_and]

theorem State.Delegates.existed_eq_false (h : Delegates db s u a d) (b : Address) :
    u.existed db b = false ↔ b ≠ a ∧ s.existed db b = false := by
  by_cases hb : b = a
  · subst hb
    rw [h.existed_self]
    exact ⟨nofun, fun hn => absurd rfl hn.1⟩
  · rw [h.existed_other hb]
    exact ⟨fun he => ⟨hb, he⟩, fun he => he.2⟩

omit [Keccak] in
theorem zero_regroup {z n e f b p q : Prop} :
    ((z ∧ (n ∨ e) ∧ (b ∨ p)) ∧ (n ∨ f) ∧ (b ∨ q)) ↔ z ∧ (n ∨ e ∧ f) ∧ (b ∨ p ∧ q) := by
  rw [or_and_left, or_and_left]
  constructor
  · rintro ⟨⟨hz, he, hp⟩, hf, hq⟩
    exact ⟨hz, ⟨he, hf⟩, hp, hq⟩
  · rintro ⟨hz, ⟨he, hf⟩, hp, hq⟩
    exact ⟨⟨hz, he, hp⟩, hf, hq⟩

theorem applyAuthList_stateRefund (hdb : db.Coherent)
    (hk : ∀ d, (Bytecode.newEip7702 d).hashSlow ≠ KECCAK256_EMPTY) (hs : s.Sound db)
    (hv : s.Follows db v) (h8037 : r.isEip8037 = true)
    (h : (applyAuthList db AuthRefunds.accounting chainId auths).run (s, r) =
      (.ok oog, (t, r'))) :
    r'.stateRefund = 0 ↔ r.stateRefund = 0 ∧
      (r.newAccount = 0 ∨
        Fresh chainId v (fun a => s.existed db a = false) (fun _ => True) auths) ∧
      (r.authBase = 0 ∨
        Fresh chainId v (fun a => s.Undelegated db a) (fun auth => auth.address ≠ 0) auths) := by
  induction auths generalizing s v r with
  | nil =>
    cases h
    simp only [fresh_nil, or_true, and_true]
  | cons auth auths ih =>
    rcases applyAuthList_cons_ok hdb hs hv h with ⟨hnone, u, hsu, h⟩ |
      ⟨a, applied, hsome, hrep, ⟨-, -, reason, hacc⟩ | ⟨r₁, u, hacc, hdel, hu, h⟩⟩
    · -- a rejected entry is refunded in full
      obtain ⟨hon, hnew, hbase, -⟩ := AuthRefunds.rejected_prices (r := r)
      have hrest := ih hsu.sound (hv.sameStanding hsu) (hon.trans h8037) h
      rw [AuthRefunds.rejected_stateRefund h8037, hnew, hbase,
        AuthRefunds.satAdd64_eq_zero] at hrest
      rw [hrest]
      simp only [not_fresh_cons hnone, or_false]
      constructor
      · rintro ⟨⟨h0, hsum⟩, -⟩
        exact ⟨h0, by omega, by omega⟩
      · rintro ⟨h0, hn, hb⟩
        exact ⟨⟨h0, by omega⟩, .inl hn, .inl hb⟩
    · cases hacc
    · obtain rfl : AuthRefunds.accepted applied r = r₁ := congrArg Prod.snd hacc
      obtain ⟨hon, hnew, hbase, -⟩ := AuthRefunds.accepted_prices applied r
      have hrest := ih hdel.sound hu (hon.trans h8037) h
      have hclear : applied.clearing = false ↔ auth.address ≠ 0 := by
        rw [hrep.clearing, decide_eq_false_iff_not]
      rw [AuthRefunds.accepted_stateRefund h8037, hnew, hbase, AuthRefunds.satAdd64_eq_zero,
        AuthRefunds.refund_eq_zero, Fresh.congr hdel.existed_eq_false, hclear] at hrest
      rw [hrest, fresh_cons hsome, fresh_cons hsome, hrep.undelegated, ← hrep.existed, true_and,
        zero_regroup]
      refine and_congr_right fun _ => and_congr_right fun _ => or_congr_right ?_
      rw [and_assoc, and_left_comm]
      -- a delegation that is set shows in the rest of the list
      exact and_congr_right fun _ => and_congr_right fun hd =>
        Fresh.congr (hdel.undelegated hk hd)

/-- **A list is refunded the execution gas at most once for each entry.** -/
theorem applyAuthList_executionRefund_le (hdb : db.Coherent) (hs : s.Sound db)
    (hv : s.Follows db v)
    (h : (applyAuthList db AuthRefunds.accounting chainId auths).run (s, r) =
      (.ok oog, (t, r'))) :
    r'.executionRefund ≤ r.executionRefund + auths.length * r.executionPerAuth := by
  induction auths generalizing s v r with
  | nil =>
    cases h
    omega
  | cons auth auths ih =>
    rw [List.length_cons, Nat.add_mul, Nat.one_mul]
    rcases applyAuthList_cons_ok hdb hs hv h with ⟨-, u, hsu, h⟩ |
      ⟨a, applied, -, -, ⟨-, -, reason, hacc⟩ | ⟨r₁, u, hacc, hdel, hu, h⟩⟩
    · have hrest := ih hsu.sound (hv.sameStanding hsu) h
      have hprice := (AuthRefunds.rejected_prices (r := r)).2.2.2
      have hle := AuthRefunds.rejected_executionRefund_le (r := r)
      change r'.executionRefund ≤ r.rejected.executionRefund +
        auths.length * r.rejected.executionPerAuth at hrest
      rw [hprice] at hrest
      omega
    · cases hacc
    · obtain rfl : AuthRefunds.accepted applied r = r₁ := congrArg Prod.snd hacc
      have hrest := ih hdel.sound hu h
      have hprice := (AuthRefunds.accepted_prices applied r).2.2.2
      have hle := AuthRefunds.accepted_executionRefund_le applied r
      rw [hprice] at hrest
      omega

theorem applyAuthList_stateRefund_off (hdb : db.Coherent) (hs : s.Sound db) (hv : s.Follows db v)
    (h8037 : r.isEip8037 = false)
    (h : (applyAuthList db AuthRefunds.accounting chainId auths).run (s, r) =
      (.ok oog, (t, r'))) : r'.stateRefund = r.stateRefund :=
  (applyAuthList_refunds hdb hs hv h8037 h).1

theorem State.AuthStart.undelegated (h : s.AuthStart db) (a : Address) :
    s.Undelegated db a ↔ (s.standings db a).code.isEmpty = true := by
  have hread : ∀ info, s.info db a = .ok info →
      ∃ before, s.cache.info db a = .ok before ∧ s.cache.code db before = s.cache.code db info := by
    intro info hi
    cases hx : s.accounts.lookup a with
    | none => exact ⟨info, (State.info_none hx).symm.trans hi, rfl⟩
    | some x =>
      rw [State.info_some hx] at hi
      cases hi
      exact ⟨x.original, (h.sound a x hx).info, (code_congr (h.code a x hx) s.cache).symm⟩
  cases hi : s.info db a with
  | error e =>
    have hcache : s.cache.info db a = .error e := by
      cases hx : s.accounts.lookup a with
      | none => exact (State.info_none hx).symm.trans hi
      | some x =>
        rw [State.info_some hx] at hi
        cases hi
    simp only [State.Undelegated, State.delegatedBefore, State.standings, hi, hcache]
    exact ⟨fun _ => rfl, fun _ => ⟨trivial, fun _ _ h => by cases h⟩⟩
  | ok info =>
    obtain ⟨before, hbefore, hcode⟩ := hread info hi
    simp only [State.Undelegated, State.delegatedBefore, State.standings, hi, hbefore, hcode]
    cases hc : s.cache.code db info with
    | error e =>
      refine ⟨fun _ => rfl, fun _ => ⟨rfl, ?_⟩⟩
      rintro _ code ⟨⟩ hcode'
      rw [hc] at hcode'
      cases hcode'
    | ok code =>
      constructor
      · rintro ⟨-, hempty⟩
        exact hempty info code rfl hc
      · intro hempty
        refine ⟨?_, ?_⟩
        · cases code with
          | legacy raw => rfl
          | eip7702 d => cases hempty
        · rintro _ code' ⟨⟩ hcode'
          rw [hc] at hcode'
          cases hcode'
          exact hempty

end Lists

/-! ## The phase -/

section Phase

variable [Keccak] {host : TxHost} {caller : Address} {tx : TxEip7702} {w w' : World}
  {prepared : PreparedTx} {gas' : GasTracker} {t : State} {oog : Bool}
  {executionGasLimit reservoir stateRefund executionRefund : ℕ}

/-- The list is not refunded any state gas: there is none, or each of the two prices is zero or all
entries are accepted, for different authorities, and none of them gets it back. -/
def Unrefunded (version : Version) (db : Database) (s : State) (auths : List Authorization) :
    Prop :=
  version.feature .eip8037 = false ∨
    (version.gasParams.newAccountStateGas = 0 ∨ Fresh version.chainId (s.standings db)
      (fun a => s.existed db a = false) (fun _ => True) auths) ∧
    (version.gasParams.get .txEip7702PerAuthState = 0 ∨ Fresh version.chainId (s.standings db)
      (fun a => (s.standings db a).code.isEmpty = true) (fun auth => auth.address ≠ 0) auths)

/-- **When authorization refunds are covered by what was charged.** -/
theorem auth_refunds_covered_iff (hdb : host.evm.db.Coherent)
    (hk : ∀ d, (Bytecode.newEip7702 d).hashSlow ≠ KECCAK256_EMPTY)
    (h2780 : host.evm.feature .eip2780 = false) (hw : w.state.accounts = ∅)
    (hprepare : (host.prepareEip7702 caller tx).run w = (.ok prepared, w'))
    (hgas : initialGasAndReservoir host.evm.version tx.gasLimit.toNat prepared.intrinsic
      prepared.initialStateGas = (executionGasLimit, reservoir))
    (hphase : (authorizationPhase host.evm.db host.evm.version caller tx.recipient tx.value
        tx.authorizations).run
          (.newWithExecutionGasAndReservoir executionGasLimit reservoir, w'.state) =
      (.ok (oog, stateRefund, executionRefund), (gas', t))) :
    stateRefund ≤ prepared.initialStateGas ∧
        executionGasLimit + gas'.reservoir + prepared.intrinsic ≤ tx.gasLimit.toNat ∧
        executionRefund ≤
          tx.authorizations.length * host.evm.version.gasParams.get .txEip7702AuthRefund ↔
      Unrefunded host.evm.version host.evm.db w'.state tx.authorizations := by
  have hstart := TxHost.authStart_prepare hw hprepare
  obtain ⟨hvalid, u, -, -, hprepared⟩ := TxHost.prepare_ok hprepare
  have hv : w'.state.Follows host.evm.db (w'.state.standings host.evm.db) :=
    State.follows_standings w'.state
  have hinitial : prepared.initialStateGas = 0 := by rw [hprepared]
  -- the budget before the refund
  have hintrinsic : prepared.intrinsic ≤ tx.gasLimit.toNat := by
    rw [hprepared]
    exact TxTerms.intrinsic_le hvalid
  have hsplit := initialGasAndReservoir_add host.evm.version hintrinsic
  rw [hinitial] at hgas
  rw [hgas] at hsplit
  dsimp only at hsplit
  have hlimit := tx.gasLimit.isLt
  -- the phase is a run of the loop
  have hoff : host.evm.version.feature .eip2780 = false := h2780
  simp only [authorizationPhase, hoff, Bool.false_eq_true, if_false] at hphase
  rcases hrun : (applyAuthList host.evm.db AuthRefunds.accounting host.evm.version.chainId
    tx.authorizations).run (w'.state, .new host.evm.version) with ⟨e | ran, t', r⟩
  · rw [hrun] at hphase
    cases hphase
  rw [hrun] at hphase
  cases hphase
  have hexecution := applyAuthList_executionRefund_le hdb hstart.sound hv hrun
  have hzero : r.stateRefund = 0 ↔
      Unrefunded host.evm.version host.evm.db w'.state tx.authorizations := by
    cases h8037 : host.evm.version.feature .eip8037 with
    | false =>
      have hnone := applyAuthList_stateRefund_off hdb hstart.sound hv
        (r := .new host.evm.version) h8037 hrun
      exact ⟨fun _ => .inl h8037, fun _ => hnone⟩
    | true =>
      rw [applyAuthList_stateRefund hdb hk hstart.sound hv (r := .new host.evm.version) h8037 hrun,
        Fresh.congr hstart.undelegated]
      simp only [Unrefunded, h8037, Bool.true_eq_false, false_or]
      exact ⟨fun h => h.2, fun h => ⟨rfl, h⟩⟩
  rw [hinitial, Nat.le_zero, ← hzero]
  refine ⟨fun h => h.1, fun hr => ⟨hr, ?_, ?_⟩⟩
  · change executionGasLimit + wrapAdd64 reservoir r.stateRefund + prepared.intrinsic ≤ _
    rw [hr, wrapAdd64_eq (by omega)]
    omega
  · change r.executionRefund ≤ 0 + _ at hexecution
    rw [Nat.zero_add] at hexecution
    exact hexecution

end Phase

@[reducible]
def Keccak.telling : Keccak := ⟨fun bs => if bs.isEmpty then KECCAK256_EMPTY else 1, rfl⟩

def pessimisticHost [Keccak] : TxHost where
  evm := { Evm.bare with
    version := { Version.base .amsterdam with
      features := (baseFeatures .amsterdam).remove .eip2780 } }
  specId := .amsterdam
  registry := ethereumTxRegistry .amsterdam
  warmPrecompiles := id

def delegatingTx (nonce : U64) : TxEip7702 where
  chainId := 1
  nonce := 0
  gasLimit := 100000
  maxFeePerGas := 0
  maxPriorityFeePerGas := 0
  recipient := 2
  value := 0
  accessList := []
  authorizations := [⟨1, nonce, 7, some 5⟩]
  input := []

/-- A list that is not refunded. -/
theorem auth_refunds_covered_fresh :
    letI := Keccak.telling
    let tx := delegatingTx 0
    let prepare := (pessimisticHost.prepareEip7702 1 tx).run (.ofState .new)
    let phase := (authorizationPhase pessimisticHost.evm.db pessimisticHost.evm.version 1 2 0
      tx.authorizations).run (.newWithExecutionGasAndReservoir 80184 0, prepare.2.state)
    prepare.1 = .ok ⟨1, 0, 19816, 0, 12000, 0⟩ ∧ phase.1 = .ok (false, 0, 0) ∧
      80184 + phase.2.1.reservoir + 19816 ≤ 100000 := by
  let _ := Keccak.telling
  intro tx prepare phase
  have hprepare : prepare.1 = .ok ⟨1, 0, 19816, 0, 12000, 0⟩ := by decide +kernel
  have hphase : phase.1 = .ok (false, 0, 0) := by decide +kernel
  have hk : ∀ d, (Bytecode.newEip7702 d).hashSlow ≠ KECCAK256_EMPTY := by
    intro d
    exact (by decide : (1 : B256) ≠ KECCAK256_EMPTY)
  have hverdicts : verdicts 1 (prepare.2.state.standings pessimisticHost.evm.db)
      tx.authorizations = [some 5] := by decide +kernel
  have hfresh : ∀ {Q : Address → Prop} {E : Authorization → Prop}, Q 5 → E ⟨1, 0, 7, some 5⟩ →
      Fresh 1 (prepare.2.state.standings pessimisticHost.evm.db) Q E tx.authorizations := by
    intro Q E hQ hE
    refine ⟨?_, ?_, ?_, ?_⟩
    · rw [hverdicts]
      simp
    · rw [hverdicts]
      exact List.nodup_singleton 5
    · intro a ha
      rw [hverdicts, List.mem_singleton] at ha
      cases ha
      exact hQ
    · intro auth hauth
      rw [List.mem_singleton.mp hauth]
      exact hE
  have hunrefunded : Unrefunded pessimisticHost.evm.version pessimisticHost.evm.db prepare.2.state
      tx.authorizations :=
    .inr ⟨.inr (hfresh (by decide +kernel) trivial), .inr (hfresh (by decide +kernel) (by decide))⟩
  have hgas : initialGasAndReservoir pessimisticHost.evm.version 100000 19816 0 = (80184, 0) := by
    decide +kernel
  have hrun : (pessimisticHost.prepareEip7702 1 tx).run (.ofState .new) =
      (.ok ⟨1, 0, 19816, 0, 12000, 0⟩, prepare.2) := Prod.ext hprepare rfl
  have hrun' : (authorizationPhase pessimisticHost.evm.db pessimisticHost.evm.version 1 2 0
      tx.authorizations).run (.newWithExecutionGasAndReservoir 80184 0, prepare.2.state) =
      (.ok (false, 0, 0), (phase.2.1, phase.2.2)) := Prod.ext hphase rfl
  have hcovered := (auth_refunds_covered_iff Database.coherent_empty hk (by decide) rfl hrun hgas
    hrun').mpr hunrefunded
  exact ⟨hprepare, hphase, hcovered.2.1⟩

/-- **The refund of a rejected authorization was never charged**: the nonce does not fit, and the
reservoir gets the state gas of a new account and of a designator. -/
theorem rejected_auth_refund_uncovered :
    letI := Keccak.telling
    let tx := delegatingTx 3
    let prepare := (pessimisticHost.prepareEip7702 1 tx).run (.ofState .new)
    let phase := (authorizationPhase pessimisticHost.evm.db pessimisticHost.evm.version 1 2 0
      tx.authorizations).run (.newWithExecutionGasAndReservoir 80184 0, prepare.2.state)
    prepare.1 = .ok ⟨1, 0, 19816, 0, 12000, 0⟩ ∧
      initialGasAndReservoir pessimisticHost.evm.version 100000 19816 0 = (80184, 0) ∧
      phase.1 = .ok (false, 218790, 0) ∧ 100000 < 80184 + phase.2.1.reservoir + 19816 := by
  decide +kernel

end Evm2
