import Evm2.Interpreter.GasLaws
import Evm2.State.Code
import Evm2.State.Leftovers
import Evm2.Version.Version

/-!
# EIP-7702 authorization lists

* **`validateOneAuth_ok`**, `setDelegation_ok`: what checking and applying an authorization do.

Signature recovery is a given: an authorization comes with the authority it recovers to, if any.
-/

namespace Evm2

def EIP8038_ACCOUNT_WRITE : Nat := 9000

structure Authorization where
  chainId : Word
  nonce : U64
  address : Address
  authority : Option Address
  deriving DecidableEq, Repr

structure AppliedAuth where
  existed : Bool
  delegatedBeforeTx : Bool
  delegatedNow : Bool
  clearing : Bool
  deriving DecidableEq, Repr

section Validation

variable [Keccak] (db : Database)

def authoritySession (auth : Authorization) : Op AccountHandle LoadError (Option AppliedAuth) := do
  let _ ← Op.total AccountHandle.warm
  let h ← Op.get
  let existed := h.exists' || h.tracked.flags.touched
  let authorityNonce := h.nonce
  let code ← (AccountHandle.loadCode db).mapError .database
  -- code that is not a delegation rejects the entry; other code than none is one
  let delegatedNow := !code.isEmpty
  if delegatedNow && !code.isEip7702 then return none
  else if auth.nonce ≠ authorityNonce then return none
  else
    let originalCode ← (AccountHandle.originalCode db).mapError .database
    return some ⟨existed, originalCode.isEip7702, delegatedNow, decide (auth.address = 0)⟩

def validateOneAuth (chainId : Nat) (auth : Authorization) :
    Op State DatabaseError (Option (Address × AppliedAuth)) :=
  if auth.chainId ≠ 0 ∧ auth.chainId ≠ BitVec.ofNat 256 chainId then pure none
  else if auth.nonce = BitVec.allOnes 64 then pure none
  else
    match auth.authority with
    | none => pure none
    | some authority => do
      let applied ← (State.accountWithSkip db authority false (authoritySession db auth)).mapError
        State.loadErrorToDatabase
      return applied.map (authority, ·)

end Validation

/-! ## Accounting -/

structure AuthAccounting (σ : Type) where
  rejected : σ → σ
  accepted : Address → AppliedAuth → Op σ InstrStop Unit

structure RuntimeAuthCharges where
  gas : GasTracker
  newAccountStateGas : Nat
  delegationBytesStateGas : Nat
  accountWriteCost : Nat
  written : List Address
  chargedDelegationBytes : List Address

namespace RuntimeAuthCharges

def new (version : Version) (gas : GasTracker) (caller recipient : Address) (value : Word) :
    RuntimeAuthCharges :=
  let isEip8037 := version.feature .eip8037
  { gas
    newAccountStateGas := if isEip8037 then version.gasParams.newAccountStateGas else 0
    delegationBytesStateGas :=
      if isEip8037 then version.gasParams.get .txEip7702PerAuthState else 0
    accountWriteCost := EIP8038_ACCOUNT_WRITE
    written := if value = 0 then [caller] else [caller, recipient]
    chargedDelegationBytes := [] }

def charge (f : GasTracker → Bool × GasTracker) : Op RuntimeAuthCharges InstrStop Unit where
  run c := (if (f c.gas).1 then .ok () else .error .outOfGas, { c with gas := (f c.gas).2 })

def accepted (authority : Address) (auth : AppliedAuth) :
    Op RuntimeAuthCharges InstrStop Unit := do
  let c ← Op.get
  (if !auth.existed then charge (·.spendState c.newAccountStateGas) else pure ())
  (if !c.written.contains authority then do
      charge (·.spend c.accountWriteCost)
      Op.update fun c => { c with written := c.written ++ [authority] }
    else pure ())
  if !auth.clearing && !auth.delegatedNow && !auth.delegatedBeforeTx &&
      !c.chargedDelegationBytes.contains authority then do
    charge (·.spendState c.delegationBytesStateGas)
    Op.update fun c => { c with chargedDelegationBytes := c.chargedDelegationBytes ++ [authority] }
  else pure ()

def accounting : AuthAccounting RuntimeAuthCharges := ⟨id, accepted⟩

end RuntimeAuthCharges

structure AuthRefunds where
  isEip8037 : Bool
  newAccount : Nat
  authBase : Nat
  executionPerAuth : Nat
  stateRefund : Nat
  executionRefund : Nat

namespace AuthRefunds

def new (version : Version) : AuthRefunds where
  isEip8037 := version.feature .eip8037
  newAccount := version.gasParams.newAccountStateGas
  authBase := version.gasParams.get .txEip7702PerAuthState
  executionPerAuth := version.gasParams.get .txEip7702AuthRefund
  stateRefund := 0
  executionRefund := 0

def rejected (r : AuthRefunds) : AuthRefunds :=
  if r.isEip8037 then
    { r with
      stateRefund := satAdd64 r.stateRefund (r.newAccount + r.authBase)
      executionRefund := satAdd64 r.executionRefund r.executionPerAuth }
  else r

def refund (r : AuthRefunds) (auth : AppliedAuth) : Nat :=
  (if auth.existed then r.newAccount else 0) +
    if auth.clearing then
      -- clearing what was installed earlier in the transaction refills twice
      r.authBase + if auth.delegatedNow && !auth.delegatedBeforeTx then r.authBase else 0
    else if auth.delegatedNow || auth.delegatedBeforeTx then r.authBase
    else 0

def accepted (auth : AppliedAuth) (r : AuthRefunds) : AuthRefunds :=
  let r := if auth.existed then
      { r with executionRefund := satAdd64 r.executionRefund r.executionPerAuth }
    else r
  if r.isEip8037 then { r with stateRefund := satAdd64 r.stateRefund (r.refund auth) } else r

def accounting : AuthAccounting AuthRefunds := ⟨rejected, fun _ auth => Op.update (accepted auth)⟩

end AuthRefunds

/-! ## The loop -/

section Loop

variable [Keccak] (db : Database) {σ : Type}

def besideAccounting {α : Type} (x : Op State DatabaseError α) :
    Op (State × σ) DatabaseError α where
  run sc := ((x.run sc.1).1, ((x.run sc.1).2, sc.2))

/-- Tell the accounting about an accepted authorization: whether it could not be paid for. -/
def AuthAccounting.runsOut (A : AuthAccounting σ) (authority : Address) (auth : AppliedAuth) :
    Op (State × σ) DatabaseError Bool where
  run sc :=
    let r := (A.accepted authority auth).run sc.2
    (.ok (match r.1 with
      | .ok () => false
      | .error _ => true), (sc.1, r.2))

def applyAuthList (A : AuthAccounting σ) (chainId : Nat) :
    List Authorization → Op (State × σ) DatabaseError Bool
  | [] => pure false
  | auth :: auths => do
    match ← besideAccounting (validateOneAuth db chainId auth) with
    | none =>
      Op.update fun sc => (sc.1, A.rejected sc.2)
      applyAuthList A chainId auths
    | some (authority, applied) =>
      if ← A.runsOut authority applied then return true
      else
        besideAccounting
          (State.account db authority fun h => ((), h.setDelegation auth.address))
        applyAuthList A chainId auths

/-- The authorization gas phase of `eip7702::execute_prepared`: whether it ran out of gas, the state
refund and the execution refund. The state is the gas tracker of the transaction and the overlay. -/
def authorizationPhase (version : Version) (caller recipient : Address) (value : Word)
    (auths : List Authorization) : Op (GasTracker × State) DatabaseError (Bool × Nat × Nat) where
  run gs :=
    if version.feature .eip2780 then
      let r := (applyAuthList db RuntimeAuthCharges.accounting version.chainId auths).run
        (gs.2, .new version gs.1 caller recipient value)
      (r.1.map fun oog => (oog, 0, 0), (r.2.2.gas, r.2.1))
    else
      let r := (applyAuthList db AuthRefunds.accounting version.chainId auths).run
        (gs.2, .new version)
      match r.1 with
      | .error e => (.error e, (gs.1, r.2.1))
      | .ok _ =>
        (.ok (false, r.2.2.stateRefund, r.2.2.executionRefund),
          ({ gs.1 with reservoir := wrapAdd64 gs.1.reservoir r.2.2.stateRefund }, r.2.1))

end Loop

/-! ## What the loop reads and writes -/

def Authorization.names (chainId : Nat) (auth : Authorization) : Option Address :=
  if auth.chainId ≠ 0 ∧ auth.chainId ≠ BitVec.ofNat 256 chainId ∨ auth.nonce = BitVec.allOnes 64
  then none else auth.authority

def Bytecode.isDelegable (code : Bytecode) : Bool := code.isEmpty || code.isEip7702

def delegationCode (delegated : Address) : Bytecode :=
  if delegated = 0 then Bytecode.new else Bytecode.newEip7702 delegated

theorem isDelegable_delegationCode (d : Address) : (delegationCode d).isDelegable = true := by
  unfold delegationCode
  split_ifs <;> rfl

def infoNonce (info : Option AccountInfo) : U64 := info.elim 0 AccountInfo.nonce

namespace State

variable [Keccak] (db : Database)

/-- State `t` says the same as `s` about accounts, touches and codes. -/
structure SameStanding (s t : State) : Prop where
  info : ∀ a, t.info db a = s.info db a
  touched : ∀ a, t.isTouched a = s.isTouched a
  data : Cache.SameData db s.cache t.cache
  codes : Cache.SameCodes db s.cache t.cache
  sound : t.Sound db

variable {db} {s t u : State} {a : Address} {x : Account}

theorem SameStanding.refl (hs : s.Sound db) : SameStanding db s s :=
  ⟨fun _ => rfl, fun _ => rfl, .refl _, .refl _, hs⟩

theorem SameStanding.trans (h : SameStanding db s t) (h' : SameStanding db t u) :
    SameStanding db s u :=
  ⟨fun a => (h'.info a).trans (h.info a), fun a => (h'.touched a).trans (h.touched a),
    h.data.trans h'.data, h.codes.trans h'.codes, h'.sound⟩

theorem Loads.sameStanding (hdb : db.Coherent) (hs : s.Sound db) (h : Loads db a s x u) :
    SameStanding db s u := by
  have hrun : Runs db .any true s u := .of_run h.run
  obtain ⟨hu, hdata⟩ := hrun.sound hs
  refine ⟨h.info, fun b => ?_, hdata, hrun.sameCodes hdb, hu⟩
  cases h with
  | here hl => rfl
  | fetch hv hr =>
    by_cases hb : b = a
    · subst hb
      simp [isTouched, setAccount, hv, Account.loaded, AccountFlags.loaded, AccountFlags.empty]
    · simp [isTouched, setAccount, withCache, hb]

variable (db) in
/-- Dropping a handle with another account for `a`, after code was read. -/
structure Rebinds (u t : State) (a : Address) (y : Account) : Prop where
  lookup : ∀ b, t.accounts.lookup b = if b = a then some y else u.accounts.lookup b
  reads : CodeReads db u.cache t.cache

omit [Keccak] in
theorem rebinds_dropHandle {h : AccountHandle} {c : Cache} (ha : h.address = a)
    (hi : h.inner = { u.inner with cache := c }) (hc : CodeReads db u.cache c) :
    Rebinds db u (u.dropHandle h) a h.tracked := by
  refine ⟨fun b => ?_, ?_⟩
  · simp only [dropHandle, ha, Map.lookup_set]
  · rw [(dropHandle_inner u h).1, hi]
    exact hc

section Rebinds

variable {y : Account}

theorem Rebinds.info_self (h : Rebinds db u t a y) : t.info db a = .ok y.present :=
  info_some (by rw [h.lookup, if_pos rfl])

omit [Keccak] in
theorem Rebinds.touched_self (h : Rebinds db u t a y) :
    t.isTouched a = y.flags.touched :=
  isTouched_some (by rw [h.lookup, if_pos rfl])

theorem Rebinds.data (h : Rebinds db u t a y) : Cache.SameData db u.cache t.cache :=
  sameData_of_codeReads h.reads

theorem Rebinds.info_other (h : Rebinds db u t a y) {b : Address} (hb : b ≠ a) :
    t.info db b = u.info db b := by
  simp only [State.info, h.lookup, if_neg hb]
  cases u.accounts.lookup b with
  | some z => rfl
  | none => exact h.data.info b

omit [Keccak] in
theorem Rebinds.touched_other (h : Rebinds db u t a y) {b : Address} (hb : b ≠ a) :
    t.isTouched b = u.isTouched b := by
  simp only [isTouched, h.lookup, if_neg hb]

theorem Rebinds.sound (h : Rebinds db u t a y) (hu : u.Sound db)
    (hx : u.accounts.lookup a = some x) (ho : y.original = x.original) : t.Sound db := by
  intro b z hz
  rw [h.lookup] at hz
  split_ifs at hz with hb
  · subst hb
    cases hz
    rw [ho]
    exact h.data.knows _ _ (hu _ x hx)
  · exact h.data.knows _ _ (hu b z hz)

end Rebinds

end State

section Spec

variable [Keccak] {db : Database} {auth : Authorization} {chainId : Nat} {s t : State} {a : Address}

open State (SameStanding Loads Rebinds)

omit [Keccak] in
theorem AccountHandle.warm_spec (h : AccountHandle) :
    h.warm.2.address = h.address ∧ h.warm.2.inner = h.inner ∧
      h.warm.2.tracked.present = h.tracked.present ∧
      h.warm.2.tracked.original = h.tracked.original ∧
      h.warm.2.tracked.flags.touched = h.tracked.flags.touched := by
  unfold AccountHandle.warm
  split_ifs <;> exact ⟨rfl, rfl, rfl, rfl, rfl⟩

omit [Keccak] in
theorem AccountHandle.onInner_codeOf_ok {h h' : AccountHandle} {info : Option AccountInfo}
    {code : Bytecode} (hr : (onInner (codeOf db info)).run h = (.ok code, h')) :
    h.inner.cache.code db info = .ok code ∧
      ∃ c, CodeReads db h.inner.cache c ∧ h' = { h with inner := { h.inner with cache := c } } := by
  obtain ⟨c, hc, hcache⟩ : ∃ c, CodeReads db h.inner.cache c ∧ _ := codeReads_codeOf info h.inner
  have hcode := congrArg Prod.fst hr
  have hstate := congrArg Prod.snd hr
  simp only [onInner, Cache.codeOf_fst] at hcode hstate
  exact ⟨hcode, c, hc, by rw [← hstate, hcache]⟩

def Authorization.Fits (auth : Authorization) (info : Option AccountInfo) (code : Bytecode) :
    Prop :=
  code.isDelegable = true ∧ auth.nonce = infoNonce info

omit [Keccak] in
theorem authoritySession_ok {h h' : AccountHandle} {r : Option AppliedAuth}
    (hr : (authoritySession db auth).run h = (.ok r, h')) :
    ∃ c code, CodeReads db h.inner.cache c ∧
      h' = { h.warm.2 with inner := { h.inner with cache := c } } ∧
      h.inner.cache.code db h.tracked.present = .ok code ∧
      ((¬auth.Fits h.tracked.present code ∧ r = none) ∨
        auth.Fits h.tracked.present code ∧ ∃ original,
          h.inner.cache.code db h.tracked.original = .ok original ∧
          r = some ⟨h.exists' || h.tracked.flags.touched, original.isEip7702, !code.isEmpty,
            decide (auth.address = 0)⟩) := by
  obtain ⟨-, hinner, hpresent, horiginal, htouched⟩ := h.warm_spec
  set w := h.warm.2 with hw
  obtain ⟨code, h₁, hload, hr⟩ := Op.run_bind_eq_ok
    (x := (AccountHandle.loadCode db).mapError LoadError.database) (s := w) hr
  obtain ⟨hcode, c, hc, rfl⟩ := AccountHandle.onInner_codeOf_ok (Op.run_mapError_eq_ok hload)
  rw [hinner] at hc
  rw [hinner, hpresent] at hcode
  have hexists : w.exists' = h.exists' := congrArg Option.isSome hpresent
  have hnonce : w.nonce = infoNonce h.tracked.present := congrArg infoNonce hpresent
  have hdelegable : (!code.isEmpty && !code.isEip7702) = !code.isDelegable := by
    rw [Bytecode.isDelegable, Bool.not_or]
  dsimp only at hr
  rw [hdelegable, hexists, htouched, hnonce, hinner] at hr
  by_cases hd : code.isDelegable = true
  · by_cases hn : auth.nonce = infoNonce h.tracked.present
    · -- the original code is read after the present one
      simp only [hd, hn, Bool.not_true, Bool.false_eq_true, ne_eq, not_true_eq_false,
        if_false] at hr
      obtain ⟨original, h₂, horig, hr⟩ := Op.run_bind_eq_ok hr
      obtain ⟨hocode, c', hc', rfl⟩ :=
        AccountHandle.onInner_codeOf_ok (Op.run_mapError_eq_ok horig)
      cases hr
      dsimp only at hc' hocode
      rw [horiginal, (Cache.sameCodes_of_codeReads hc).code] at hocode
      exact ⟨c', code, hc.trans hc', rfl, hcode, .inr ⟨⟨hd, hn⟩, original, hocode, rfl⟩⟩
    · simp only [hd, hn, Bool.not_true, Bool.false_eq_true, ne_eq, not_false_eq_true, if_false,
        if_true] at hr
      cases hr
      exact ⟨c, code, hc, rfl, hcode, .inl ⟨fun h => hn h.2, rfl⟩⟩
  · rw [Bool.not_eq_true] at hd
    simp only [hd, Bool.not_false, if_true] at hr
    cases hr
    refine ⟨c, code, hc, rfl, hcode, .inl ⟨fun h => ?_, rfl⟩⟩
    rw [h.1] at hd
    cases hd

theorem validateOneAuth_eq (chainId : Nat) (auth : Authorization) :
    validateOneAuth db chainId auth =
      match auth.names chainId with
      | none => pure none
      | some authority => do
        let applied ← (State.accountWithSkip db authority false (authoritySession db auth)).mapError
          State.loadErrorToDatabase
        return applied.map (authority, ·) := by
  unfold validateOneAuth Authorization.names
  by_cases hc : auth.chainId ≠ 0 ∧ auth.chainId ≠ BitVec.ofNat 256 chainId
  · rw [if_pos hc, if_pos (.inl hc)]
  · by_cases hn : auth.nonce = BitVec.allOnes 64
    · rw [if_neg hc, if_pos hn, if_pos (.inr hn)]
    · rw [if_neg hc, if_neg hn, if_neg (not_or.mpr ⟨hc, hn⟩)]

/-- **What checking an authorization does**: it reads the info and the code of the authority and
compares, and it leaves accounts, touches and codes as they are. -/
theorem validateOneAuth_ok (hdb : db.Coherent) (hs : s.Sound db)
    {r : Option (Address × AppliedAuth)}
    (h : (validateOneAuth db chainId auth).run s = (.ok r, t)) :
    SameStanding db s t ∧
      ((auth.names chainId = none ∧ r = none) ∨
        ∃ a info code, auth.names chainId = some a ∧ s.info db a = .ok info ∧
          s.cache.code db info = .ok code ∧
          ((¬auth.Fits info code ∧ r = none) ∨
            auth.Fits info code ∧ ∃ before original, s.cache.info db a = .ok before ∧
              s.cache.code db before = .ok original ∧
              r = some (a, ⟨info.isSome || s.isTouched a, original.isEip7702, !code.isEmpty,
                decide (auth.address = 0)⟩))) := by
  rw [validateOneAuth_eq] at h
  cases ha : auth.names chainId with
  | none =>
    rw [ha] at h
    cases h
    exact ⟨.refl hs, .inl ⟨rfl, rfl⟩⟩
  | some a =>
    rw [ha] at h
    obtain ⟨applied, t', h, hr⟩ := Op.run_bind_eq_ok h
    cases hr
    obtain ⟨x, u, hload, hsession, rfl⟩ :=
      State.accountWithSkip_ok db (Op.run_mapError_eq_ok h)
    rcases hrun : (authoritySession db auth).run ⟨a, x, u.inner, none⟩ with ⟨r, h'⟩
    rw [hrun] at hsession
    cases hsession
    obtain ⟨c, code, hc, hh, hcode, hout⟩ := authoritySession_ok hrun
    have hsu := hload.sameStanding hdb hs
    obtain ⟨haddr, -, hpresent, horiginal, htouched⟩ :=
      AccountHandle.warm_spec ⟨a, x, u.inner, none⟩
    -- dropping the handle rebinds the account as it was, but warm
    have hreb : Rebinds db u (u.dropHandle h') a
        (AccountHandle.warm ⟨a, x, u.inner, none⟩).2.tracked := by
      subst hh
      exact State.rebinds_dropHandle haddr rfl hc
    have hut : SameStanding db u (u.dropHandle h') := by
      refine ⟨fun b => ?_, fun b => ?_, hreb.data, Cache.sameCodes_of_codeReads hreb.reads,
        hreb.sound hsu.sound hload.lookup horiginal⟩
      · by_cases hb : b = a
        · rw [hb, hreb.info_self, hpresent, State.info_some hload.lookup]
        · exact hreb.info_other hb
      · by_cases hb : b = a
        · rw [hb, hreb.touched_self, htouched, State.isTouched_some hload.lookup]
        · exact hreb.touched_other hb
    have hinfo : s.info db a = .ok x.present := by
      rw [← hsu.info, State.info_some hload.lookup]
    have htouch : x.flags.touched = s.isTouched a := by
      rw [← hsu.touched, State.isTouched_some hload.lookup]
    have hbefore : s.cache.info db a = .ok x.original := by
      rw [← hsu.data.info]
      exact (hsu.sound a x hload.lookup).info
    dsimp only at hcode hout
    refine ⟨hsu.trans hut, .inr ⟨a, x.present, code, rfl, hinfo, ?_, ?_⟩⟩
    · rw [← hsu.codes.code]
      exact hcode
    · rcases hout with ⟨hfit, rfl⟩ | ⟨hfit, original, horig, rfl⟩
      · exact .inl ⟨hfit, rfl⟩
      · refine .inr ⟨hfit, x.original, original, hbefore, ?_, ?_⟩
        · rw [← hsu.codes.code]
          exact horig
        · rw [← htouch]
          rfl

omit [Keccak] in
theorem AccountHandle.touch_spec (h : AccountHandle) :
    h.touch.address = h.address ∧ h.touch.inner = h.inner ∧
      h.touch.tracked.present = h.tracked.present ∧
      h.touch.tracked.original = h.tracked.original ∧ h.touch.tracked.flags.touched = true := by
  unfold AccountHandle.touch
  split_ifs with ht
  · exact ⟨rfl, rfl, rfl, rfl, ht⟩
  · exact ⟨rfl, rfl, rfl, rfl, rfl⟩

def delegatedInfo (info : Option AccountInfo) (delegated : Address) : AccountInfo where
  balance := (info.getD .default).balance
  nonce := infoNonce info + 1
  codeHash := (delegationCode delegated).hashSlow
  code := some (delegationCode delegated)

theorem AccountHandle.setDelegation_spec (h : AccountHandle) (d : Address)
    (hn : infoNonce h.tracked.present ≠ BitVec.allOnes 64) :
    (h.setDelegation d).address = h.address ∧ (h.setDelegation d).inner = h.inner ∧
      (h.setDelegation d).tracked.present = some (delegatedInfo h.tracked.present d) ∧
      (h.setDelegation d).tracked.original = h.tracked.original ∧
      (h.setDelegation d).tracked.flags.touched = true := by
  set w := h.setCodeSlow (delegationCode d) with hw
  have hset : h.setDelegation d = w.bumpNonce.2 := rfl
  obtain ⟨ha, hi, hp, ho, ht⟩ := h.touch_spec
  have hwp : w.tracked.present = some { h.tracked.present.getD .default with
      codeHash := (delegationCode d).hashSlow, code := some (delegationCode d) } := by
    rw [hw, ← hp]
    rfl
  -- the account is touched already, and setting the code has not changed its nonce
  have hwt : w.touch = w := if_pos ht
  have hwn : w.nonce = infoNonce h.tracked.present := by
    rw [AccountHandle.nonce, hwp]
    cases h.tracked.present <;> rfl
  have hbump : w.bumpNonce.2 = w.presentMut fun info => { info with nonce := w.nonce + 1 } := by
    unfold AccountHandle.bumpNonce
    rw [hwt]
    dsimp only
    rw [if_neg (hwn ▸ hn)]
  rw [hset, hbump]
  refine ⟨ha, hi, ?_, ho, ht⟩
  simp only [AccountHandle.presentMut, AccountHandle.recordChange, hwp, hwn, Option.getD_some]
  rfl

theorem setDelegation_ok (hdb : db.Coherent) (hs : s.Sound db) {d : Address}
    {info : Option AccountInfo} (hi : s.info db a = .ok info)
    (hn : infoNonce info ≠ BitVec.allOnes 64)
    (h : (State.account db a fun h => ((), h.setDelegation d)).run s = (.ok (), t)) :
    t.Sound db ∧ Cache.SameData db s.cache t.cache ∧ Cache.SameCodes db s.cache t.cache ∧
      t.info db a = .ok (some (delegatedInfo info d)) ∧ t.isTouched a = true ∧
      ∀ b, b ≠ a → t.info db b = s.info db b ∧ t.isTouched b = s.isTouched b := by
  obtain ⟨x, u, hload, -, rfl⟩ := State.account_ok db h
  have hsu := hload.sameStanding hdb hs
  have hx : x.present = info := by
    have := hsu.info a
    rw [hi, State.info_some hload.lookup] at this
    exact Except.ok.inj this
  subst hx
  obtain ⟨haddr, hinner, hpresent, horiginal, htouched⟩ :=
    AccountHandle.setDelegation_spec ⟨a, x, u.inner, none⟩ d hn
  have hreb : Rebinds db u _ a _ := State.rebinds_dropHandle (c := u.cache) haddr hinner .refl
  refine ⟨hreb.sound hsu.sound hload.lookup horiginal, hsu.data.trans hreb.data,
    hsu.codes.trans (Cache.sameCodes_of_codeReads hreb.reads), ?_, ?_, fun b hb => ⟨?_, ?_⟩⟩
  · rw [hreb.info_self, hpresent]
  · rw [hreb.touched_self, htouched]
  · rw [hreb.info_other hb, hsu.info]
  · rw [hreb.touched_other hb, hsu.touched]

end Spec

end Evm2
