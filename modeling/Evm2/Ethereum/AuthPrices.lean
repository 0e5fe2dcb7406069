import Evm2.Ethereum.AuthRule
import Evm2.State.Returns

/-!
# What an authorization list costs

The accountings decide entry by entry; here their totals are given for each authority.
-/

namespace Evm2

namespace GasTracker

variable {g : GasTracker} {cost : ℕ}

theorem spendState_total (hfit : g.remaining < 2 ^ 64) (h : (g.spendState cost).1 = true) :
    (g.spendState cost).2.remaining < 2 ^ 64 ∧
      g.remaining + g.reservoir =
        (g.spendState cost).2.remaining + (g.spendState cost).2.reservoir + cost := by
  rw [spendState_fst, decide_eq_true_eq] at h
  obtain ⟨remaining, gasLimit, reservoir, spent, spilled, refunded⟩ := g
  dsimp only at hfit h ⊢
  by_cases hres : cost ≤ reservoir
  · simp only [spendState, addStateGasSpent, if_pos hres]
    omega
  · have hspill : cost - reservoir ≤ remaining := by omega
    simp only [spendState, if_neg hres, spend, hspill, decide_true, if_true, addStateGasSpent,
      addStateGasSpilled]
    rw [wrapSub64_eq hspill hfit]
    omega

theorem spend_total (hfit : g.remaining < 2 ^ 64) (h : (g.spend cost).1 = true) :
    (g.spend cost).2.remaining < 2 ^ 64 ∧
      g.remaining + g.reservoir =
        (g.spend cost).2.remaining + (g.spend cost).2.reservoir + cost := by
  rw [spend_fst, decide_eq_true_eq] at h
  have hrem := spend_remaining hfit h
  rw [spend_reservoir]
  omega

end GasTracker

namespace RuntimeAuthCharges

variable {c c₁ : RuntimeAuthCharges} {a : Address} {applied : AppliedAuth}

def bytesDue (c : RuntimeAuthCharges) (a : Address) (applied : AppliedAuth) : Bool :=
  !applied.clearing && !applied.delegatedNow && !applied.delegatedBeforeTx &&
    !c.chargedDelegationBytes.contains a

def due (c : RuntimeAuthCharges) (a : Address) (applied : AppliedAuth) : ℕ :=
  (if applied.existed then 0 else c.newAccountStateGas) +
    (if c.written.contains a then 0 else c.accountWriteCost) +
    if c.bytesDue a applied then c.delegationBytesStateGas else 0

def paid (c : RuntimeAuthCharges) (a : Address) (applied : AppliedAuth) (gas : GasTracker) :
    RuntimeAuthCharges :=
  { c with
    gas
    written := if c.written.contains a then c.written else c.written ++ [a]
    chargedDelegationBytes :=
      if c.bytesDue a applied then c.chargedDelegationBytes ++ [a] else c.chargedDelegationBytes }

theorem charge_ok {f : GasTracker → Bool × GasTracker} (h : (charge f).run c = (.ok (), c₁)) :
    (f c.gas).1 = true ∧ c₁ = { c with gas := (f c.gas).2 } := by
  obtain ⟨hr, hc⟩ := Prod.mk.inj h
  refine ⟨?_, hc.symm⟩
  by_contra hf
  rw [if_neg hf] at hr
  cases hr

theorem accepted_ok (hfit : c.gas.remaining < 2 ^ 64)
    (h : (accepted a applied).run c = (.ok (), c₁)) :
    ∃ gas, c₁ = c.paid a applied gas ∧ gas.remaining < 2 ^ 64 ∧
      c.gas.remaining + c.gas.reservoir = gas.remaining + gas.reservoir + c.due a applied := by
  obtain ⟨_, c₂, hget, h⟩ := Op.run_bind_eq_ok h
  cases hget
  obtain ⟨_, c₃, hnew, h⟩ := Op.run_bind_eq_ok h
  obtain ⟨_, c₄, hwrite, hbytes⟩ := Op.run_bind_eq_ok h
  -- the leaf of a new account
  obtain ⟨g₁, hc₃, hfit₁, htotal₁⟩ : ∃ g, c₃ = { c with gas := g } ∧ g.remaining < 2 ^ 64 ∧
      c.gas.remaining + c.gas.reservoir =
        g.remaining + g.reservoir + if applied.existed then 0 else c.newAccountStateGas := by
    cases he : applied.existed with
    | true =>
      rw [he] at hnew
      cases hnew
      exact ⟨c.gas, rfl, hfit, rfl⟩
    | false =>
      rw [he, Bool.not_false, if_pos rfl] at hnew
      obtain ⟨hpay, rfl⟩ := charge_ok hnew
      obtain ⟨hfit', htotal⟩ := GasTracker.spendState_total hfit hpay
      exact ⟨_, rfl, hfit', htotal⟩
  subst hc₃
  -- the first write of the leaf
  obtain ⟨g₂, hc₄, hfit₂, htotal₂⟩ : ∃ g, c₄ = { c with
      gas := g, written := if c.written.contains a then c.written else c.written ++ [a] } ∧
      g.remaining < 2 ^ 64 ∧ g₁.remaining + g₁.reservoir =
        g.remaining + g.reservoir + if c.written.contains a then 0 else c.accountWriteCost := by
    cases hw : c.written.contains a with
    | true =>
      rw [hw] at hwrite
      cases hwrite
      exact ⟨g₁, rfl, hfit₁, rfl⟩
    | false =>
      rw [hw, Bool.not_false, if_pos rfl] at hwrite
      obtain ⟨_, c₅, hcharge, hpush⟩ := Op.run_bind_eq_ok hwrite
      obtain ⟨hpay, rfl⟩ := charge_ok hcharge
      cases hpush
      obtain ⟨hfit', htotal⟩ := GasTracker.spend_total hfit₁ hpay
      exact ⟨_, rfl, hfit', htotal⟩
  subst hc₄
  -- the bytes of the designator
  cases hb : c.bytesDue a applied with
  | false =>
    have hb' := hb
    rw [bytesDue] at hb'
    rw [hb'] at hbytes
    cases hbytes
    refine ⟨g₂, ?_, hfit₂, ?_⟩
    · simp [paid, hb]
    · rw [due, hb]
      simp only [Bool.false_eq_true, if_false]
      omega
  | true =>
    have hb' := hb
    rw [bytesDue] at hb'
    rw [hb', if_pos rfl] at hbytes
    obtain ⟨_, c₅, hcharge, hpush⟩ := Op.run_bind_eq_ok hbytes
    obtain ⟨hpay, rfl⟩ := charge_ok hcharge
    cases hpush
    obtain ⟨hfit', htotal⟩ := GasTracker.spendState_total hfit₂ hpay
    refine ⟨_, ?_, hfit', ?_⟩
    · simp [paid, hb]
    · rw [due, hb]
      simp only [if_true]
      omega

/-- What an authority pays in all for its accepted entries; `sets` tells that one of them does not
clear. -/
def price (c : RuntimeAuthCharges) (a : Address) (existed before sets : Bool) : ℕ :=
  (if existed then 0 else c.newAccountStateGas) +
    (if c.written.contains a then 0 else c.accountWriteCost) +
    if !before && sets && !c.chargedDelegationBytes.contains a then c.delegationBytesStateGas else 0

theorem price_paid_other {b : Address} (h : b ≠ a) (gas : GasTracker)
    (existed before sets : Bool) :
    (c.paid a applied gas).price b existed before sets = c.price b existed before sets := by
  have hpush : ∀ l : List Address, (l ++ [a]).contains b = l.contains b := by
    intro l
    simp [h]
  have hwritten : (c.paid a applied gas).written.contains b = c.written.contains b := by
    simp only [paid]
    split_ifs
    · rfl
    · exact hpush _
  have hcharged : (c.paid a applied gas).chargedDelegationBytes.contains b =
      c.chargedDelegationBytes.contains b := by
    simp only [paid]
    split_ifs
    · exact hpush _
    · rfl
  simp only [price, hwritten, hcharged]
  rfl

theorem contains_charged_paid (gas : GasTracker) :
    (c.paid a applied gas).chargedDelegationBytes.contains a =
      (c.chargedDelegationBytes.contains a || c.bytesDue a applied) := by
  simp only [paid]
  split_ifs with h <;> simp [h]

theorem contains_written_paid (gas : GasTracker) :
    (c.paid a applied gas).written.contains a = true := by
  simp only [paid]
  split_ifs with h
  · exact h
  · simp

theorem price_eq_due_add (gas : GasTracker) (sets : Bool)
    (hnow : applied.delegatedNow = true →
      applied.delegatedBeforeTx = true ∨ c.chargedDelegationBytes.contains a = true) :
    c.price a applied.existed applied.delegatedBeforeTx (!applied.clearing || sets) =
      c.due a applied + (c.paid a applied gas).price a true applied.delegatedBeforeTx sets := by
  have hbytes : (if !applied.delegatedBeforeTx && (!applied.clearing || sets) &&
        !c.chargedDelegationBytes.contains a then c.delegationBytesStateGas else 0) =
      (if c.bytesDue a applied then c.delegationBytesStateGas else 0) +
        if !applied.delegatedBeforeTx && sets &&
          !(c.chargedDelegationBytes.contains a || c.bytesDue a applied)
        then c.delegationBytesStateGas else 0 := by
    unfold bytesDue
    -- the bytes are charged at the first entry that does not clear
    cases hb : applied.delegatedBeforeTx with
    | true => simp
    | false =>
      cases hc : c.chargedDelegationBytes.contains a with
      | true => simp
      | false =>
        have hn : applied.delegatedNow = false := by
          by_contra hn
          rcases hnow (by simpa using hn) with h | h
          · rw [hb] at h
            cases h
          · rw [hc] at h
            cases h
        cases applied.clearing <;> cases sets <;> simp [hn]
  simp only [price, due, contains_written_paid, contains_charged_paid, if_true, Nat.zero_add]
  rw [hbytes]
  exact (Nat.add_assoc _ _ _).symm

end RuntimeAuthCharges

/-! ## The charges of a list -/

theorem sum_insert_eq_add {α : Type} [DecidableEq α] {f g : α → ℕ} {F : Finset α} {a : α}
    {k : ℕ} (hother : ∀ b, b ≠ a → f b = g b) (hself : f a = k + g a) (hout : a ∉ F → g a = 0) :
    ∑ b ∈ insert a F, f b = k + ∑ b ∈ F, g b := by
  have herase : ∑ b ∈ F.erase a, f b = ∑ b ∈ F.erase a, g b :=
    Finset.sum_congr rfl fun b hb => hother b (Finset.ne_of_mem_erase hb)
  by_cases ha : a ∈ F
  · rw [Finset.insert_eq_of_mem ha, ← Finset.add_sum_erase F f ha, ← Finset.add_sum_erase F g ha,
      herase, hself, Nat.add_assoc]
  · rw [Finset.sum_insert ha, hself, hout ha, Nat.add_zero]
    rw [Finset.erase_eq_of_notMem ha] at herase
    rw [herase]

def authorities (entries : List (Address × Address)) : Finset Address :=
  (entries.map Prod.fst).toFinset

theorem authorities_cons (a d : Address) (entries : List (Address × Address)) :
    authorities ((a, d) :: entries) = insert a (authorities entries) := by
  simp [authorities]

def setsDelegation (a : Address) (entries : List (Address × Address)) : Bool :=
  (delegationsOf a entries).any fun d => !decide (d = 0)

theorem setsDelegation_cons_self (a d : Address) (entries : List (Address × Address)) :
    setsDelegation a ((a, d) :: entries) = (!decide (d = 0) || setsDelegation a entries) := by
  rw [setsDelegation, delegationsOf_cons_self, List.any_cons, setsDelegation]

theorem setsDelegation_cons_other {a b : Address} (h : b ≠ a) (d : Address)
    (entries : List (Address × Address)) :
    setsDelegation b ((a, d) :: entries) = setsDelegation b entries := by
  rw [setsDelegation, delegationsOf_cons_other h, setsDelegation]

theorem setsDelegation_of_notMem {a : Address} {entries : List (Address × Address)}
    (h : a ∉ authorities entries) : setsDelegation a entries = false := by
  have hnone : delegationsOf a entries = [] := by
    rw [delegationsOf, List.map_eq_nil_iff, List.filter_eq_nil_iff]
    intro e he hea
    refine h (List.mem_toFinset.mpr (List.mem_map.mpr ⟨e, he, ?_⟩))
    simpa using hea
  rw [setsDelegation, hnone]
  rfl

section Charges

variable [Keccak] {db : Database} {chainId : ℕ} {v : Standings} {s t : State}
  {auths : List Authorization}

open State (SameStanding Follows Reports Delegates)

variable (db) in
/-- An account that is delegated was so before the transaction, or its bytes are paid for. -/
def RuntimeAuthCharges.Covers (c : RuntimeAuthCharges) (s : State) : Prop :=
  ∀ a info code, s.info db a = .ok info → s.cache.code db info = .ok code →
    code.isEip7702 = true →
    s.delegatedBefore db a = true ∨ c.chargedDelegationBytes.contains a = true

theorem RuntimeAuthCharges.Covers.sameStanding {c : RuntimeAuthCharges} (h : c.Covers db s)
    (hs : SameStanding db s t) : c.Covers db t := by
  intro a info code hi hc hcode
  rw [hs.info] at hi
  rw [hs.codes.code] at hc
  rw [State.delegatedBefore_congr hs.data hs.codes]
  exact h a info code hi hc hcode

omit [Keccak] in
theorem Bytecode.isEip7702_of_isDelegable {code : Bytecode} (h : code.isDelegable = true)
    (he : code.isEmpty = false) : code.isEip7702 = true := by
  rw [Bytecode.isDelegable, he] at h
  exact h

theorem State.Reports.delegatedNow {c : RuntimeAuthCharges} {a : Address} {auth : Authorization}
    {applied : AppliedAuth} (hc : c.Covers db s) (h : Reports db s a auth applied)
    (hnow : applied.delegatedNow = true) :
    applied.delegatedBeforeTx = true ∨ c.chargedDelegationBytes.contains a = true := by
  obtain ⟨info, code, hi, hcode, hdel, hn⟩ := h.code
  rw [h.delegatedBeforeTx]
  refine hc a info code hi hcode (Bytecode.isEip7702_of_isDelegable hdel ?_)
  rw [hnow] at hn
  simpa using hn.symm

theorem RuntimeAuthCharges.Covers.delegates {c : RuntimeAuthCharges} {a d : Address}
    {applied : AppliedAuth} (h : c.Covers db s) (gas : GasTracker) (hd : Delegates db s t a d)
    (hclear : applied.clearing = decide (d = 0))
    (hbefore : applied.delegatedBeforeTx = s.delegatedBefore db a)
    (hnow : applied.delegatedNow = true →
      applied.delegatedBeforeTx = true ∨ c.chargedDelegationBytes.contains a = true) :
    (c.paid a applied gas).Covers db t := by
  intro b info code hi hc hcode
  rw [hd.delegatedBefore]
  by_cases hb : b = a
  · subst hb
    rw [contains_charged_paid]
    obtain ⟨info₀, -, -, hinfo⟩ := hd.info
    obtain rfl : info = some (delegatedInfo info₀ d) := Except.ok.inj (hi.symm.trans hinfo)
    obtain ⟨code', hcode', -, hempty⟩ := State.code_delegatedInfo t.cache info₀ d
    obtain rfl : code = code' := Except.ok.inj (hc.symm.trans hcode')
    -- code that is a delegation was set, not cleared
    have hd0 : d ≠ 0 := by
      rintro hd0
      have := hempty hd0
      cases code with
      | legacy bs => cases hcode
      | eip7702 x => simp at this
    by_cases hold : s.delegatedBefore db b = true ∨ c.chargedDelegationBytes.contains b = true
    · rcases hold with hold | hold
      · exact .inl hold
      · right
        rw [hold, Bool.true_or]
    · right
      obtain ⟨hnb, hnc⟩ := not_or.mp hold
      rw [Bool.not_eq_true] at hnb hnc
      have hnn : applied.delegatedNow = false := by
        by_contra hn
        rw [hbefore] at hnow
        exact hold (hnow (by simpa using hn))
      rw [hnc, Bool.false_or, bytesDue, hclear, hbefore, hnb, hnc, hnn, decide_eq_false hd0]
      rfl
  · rw [(hd.other b hb).1] at hi
    rw [hd.codes.code] at hc
    rcases h b info code hi hc hcode with hold | hold
    · exact .inl hold
    · right
      simp only [RuntimeAuthCharges.paid]
      split_ifs
      · rw [List.contains_iff_mem] at hold ⊢
        exact List.mem_append_left _ hold
      · exact hold

/-- **The charges of a list** that is paid for are the prices of its authorities. -/
theorem applyAuthList_charges (hdb : db.Coherent) (hs : s.Sound db) (hv : s.Follows db v)
    {c c' : RuntimeAuthCharges} (hc : c.Covers db s) (hfit : c.gas.remaining < 2 ^ 64)
    (h : (applyAuthList db RuntimeAuthCharges.accounting chainId auths).run (s, c) =
      (.ok false, (t, c'))) :
    c.gas.remaining + c.gas.reservoir = c'.gas.remaining + c'.gas.reservoir +
      ∑ a ∈ authorities (acceptedEntries chainId v auths),
        c.price a (s.existed db a) (s.delegatedBefore db a)
          (setsDelegation a (acceptedEntries chainId v auths)) := by
  induction auths generalizing s v c with
  | nil =>
    cases h
    rfl
  | cons auth auths ih =>
    rcases applyAuthList_cons_ok hdb hs hv h with ⟨hnone, u, hsu, h⟩ |
      ⟨a, applied, hsome, hrep, ⟨hoog, -⟩ | ⟨c₁, u, hacc, hdel, hu, h⟩⟩
    · have hrest := ih hsu.sound (hv.sameStanding hsu) (hc.sameStanding hsu) hfit h
      rw [acceptedEntries_none hnone, hrest]
      simp only [hsu.existed, State.delegatedBefore_congr hsu.data hsu.codes]
    · cases hoog
    · obtain ⟨gas, rfl, hfit', htotal⟩ := RuntimeAuthCharges.accepted_ok hfit hacc
      have hnow := hrep.delegatedNow hc
      have hcov := hc.delegates gas hdel hrep.clearing hrep.delegatedBeforeTx hnow
      have hrest := ih hdel.sound hu hcov hfit' h
      rw [acceptedEntries_some hsome, authorities_cons]
      rw [sum_insert_eq_add (k := c.due a applied)
        (g := fun b => (c.paid a applied gas).price b (u.existed db b) (u.delegatedBefore db b)
          (setsDelegation b (acceptedEntries chainId (v.delegate a auth.address) auths)))]
      · have hgas : (c.paid a applied gas).gas = gas := rfl
        rw [hgas] at hrest
        omega
      · intro b hb
        rw [RuntimeAuthCharges.price_paid_other hb, hdel.existed_other hb, hdel.delegatedBefore,
          setsDelegation_cons_other hb]
      · rw [hdel.existed_self, hdel.delegatedBefore, setsDelegation_cons_self, ← hrep.clearing,
          ← hrep.existed, ← hrep.delegatedBeforeTx]
        exact RuntimeAuthCharges.price_eq_due_add gas _ hnow
      · intro ha
        rw [setsDelegation_of_notMem ha, hdel.existed_self]
        simp only [RuntimeAuthCharges.price, RuntimeAuthCharges.contains_written_paid, if_true,
          Bool.and_false, Bool.false_and, Bool.false_eq_true, if_false]

/-! ## The refunds of a list -/

omit [Keccak] in
theorem satAdd64_min (x p : ℕ) : satAdd64 (min x maxU64) p = min (x + p) maxU64 := by
  unfold satAdd64
  omega

/-- **The execution refund of a list before EIP-8037**: one for each accepted entry but the first of
an authority that neither existed nor was touched. -/
theorem applyAuthList_refunds (hdb : db.Coherent) (hs : s.Sound db) (hv : s.Follows db v)
    {r r' : AuthRefunds} (h8037 : r.isEip8037 = false) {oog : Bool}
    (h : (applyAuthList db AuthRefunds.accounting chainId auths).run (s, r) =
      (.ok oog, (t, r'))) :
    r'.stateRefund = r.stateRefund ∧
      ∃ n, n + (∑ a ∈ authorities (acceptedEntries chainId v auths),
          if s.existed db a then 0 else 1) = (acceptedEntries chainId v auths).length ∧
        ∀ x, r.executionRefund = min x maxU64 →
          r'.executionRefund = min (x + n * r.executionPerAuth) maxU64 := by
  induction auths generalizing s v r with
  | nil =>
    cases h
    exact ⟨rfl, 0, rfl, fun x hx => by rw [Nat.zero_mul]; exact hx⟩
  | cons auth auths ih =>
    rcases applyAuthList_cons_ok hdb hs hv h with ⟨hnone, u, hsu, h⟩ |
      ⟨a, applied, hsome, hrep, ⟨-, -, reason, hacc⟩ | ⟨r₁, u, hacc, hdel, hu, h⟩⟩
    · have hrej : r.rejected = r := by simp [AuthRefunds.rejected, h8037]
      have hrest := ih hsu.sound (hv.sameStanding hsu) h8037 (hrej ▸ h)
      rw [acceptedEntries_none hnone]
      simpa only [hsu.existed] using hrest
    · cases hacc
    · obtain rfl : AuthRefunds.accepted applied r = r₁ := congrArg Prod.snd hacc
      have hstep : AuthRefunds.accepted applied r = if applied.existed then
          { r with executionRefund := satAdd64 r.executionRefund r.executionPerAuth } else r := by
        unfold AuthRefunds.accepted
        cases applied.existed <;> simp [h8037]
      rw [hstep] at h
      rw [acceptedEntries_some hsome, authorities_cons, List.length_cons]
      have hsum : (∑ b ∈ insert a (authorities
          (acceptedEntries chainId (v.delegate a auth.address) auths)),
            if s.existed db b then 0 else 1) = (if s.existed db a then 0 else 1) +
          ∑ b ∈ authorities (acceptedEntries chainId (v.delegate a auth.address) auths),
            if u.existed db b then 0 else 1 := by
        refine sum_insert_eq_add (fun b hb => ?_) ?_ fun _ => ?_
        · rw [hdel.existed_other hb]
        · rw [hdel.existed_self, if_pos rfl, Nat.add_zero]
        · rw [hdel.existed_self, if_pos rfl]
      rw [hsum, ← hrep.existed]
      cases he : applied.existed with
      | true =>
        rw [he, if_pos rfl] at h
        obtain ⟨hstate, n, hn, hx⟩ := ih hdel.sound hu (r := { r with
          executionRefund := satAdd64 r.executionRefund r.executionPerAuth }) h8037 h
        refine ⟨hstate, n + 1, ?_, fun x hr => ?_⟩
        · rw [if_pos rfl]
          omega
        · rw [hx (x + r.executionPerAuth) (by rw [hr]; exact satAdd64_min x _), Nat.add_mul,
            Nat.one_mul, Nat.add_comm (n * _), Nat.add_assoc]
      | false =>
        rw [he, if_neg Bool.false_ne_true] at h
        obtain ⟨hstate, n, hn, hx⟩ := ih hdel.sound hu h8037 h
        refine ⟨hstate, n, ?_, hx⟩
        rw [if_neg Bool.false_ne_true]
        omega

/-! ## From the start of the authorization phase -/

/-- What `AccountHandle.codeOf` reads of an info: hash and code, unless the code is empty. -/
def codeKey (info : Option AccountInfo) : Option (B256 × Option Bytecode) :=
  info.bind fun i => if i.isEmptyCodeHash then none else some (i.codeHash, i.code)

omit [Keccak] in
theorem code_congr {x y : Option AccountInfo} (h : codeKey x = codeKey y) (c : Cache) :
    c.code db x = c.code db y := by
  have hkey : ∀ x : Option AccountInfo, c.code db x = (codeKey x).elim (.ok Bytecode.new) fun k =>
      k.2.elim ((Cache.getCodeByHash db k.1).run c).1 fun code =>
        if !code.isEmpty then .ok code else ((Cache.getCodeByHash db k.1).run c).1 := by
    intro x
    cases x with
    | none => rfl
    | some i =>
      rw [Cache.code_some, codeKey, Option.bind_some]
      cases i.code <;> split_ifs <;> rfl
  rw [hkey, hkey, h]

variable (db) in
/-- A state in which the authorization phase may start: the transaction has not changed code. -/
structure State.AuthStart (s : State) : Prop where
  sound : s.Sound db
  code : s.Forall fun _ x => codeKey x.present = codeKey x.original

theorem State.AuthStart.covers (h : s.AuthStart db) {c : RuntimeAuthCharges} : c.Covers db s := by
  intro a info code hi hc hcode
  left
  have hbefore : ∃ before, s.cache.info db a = .ok before ∧ s.cache.code db before = .ok code := by
    cases hx : s.accounts.lookup a with
    | none =>
      rw [State.info_none hx] at hi
      exact ⟨info, hi, hc⟩
    | some x =>
      rw [State.info_some hx] at hi
      cases hi
      refine ⟨x.original, (h.sound a x hx).info, ?_⟩
      rw [← code_congr (h.code a x hx)]
      exact hc
  obtain ⟨before, hinfo, hread⟩ := hbefore
  simp only [State.delegatedBefore, hinfo, hread, hcode]

theorem State.authStart_of_empty (h : s.accounts = ∅) : s.AuthStart db :=
  ⟨State.sound_of_empty h, fun a x hx => by rw [h] at hx; cases hx⟩

/-! ## The loop returns -/

theorem returns_validateOneAuth (hdb : db.Answers) (chainId : ℕ) (auth : Authorization) :
    Op.Returns (validateOneAuth db chainId auth) := by
  have hsession : Op.Returns (authoritySession db auth) := by
    refine .bind (.total _) fun _ => .bind .get fun h => ?_
    refine .bind ((AccountHandle.returns_loadCode hdb).mapError _) fun code => ?_
    refine .ite (fun _ => .ret _) fun _ => .ite (fun _ => .ret _) fun _ => ?_
    exact .bind ((AccountHandle.returns_originalCode hdb).mapError _) fun _ => .ret _
  rw [validateOneAuth_eq]
  cases auth.names chainId with
  | none => exact .ret _
  | some a =>
    exact .bind ((State.returns_accountWithSkip hdb a hsession).mapError _) fun _ => .ret _

omit [Keccak] in
theorem returns_besideAccounting {σ α : Type} {x : Op State DatabaseError α} (hx : Op.Returns x) :
    Op.Returns (besideAccounting x : Op (State × σ) DatabaseError α) := by
  rintro ⟨s, c⟩
  obtain ⟨r, t, h⟩ := hx s
  exact ⟨r, (t, c), by simp only [besideAccounting, h]⟩

theorem returns_applyAuthList (hdb : db.Answers) {σ : Type} (A : AuthAccounting σ) (chainId : ℕ)
    (auths : List Authorization) : Op.Returns (applyAuthList db A chainId auths) := by
  induction auths with
  | nil => exact .ret _
  | cons auth auths ih =>
    refine .bind (returns_besideAccounting (returns_validateOneAuth hdb chainId auth)) fun r => ?_
    cases r with
    | none => exact .bind (.update _) fun _ => ih
    | some r =>
      refine .bind (fun sc => ⟨_, _, rfl⟩) fun ran => .ite (fun _ => .ret _) fun _ => ?_
      exact .bind (returns_besideAccounting (State.returns_account hdb _ _)) fun _ => ih

omit [Keccak] in
theorem RuntimeAuthCharges.price_new (version : Version) (gas : GasTracker)
    (caller recipient : Address) (value : Word) (h8037 : version.feature .eip8037 = true)
    (a : Address) (existed before sets : Bool) :
    (RuntimeAuthCharges.new version gas caller recipient value).price a existed before sets =
      (if existed then 0 else version.gasParams.newAccountStateGas) +
        (if a = caller ∨ value ≠ 0 ∧ a = recipient then 0 else EIP8038_ACCOUNT_WRITE) +
        if before = false ∧ sets = true
        then version.gasParams.get .txEip7702PerAuthState else 0 := by
  have hwritten : (RuntimeAuthCharges.new version gas caller recipient value).written.contains a =
      decide (a = caller ∨ value ≠ 0 ∧ a = recipient) := by
    simp only [new]
    by_cases hv : value = 0
    · simp [hv]
    · simp only [ne_eq, hv, not_false_eq_true, true_and]
      simp
  simp only [price, hwritten, decide_eq_true_eq]
  simp [new, h8037]

/-- **Authorization lists are applied and priced per authority.** -/
theorem auth_list_applied_and_priced_per_authority (hdb : db.Coherent) (hs : s.AuthStart db)
    (version : Version) (caller recipient : Address) (value : Word) (auths : List Authorization) :
    -- the entries are accepted as by the rule; if no charge fails, they take effect
    (∀ {σ : Type} (A : AuthAccounting σ) {c c' : σ} {log : List (Option Address)} {oog : Bool}
        {t : State},
      (applyAuthList db A.logged version.chainId auths).run (s, (c, [])) =
          (.ok oog, (t, (c', log))) →
        log <+: verdicts version.chainId (s.standings db) auths ∧
        (oog = false → log = verdicts version.chainId (s.standings db) auths ∧
          ∀ a, Leaves db s t a
            (delegationsOf a (acceptedEntries version.chainId (s.standings db) auths)))) ∧
    -- with EIP-2780 and EIP-8037, each authority pays once
    (version.feature .eip2780 = true → version.feature .eip8037 = true →
      ∀ {gas gas' : GasTracker} {t : State} {refunds : ℕ × ℕ}, gas.remaining < 2 ^ 64 →
        (authorizationPhase db version caller recipient value auths).run (gas, s) =
            (.ok (false, refunds), (gas', t)) →
        gas.remaining + gas.reservoir = gas'.remaining + gas'.reservoir +
          ∑ a ∈ authorities (acceptedEntries version.chainId (s.standings db) auths),
            ((if s.existed db a then 0 else version.gasParams.newAccountStateGas) +
              (if a = caller ∨ value ≠ 0 ∧ a = recipient then 0 else EIP8038_ACCOUNT_WRITE) +
              if s.delegatedBefore db a = false ∧
                  setsDelegation a
                    (acceptedEntries version.chainId (s.standings db) auths) = true
                then version.gasParams.get .txEip7702PerAuthState else 0)) ∧
    -- without both, an entry is refunded unless it is the first of a new authority
    (version.feature .eip2780 = false → version.feature .eip8037 = false →
      ∀ {gas gas' : GasTracker} {t : State} {oog : Bool} {stateRefund executionRefund : ℕ},
        (authorizationPhase db version caller recipient value auths).run (gas, s) =
            (.ok (oog, stateRefund, executionRefund), (gas', t)) →
        oog = false ∧ stateRefund = 0 ∧
        ∃ n, n + ((authorities (acceptedEntries version.chainId (s.standings db) auths)).filter
            fun a => ¬s.existed db a = true).card =
            (acceptedEntries version.chainId (s.standings db) auths).length ∧
          executionRefund = min (n * version.gasParams.get .txEip7702AuthRefund) maxU64) ∧
    -- the phase returns if the database answers
    (db.Answers → ∀ gas, ∃ r gs,
      (authorizationPhase db version caller recipient value auths).run (gas, s) = (.ok r, gs)) := by
  have hv : s.Follows db (s.standings db) := State.follows_standings s
  refine ⟨?_, ?_, ?_, ?_⟩
  · intro σ A c c' log oog t h
    obtain ⟨told, hlog, hpre, hall⟩ := applyAuthList_logged hdb hs.sound hv h
    rw [List.nil_append] at hlog
    subst hlog
    refine ⟨hpre, ?_⟩
    rintro rfl
    exact ⟨hall rfl, applyAuthList_info hdb hs.sound hv h⟩
  · intro h2780 h8037 gas gas' t refunds hfit h
    simp only [authorizationPhase, h2780, if_true] at h
    rcases hrun : (applyAuthList db RuntimeAuthCharges.accounting version.chainId auths).run
      (s, .new version gas caller recipient value) with ⟨e | oog, u, c'⟩
    · rw [hrun] at h
      cases h
    · rw [hrun] at h
      cases h
      have htotal := applyAuthList_charges hdb hs.sound hv hs.covers hfit hrun
      simp only [RuntimeAuthCharges.price_new version gas caller recipient value h8037] at htotal
      exact htotal
  · intro h2780 h8037 gas gas' t oog stateRefund executionRefund h
    simp only [authorizationPhase, h2780, Bool.false_eq_true, if_false] at h
    rcases hrun : (applyAuthList db AuthRefunds.accounting version.chainId auths).run
      (s, .new version) with ⟨e | oog', u, r⟩
    · rw [hrun] at h
      cases h
    · rw [hrun] at h
      cases h
      obtain ⟨hstate, n, hn, hx⟩ := applyAuthList_refunds hdb hs.sound hv h8037 hrun
      refine ⟨rfl, hstate, n, ?_, ?_⟩
      · rw [Finset.card_filter, ← hn]
        congr 1
        refine Finset.sum_congr rfl fun a _ => ?_
        cases s.existed db a <;> rfl
      · have := hx 0 rfl
        rw [Nat.zero_add] at this
        exact this
  · intro hans gas
    unfold authorizationPhase
    dsimp only
    split_ifs
    · obtain ⟨oog, u, h⟩ := returns_applyAuthList hans RuntimeAuthCharges.accounting
        version.chainId auths (s, .new version gas caller recipient value)
      rw [h]
      exact ⟨_, _, rfl⟩
    · obtain ⟨oog, u, h⟩ := returns_applyAuthList hans AuthRefunds.accounting version.chainId auths
        (s, .new version)
      rw [h]
      exact ⟨_, _, rfl⟩

end Charges

/-- Address 5 sets a delegation, fails to set another one with a stale nonce, clears it and sets it
again; it did not exist, so it pays for its leaf, one write and one designator. -/
theorem set_clear_set_is_charged_once :
    letI := Keccak.const
    let auths : List Authorization :=
      [⟨0, 0, 7, some 5⟩, ⟨0, 0, 8, some 5⟩, ⟨0, 1, 0, some 5⟩, ⟨1, 2, 9, some 5⟩]
    let gas : GasTracker := .newWithExecutionGasAndReservoir 1000000 0
    let r := (authorizationPhase .empty (.base .amsterdam) 1 2 0 auths).run (gas, State.new)
    r.1 = .ok (false, 0, 0) ∧
      1000000 = r.2.1.remaining + r.2.1.reservoir + (183600 + 9000 + 35190) := by
  let _ := Keccak.const
  intro auths gas r
  have hr : r.1 = .ok (false, 0, 0) := by decide +kernel
  have hrun : (authorizationPhase .empty (.base .amsterdam) 1 2 0 auths).run (gas, State.new) =
      (.ok (false, 0, 0), (r.2.1, r.2.2)) := Prod.ext hr rfl
  have hprice := (auth_list_applied_and_priced_per_authority Database.coherent_empty
    (State.authStart_of_empty rfl) (.base .amsterdam) 1 2 0 auths).2.1 (by decide) (by decide)
    (by decide) hrun
  exact ⟨hr, hprice.trans (congrArg _ (by decide +kernel))⟩

end Evm2
