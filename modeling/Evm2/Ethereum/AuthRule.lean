import Evm2.Ethereum.Authorizations

/-!
# The sequential rule for authorizations

The rule that set-code transactions follow, on the nonces and codes of the authorities alone:
entries are taken in order, an entry is accepted if its authority has no code or a delegation and
the nonce of the entry, and an accepted entry increases the nonce and installs a delegation.

* **`applyAuthList_cons_ok`**: what the loop does with one entry;
* **`applyAuthList_info`**: the nonces and codes it leaves.
-/

namespace Evm2

/-- What the rule knows of an authority. -/
structure Standing where
  nonce : U64
  code : Bytecode

/-- What the rule knows of all authorities. -/
abbrev Standings := Address → Standing

def Standings.delegate (v : Standings) (a delegated : Address) : Standings :=
  Function.update v a ⟨(v a).nonce + 1, delegationCode delegated⟩

section Rule

variable (chainId : Nat)

def Authorization.acceptedBy (v : Standings) (auth : Authorization) : Option Address :=
  (auth.names chainId).filter fun a => (v a).code.isDelegable && auth.nonce == (v a).nonce

def verdicts : Standings → List Authorization → List (Option Address)
  | _, [] => []
  | v, auth :: auths =>
    match auth.acceptedBy chainId v with
    | none => none :: verdicts v auths
    | some a => some a :: verdicts (v.delegate a auth.address) auths

/-- The accepted entries in order: the authority, and the address it delegates to. -/
def acceptedEntries : Standings → List Authorization → List (Address × Address)
  | _, [] => []
  | v, auth :: auths =>
    match auth.acceptedBy chainId v with
    | none => acceptedEntries v auths
    | some a => (a, auth.address) :: acceptedEntries (v.delegate a auth.address) auths

variable {chainId} {v : Standings} {auth : Authorization} {auths : List Authorization} {a : Address}

theorem acceptedEntries_none (h : auth.acceptedBy chainId v = none) :
    acceptedEntries chainId v (auth :: auths) = acceptedEntries chainId v auths := by
  rw [acceptedEntries, h]

theorem acceptedEntries_some (h : auth.acceptedBy chainId v = some a) :
    acceptedEntries chainId v (auth :: auths) =
      (a, auth.address) :: acceptedEntries chainId (v.delegate a auth.address) auths := by
  rw [acceptedEntries, h]

theorem verdicts_none (h : auth.acceptedBy chainId v = none) :
    verdicts chainId v (auth :: auths) = none :: verdicts chainId v auths := by
  rw [verdicts, h]

theorem verdicts_some (h : auth.acceptedBy chainId v = some a) :
    verdicts chainId v (auth :: auths) =
      some a :: verdicts chainId (v.delegate a auth.address) auths := by
  rw [verdicts, h]

end Rule

/-! ## The state and the rule -/

section Follows

variable [Keccak] (db : Database)

namespace State

/-- The nonces and codes that the state has. Where the database fails there are none; an entry that
needs them makes the loop fail too. -/
def standings (s : State) : Standings := fun a =>
  match s.info db a with
  | .ok info =>
    ⟨infoNonce info, match s.cache.code db info with
      | .ok code => code
      | .error _ => Bytecode.new⟩
  | .error _ => ⟨0, Bytecode.new⟩

/-- The state has the nonces of `v`, and codes that the rule treats alike. -/
def Follows (s : State) (v : Standings) : Prop :=
  ∀ a info code, s.info db a = .ok info → s.cache.code db info = .ok code →
    (v a).nonce = infoNonce info ∧ (v a).code.isDelegable = code.isDelegable

def existed (s : State) (a : Address) : Bool :=
  (match s.info db a with
    | .ok info => info.isSome
    | .error _ => false) || s.isTouched a

def delegatedBefore (s : State) (a : Address) : Bool :=
  match s.cache.info db a with
  | .ok before =>
    (match s.cache.code db before with
      | .ok original => original.isEip7702
      | .error _ => false)
  | .error _ => false

/-- What the loop reports to the accounting about an accepted entry. -/
structure Reports (s : State) (a : Address) (auth : Authorization) (applied : AppliedAuth) :
    Prop where
  existed : applied.existed = s.existed db a
  delegatedBeforeTx : applied.delegatedBeforeTx = s.delegatedBefore db a
  clearing : applied.clearing = decide (auth.address = 0)
  code : ∃ info code, s.info db a = .ok info ∧ s.cache.code db info = .ok code ∧
    code.isDelegable = true ∧ applied.delegatedNow = !code.isEmpty

/-- State `t` is `s` with a delegation of `a` applied. -/
structure Delegates (s t : State) (a delegated : Address) : Prop where
  sound : t.Sound db
  data : Cache.SameData db s.cache t.cache
  codes : Cache.SameCodes db s.cache t.cache
  info : ∃ info, s.info db a = .ok info ∧ infoNonce info ≠ BitVec.allOnes 64 ∧
    t.info db a = .ok (some (delegatedInfo info delegated))
  touched : t.isTouched a = true
  other : ∀ b, b ≠ a → t.info db b = s.info db b ∧ t.isTouched b = s.isTouched b

variable {db} {s t u : State} {v : Standings} {a d : Address}

theorem follows_standings (s : State) : s.Follows db (s.standings db) := by
  intro a info code hi hc
  simp only [standings, hi, hc, and_self]

theorem Follows.sameStanding (h : s.Follows db v) (hs : SameStanding db s t) :
    t.Follows db v := by
  intro a info code hi hc
  rw [hs.info] at hi
  rw [hs.codes.code] at hc
  exact h a info code hi hc

theorem SameStanding.existed (h : SameStanding db s t) (a : Address) :
    t.existed db a = s.existed db a := by
  unfold State.existed
  rw [h.info, h.touched]

theorem delegatedBefore_congr (hd : Cache.SameData db s.cache t.cache)
    (hc : Cache.SameCodes db s.cache t.cache) (a : Address) :
    t.delegatedBefore db a = s.delegatedBefore db a := by
  unfold delegatedBefore
  rw [hd.info]
  cases s.cache.info db a with
  | error e => rfl
  | ok before =>
    dsimp only
    rw [hc.code]

theorem code_delegatedInfo (c : Cache) (info : Option AccountInfo) (d : Address) :
    ∃ code, c.code db (some (delegatedInfo info d)) = .ok code ∧ code.isDelegable = true ∧
      (d = 0 → code.isEmpty = true) := by
  rw [Cache.code_some]
  by_cases hh : (delegatedInfo info d).isEmptyCodeHash = true
  · rw [if_pos hh]
    exact ⟨Bytecode.new, rfl, rfl, fun _ => rfl⟩
  · rw [if_neg hh]
    by_cases hd : d = 0
    · refine absurd ?_ hh
      simp [AccountInfo.isEmptyCodeHash, delegatedInfo, delegationCode, hd]
    · have hcode : delegationCode d = .eip7702 d := if_neg hd
      refine ⟨.eip7702 d, ?_, rfl, fun h => absurd h hd⟩
      simp only [delegatedInfo, hcode, Bytecode.isEmpty_eip7702, Bool.not_false, if_true]

theorem Follows.delegate (h : s.Follows db v) (hd : Delegates db s t a d)
    (hc : ∃ info code, s.info db a = .ok info ∧ s.cache.code db info = .ok code) :
    t.Follows db (v.delegate a d) := by
  intro b info code hi hcode
  unfold Standings.delegate
  by_cases hb : b = a
  · subst hb
    obtain ⟨info₀, hinfo₀, -, hinfo⟩ := hd.info
    obtain ⟨info₁, code₁, hinfo₁, hcode₁⟩ := hc
    obtain rfl : info₁ = info₀ := Except.ok.inj (hinfo₁.symm.trans hinfo₀)
    obtain rfl : info = some (delegatedInfo info₁ d) := Except.ok.inj (hi.symm.trans hinfo)
    obtain ⟨code', hcode', hdelegable, -⟩ := code_delegatedInfo t.cache info₁ d
    obtain rfl : code = code' := Except.ok.inj (hcode.symm.trans hcode')
    rw [Function.update_self, (h b info₁ code₁ hinfo₁ hcode₁).1, hdelegable,
      isDelegable_delegationCode]
    exact ⟨rfl, rfl⟩
  · rw [Function.update_of_ne hb]
    rw [(hd.other b hb).1] at hi
    rw [hd.codes.code] at hcode
    exact h b info code hi hcode

theorem Delegates.existed_self (h : Delegates db s t a d) : t.existed db a = true := by
  unfold existed
  rw [h.touched, Bool.or_true]

theorem Delegates.existed_other (h : Delegates db s t a d) {b : Address} (hb : b ≠ a) :
    t.existed db b = s.existed db b := by
  unfold existed
  rw [(h.other b hb).1, (h.other b hb).2]

theorem Delegates.delegatedBefore (h : Delegates db s t a d) (b : Address) :
    t.delegatedBefore db b = s.delegatedBefore db b :=
  delegatedBefore_congr h.data h.codes b

end State

end Follows

/-! ## The loop -/

section Loop

variable [Keccak] {db : Database} {σ : Type} {A : AuthAccounting σ} {chainId : Nat}
  {v : Standings} {s t : State} {auth : Authorization} {auths : List Authorization} {c c' : σ}
  {oog : Bool}

open State (SameStanding Follows Reports Delegates)

theorem Authorization.acceptedBy_eq_some (hv : s.Follows db v) {a : Address}
    {info : Option AccountInfo} {code : Bytecode} (ha : auth.names chainId = some a)
    (hi : s.info db a = .ok info) (hc : s.cache.code db info = .ok code)
    (hfit : auth.Fits info code) : auth.acceptedBy chainId v = some a := by
  obtain ⟨hnonce, hcode⟩ := hv a info code hi hc
  rw [acceptedBy, ha]
  simp only [Option.filter_some, hnonce, hcode, hfit.1, hfit.2, beq_self_eq_true, Bool.and_self,
    if_true]

theorem Authorization.acceptedBy_eq_none (hv : s.Follows db v) {a : Address}
    {info : Option AccountInfo} {code : Bytecode} (ha : auth.names chainId = some a)
    (hi : s.info db a = .ok info) (hc : s.cache.code db info = .ok code)
    (hfit : ¬auth.Fits info code) : auth.acceptedBy chainId v = none := by
  obtain ⟨hnonce, hcode⟩ := hv a info code hi hc
  rw [acceptedBy, ha]
  rw [Option.filter_some, if_neg]
  rintro hand
  rw [hnonce, hcode, Bool.and_eq_true, beq_iff_eq] at hand
  exact hfit hand

omit [Keccak] in
theorem Authorization.nonce_of_names {a : Address} (h : auth.names chainId = some a) :
    auth.nonce ≠ BitVec.allOnes 64 := by
  rintro hn
  rw [names, if_pos (.inr hn)] at h
  cases h

omit [Keccak] in
theorem besideAccounting_ok {α : Type} {x : Op State DatabaseError α} {r : α}
    (h : (besideAccounting x).run (s, c) = (.ok r, (t, c'))) : x.run s = (.ok r, t) ∧ c' = c := by
  obtain ⟨hr, hpair⟩ := Prod.mk.inj h
  obtain ⟨ht, hc⟩ := Prod.mk.inj hpair
  exact ⟨Prod.ext hr ht, hc.symm⟩

omit [Keccak] in
theorem AuthAccounting.runsOut_ok {a : Address} {applied : AppliedAuth} {ran : Bool}
    (h : (A.runsOut a applied).run (s, c) = (.ok ran, (t, c'))) :
    t = s ∧ ((ran = true ∧ ∃ reason, (A.accepted a applied).run c = (.error reason, c')) ∨
      ran = false ∧ (A.accepted a applied).run c = (.ok (), c')) := by
  simp only [runsOut] at h
  rcases hacc : (A.accepted a applied).run c with ⟨reason | _, c₁⟩
  · rw [hacc] at h
    cases h
    exact ⟨rfl, .inl ⟨rfl, reason, rfl⟩⟩
  · rw [hacc] at h
    cases h
    exact ⟨rfl, .inr ⟨rfl, rfl⟩⟩

theorem applyAuthList_cons_ok (hdb : db.Coherent) (hs : s.Sound db) (hv : s.Follows db v)
    (h : (applyAuthList db A chainId (auth :: auths)).run (s, c) = (.ok oog, (t, c'))) :
    (auth.acceptedBy chainId v = none ∧ ∃ u, SameStanding db s u ∧
      (applyAuthList db A chainId auths).run (u, A.rejected c) = (.ok oog, (t, c'))) ∨
    ∃ a applied, auth.acceptedBy chainId v = some a ∧ Reports db s a auth applied ∧
      ((oog = true ∧ SameStanding db s t ∧
          ∃ reason, (A.accepted a applied).run c = (.error reason, c')) ∨
        ∃ c₁ u, (A.accepted a applied).run c = (.ok (), c₁) ∧
          Delegates db s u a auth.address ∧ u.Follows db (v.delegate a auth.address) ∧
          (applyAuthList db A chainId auths).run (u, c₁) = (.ok oog, (t, c'))) := by
  obtain ⟨r, ⟨u, cu⟩, hcheck, h⟩ := Op.run_bind_eq_ok h
  obtain ⟨hval, rfl⟩ := besideAccounting_ok hcheck
  obtain ⟨hsu, hout⟩ := validateOneAuth_ok hdb hs hval
  rcases hout with ⟨hnames, rfl⟩ | ⟨a, info, code, hnames, hinfo, hcode, hout⟩
  · -- no authority to look at
    have hnone : auth.acceptedBy chainId v = none := by
      rw [Authorization.acceptedBy, hnames]
      rfl
    exact .inl ⟨hnone, u, hsu, h⟩
  rcases hout with ⟨hfit, rfl⟩ | ⟨hfit, before, original, hbefore, horiginal, rfl⟩
  · exact .inl ⟨Authorization.acceptedBy_eq_none hv hnames hinfo hcode hfit, u, hsu, h⟩
  right
  set applied : AppliedAuth := ⟨info.isSome || s.isTouched a, original.isEip7702, !code.isEmpty,
    decide (auth.address = 0)⟩ with happlied
  have hreports : Reports db s a auth applied := by
    refine ⟨?_, ?_, rfl, info, code, hinfo, hcode, hfit.1, rfl⟩
    · simp only [happlied, State.existed, hinfo]
    · simp only [happlied, State.delegatedBefore, hbefore, horiginal]
  refine ⟨a, applied, Authorization.acceptedBy_eq_some hv hnames hinfo hcode hfit, hreports, ?_⟩
  obtain ⟨ran, ⟨u', c₁⟩, hran, h⟩ := Op.run_bind_eq_ok h
  obtain ⟨rfl, ⟨rfl, reason, hacc⟩ | ⟨rfl, hacc⟩⟩ := AuthAccounting.runsOut_ok hran
  · -- the accounting stops the list
    cases h
    exact .inl ⟨rfl, hsu, reason, hacc⟩
  · obtain ⟨_, ⟨w, cw⟩, hrun, hrest⟩ := Op.run_bind_eq_ok h
    obtain ⟨hset, rfl⟩ := besideAccounting_ok hrun
    have hnonce : infoNonce info ≠ BitVec.allOnes 64 := hfit.2 ▸ auth.nonce_of_names hnames
    have hinfo' : u'.info db a = .ok info := (hsu.info a).trans hinfo
    obtain ⟨hsound, hdata, hcodes, hself, htouched, hother⟩ :=
      setDelegation_ok hdb hsu.sound hinfo' hnonce hset
    have hdel : Delegates db s w a auth.address :=
      ⟨hsound, hsu.data.trans hdata, hsu.codes.trans hcodes, ⟨info, hinfo, hnonce, hself⟩,
        htouched, fun b hb => ⟨(hother b hb).1.trans (hsu.info b),
          (hother b hb).2.trans (hsu.touched b)⟩⟩
    exact .inr ⟨cw, w, hacc, hdel, hv.delegate hdel ⟨info, code, hinfo, hcode⟩, hrest⟩

/-- An accounting that also writes down what it is told, oldest first. -/
def AuthAccounting.logged (A : AuthAccounting σ) :
    AuthAccounting (σ × List (Option Address)) where
  rejected c := (A.rejected c.1, c.2 ++ [none])
  accepted a applied :=
    ⟨fun c => (((A.accepted a applied).run c.1).1,
      (((A.accepted a applied).run c.1).2, c.2 ++ [some a]))⟩

/-- **The loop accepts what the rule accepts**, up to the entry that cannot be paid for. -/
theorem applyAuthList_logged (hdb : db.Coherent) (hs : s.Sound db) (hv : s.Follows db v)
    {log log' : List (Option Address)}
    (h : (applyAuthList db A.logged chainId auths).run (s, (c, log)) = (.ok oog, (t, (c', log')))) :
    ∃ told, log' = log ++ told ∧ told <+: verdicts chainId v auths ∧
      (oog = false → told = verdicts chainId v auths) := by
  induction auths generalizing s v c log with
  | nil =>
    refine ⟨[], ?_, List.nil_prefix, fun _ => rfl⟩
    cases h
    exact (List.append_nil _).symm
  | cons auth auths ih =>
    rcases applyAuthList_cons_ok hdb hs hv h with ⟨hnone, u, hsu, h⟩ |
      ⟨a, applied, hsome, -, ⟨rfl, -, reason, hacc⟩ | ⟨⟨c₁, log₁⟩, u, hacc, hdel, hu, h⟩⟩
    · obtain ⟨told, hlog, hpre, hall⟩ := ih hsu.sound (hv.sameStanding hsu) h
      refine ⟨none :: told, by rw [hlog, List.append_assoc]; rfl, ?_, fun ho => ?_⟩
      · rw [verdicts_none hnone]
        exact (List.prefix_cons_inj none).mpr hpre
      · rw [verdicts_none hnone, hall ho]
    · refine ⟨[some a], congrArg (fun r => r.2.2) hacc.symm, ?_, fun ho => by cases ho⟩
      rw [verdicts_some hsome]
      exact (List.prefix_cons_inj (some a)).mpr List.nil_prefix
    · obtain rfl : log ++ [some a] = log₁ := congrArg (fun r => r.2.2) hacc
      obtain ⟨told, hlog, hpre, hall⟩ := ih hdel.sound hu h
      refine ⟨some a :: told, by rw [hlog, List.append_assoc]; rfl, ?_, fun ho => ?_⟩
      · rw [verdicts_some hsome]
        exact (List.prefix_cons_inj (some a)).mpr hpre
      · rw [verdicts_some hsome, hall ho]

def delegationsOf (a : Address) (entries : List (Address × Address)) : List Address :=
  (entries.filter fun e => e.1 = a).map Prod.snd

omit [Keccak] in
theorem delegationsOf_cons_self (a d : Address) (entries : List (Address × Address)) :
    delegationsOf a ((a, d) :: entries) = d :: delegationsOf a entries := by
  simp [delegationsOf]

omit [Keccak] in
theorem delegationsOf_cons_other {a b : Address} (h : b ≠ a) (d : Address)
    (entries : List (Address × Address)) :
    delegationsOf b ((a, d) :: entries) = delegationsOf b entries := by
  simp [delegationsOf, Ne.symm h]

variable (db) in
/-- What entries of `a` to the addresses `ds` leave: the nonce has grown by their number, and the
code is the delegation of the last one. -/
structure Leaves (s t : State) (a : Address) (ds : List Address) : Prop where
  none : ds = [] → t.info db a = s.info db a
  last : ∀ d ∈ ds.getLast?, ∃ before after, s.info db a = .ok before ∧
    t.info db a = .ok (some after) ∧
    after.nonce.toNat = (infoNonce before).toNat + ds.length ∧
    after.codeHash = (delegationCode d).hashSlow ∧ after.code = some (delegationCode d)

theorem Leaves.cons {u : State} {a d : Address} {ds : List Address}
    (hd : Delegates db s u a d) (h : Leaves db u t a ds) : Leaves db s t a (d :: ds) := by
  obtain ⟨before, hbefore, hnonce, hu⟩ := hd.info
  refine ⟨nofun, fun e he => ?_⟩
  have hsucc : (infoNonce before + 1).toNat = (infoNonce before).toNat + 1 := by
    have hne : (infoNonce before).toNat ≠ 2 ^ 64 - 1 := by
      intro hmax
      exact hnonce (BitVec.eq_of_toNat_eq (hmax.trans (BitVec.toNat_allOnes).symm))
    have := (infoNonce before).isLt
    rw [BitVec.toNat_add]
    change ((infoNonce before).toNat + 1) % 2 ^ 64 = _
    omega
  cases hds : ds with
  | nil =>
    subst hds
    obtain rfl : d = e := by simpa using he
    refine ⟨before, delegatedInfo before d, hbefore, (h.none rfl).trans hu, ?_, rfl, rfl⟩
    exact hsucc
  | cons d' ds' =>
    rw [hds, List.getLast?_cons_cons, ← hds] at he
    obtain ⟨before', after, hb', ha, hn, hcode⟩ := h.last e he
    obtain rfl : before' = some (delegatedInfo before d) := Except.ok.inj (hb'.symm.trans hu)
    refine ⟨before, after, hbefore, ha, ?_, hcode⟩
    rw [hn, ← hds, List.length_cons]
    change (infoNonce before + 1).toNat + ds.length = _
    rw [hsucc]
    omega

theorem applyAuthList_info (hdb : db.Coherent) (hs : s.Sound db) (hv : s.Follows db v)
    (h : (applyAuthList db A chainId auths).run (s, c) = (.ok false, (t, c'))) (b : Address) :
    Leaves db s t b (delegationsOf b (acceptedEntries chainId v auths)) := by
  induction auths generalizing s v c with
  | nil =>
    cases h
    exact ⟨fun _ => rfl, fun d hd => by cases hd⟩
  | cons auth auths ih =>
    rcases applyAuthList_cons_ok hdb hs hv h with ⟨hnone, u, hsu, h⟩ |
      ⟨a, applied, hsome, -, ⟨hoog, -⟩ | ⟨c₁, u, hacc, hdel, hu, h⟩⟩
    · have hrest := ih hsu.sound (hv.sameStanding hsu) h
      rw [acceptedEntries_none hnone]
      refine ⟨fun hds => (hrest.none hds).trans (hsu.info b), fun d hd => ?_⟩
      rw [← hsu.info b]
      exact hrest.last d hd
    · cases hoog
    · have hrest := ih hdel.sound hu h
      rw [acceptedEntries_some hsome]
      by_cases hb : b = a
      · subst hb
        rw [delegationsOf_cons_self]
        exact .cons hdel hrest
      · rw [delegationsOf_cons_other hb]
        have hother := (hdel.other b hb).1
        refine ⟨fun hds => (hrest.none hds).trans hother, fun d hd => ?_⟩
        rw [← hother]
        exact hrest.last d hd

end Loop

end Evm2
