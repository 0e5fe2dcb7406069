import Evm2.Evm.Payments
import Evm2.Evm.Static

/-!
# What executing a message can do

* **`State.Runs.lives`**: what all edits of accounts respect, runs with rollbacks respect;
* **`message_lawful`**, **`failed_message_undone`**, **`message_conserves_ether`**: what follows for
  every message.
-/

namespace Evm2

/-! ## Accounts along runs -/

/-- What a state says about an account: its info, and whether it is marked. -/
structure Life where
  info : Option AccountInfo
  created : Bool
  destroyed : Bool

def Account.life (x : Account) : Life := ⟨x.present, x.flags.created, x.flags.destroyed⟩

theorem AccountExtends.life {pw : PrewarmSet} {k : Bool} {a : Address} {x x' : Account}
    (h : AccountExtends pw k a x x') : x'.life = x.life := by
  unfold Account.life
  rw [h.present]
  rcases h.flags with hf | ⟨-, -, hf⟩
  · rw [hf]
  · rw [hf]

namespace State

variable [Keccak] {db : Database} {P : Permit} {k : Bool} {s t : State} {a b : Address}
  {x : Account} {R : Life → Life → Prop} {l : Life}

variable (db) in
def life (s : State) (a : Address) : Except DatabaseError Life :=
  match s.accounts.lookup a with
  | some x => .ok x.life
  | none => (s.cache.info db a).map fun info => ⟨info, false, false⟩

theorem life_some (h : s.accounts.lookup a = some x) : s.life db a = .ok x.life := by
  rw [life, h]

theorem life_none (h : s.accounts.lookup a = none) :
    s.life db a = (s.cache.info db a).map fun info => ⟨info, false, false⟩ := by
  rw [life, h]

theorem life_setAccount :
    (s.setAccount a x).life db b = if b = a then .ok x.life else s.life db b := by
  unfold life setAccount
  rw [Map.lookup_set]
  by_cases hb : b = a
  · rw [if_pos hb, if_pos hb]
  · rw [if_neg hb, if_neg hb]

theorem life_withCache {c : Cache} (hc : Cache.SameData db s.cache c) :
    (s.withCache c).life db b = s.life db b := by
  unfold life withCache
  dsimp only
  rw [hc.info b]

theorem life_setAccount_self (h : s.life db a = .ok x.life) :
    (s.setAccount a x).life db b = s.life db b := by
  rw [life_setAccount]
  split_ifs with hb
  · rw [hb, h]
  · rfl

theorem Step.lives [Std.Refl R] [IsTrans Life R]
    (hP : ∀ a x x', P.edit a x x' → R x.life x'.life) (hs : s.Sound db) (h : Step db P s t)
    (hl : s.life db b = .ok l) : ∃ l', t.life db b = .ok l' ∧ R l l' := by
  have hsame : t.life db b = s.life db b → ∃ l', t.life db b = .ok l' ∧ R l l' :=
    fun heq => ⟨l, heq.trans hl, refl l⟩
  cases h with
  | readAccount a => exact hsame (life_withCache (Cache.sameData_getAccount s.cache a))
  | readCode h => exact hsame (life_withCache (Cache.sameData_getCodeByHash s.cache h))
  | readBlockHash n => exact hsame (life_withCache (Cache.sameData_getBlockHash s.cache n))
  | readStorage a key x hx =>
    exact hsame (life_withCache (Cache.sameData_getStorage (hs a x hx) key))
  | load a info hv hk =>
    refine hsame (life_setAccount_self ?_)
    rw [life_none hv, Cache.Knows.info hk]
    rfl
  | mutate a x x' hx ho hst hf he =>
    have hR : R x.life x'.life := by
      clear ho hst hf hsame
      induction he with
      | refl => exact refl _
      | tail _ hstep ih => exact IsTrans.trans _ _ _ ih (hP a _ _ hstep)
    change ∃ l', (s.setAccount a x').life db b = .ok l' ∧ R l l'
    rw [life_setAccount]
    split_ifs with hb
    · rw [hb, life_some hx] at hl
      cases hl
      exact ⟨_, rfl, hR⟩
    · exact ⟨l, hl, refl l⟩
  | loadSlot a x key value hx _ _ | warmSlot a x key slot hx _ _
  | writeSlot a x key value slot hx _ _ =>
    exact hsame (life_setAccount_self (by rw [life_some hx]; rfl))
  | tstore a key value hw =>
    refine hsame ?_
    unfold State.tstore
    split <;> split_ifs <;> rfl
  | log l hw => exact hsame rfl

theorem Runs.rollback_life (h : Runs db P k s t) (hs : s.Sound db) (hnz : s.TransientNonzero)
    {features : EvmFeatures} (hk : features.contains .eip161 = true → k = true) :
    (t.rollback s.checkpoint features).life db a = s.life db a := by
  have hext := h.rollback_extends hnz hk
  cases hx : s.accounts.lookup a with
  | some x =>
    obtain ⟨x', hx', hxx⟩ := hext.kept a x hx
    rw [life_some hx, life_some hx', hxx.life]
  | none =>
    have hinfo := h.rollback_info hs hnz hk a
    rw [info_none hx] at hinfo
    rw [life_none hx, ← hinfo]
    cases hx' : (t.rollback s.checkpoint features).accounts.lookup a with
    | some x' =>
      -- loaded meanwhile, and not marked since
      have hxx := hext.fresh a x' hx hx'
      rw [life_some hx', hxx.life, info_some hx', hxx.present]
      rfl
    | none => rw [life_none hx', info_none hx']

/-- **What all edits of accounts respect, runs with rollbacks respect.** -/
theorem Runs.lives [Std.Refl R] [IsTrans Life R]
    (hP : ∀ a x x', P.edit a x x' → R x.life x'.life) (h : Runs db P k s t) (hs : s.Sound db)
    (hnz : s.TransientNonzero) (hl : s.life db b = .ok l) :
    ∃ l', t.life db b = .ok l' ∧ R l l' := by
  induction h with
  | refl => exact ⟨l, hl, Std.Refl.refl l⟩
  | step hr hst ih =>
    obtain ⟨l₁, hl₁, hR⟩ := ih hs hnz hl
    obtain ⟨l₂, hl₂, hR'⟩ := hst.lives hP (hr.sound hs).1 hl₁
    exact ⟨l₂, hl₂, IsTrans.trans _ _ _ hR hR'⟩
  | rollback features hk hout hin ih _ =>
    rw [hin.rollback_life (hout.sound hs).1 (hout.journals hnz).nonzero hk]
    exact ih hs hnz hl

/-! ## Rolled back states -/

variable (db k) in
/-- State `t` is `s` with more loaded; under EIP-161 (`k`) precompile 3 may stay touched. -/
structure Undone (s t : State) : Prop where
  logs : t.logs = s.logs
  journal : t.journal = s.journal
  core : CoreExtends s.prewarmSet k s.core t.core
  life : ∀ a, t.life db a = s.life db a

theorem Undone.refl (s : State) : Undone db k s s := ⟨rfl, rfl, .refl _, fun _ => rfl⟩

theorem Runs.undone (h : Runs db P k s t) (hs : s.Sound db) (hnz : s.TransientNonzero)
    {features : EvmFeatures} (hk : features.contains .eip161 = true → k = true) :
    Undone db k s (t.rollback s.checkpoint features) := by
  obtain ⟨hlogs, hjournal, hcore⟩ := (h.journals hnz).rollback hk
  exact ⟨hlogs, hjournal, hcore, fun _ => h.rollback_life hs hnz hk⟩

theorem Loads.undone (h : Loads db a s x t) : Undone db k s t := by
  cases h with
  | here => exact .refl s
  | @fetch info c hv hr =>
    refine ⟨rfl, rfl, extends_setAccount info hv, fun b => ?_⟩
    have hread : Cache.SameData db s.cache _ := Cache.sameData_getAccount s.cache a
    rw [hr] at hread
    refine (life_setAccount_self ?_).trans (life_withCache hread)
    have hinfo : c.info db a = .ok info := Cache.Knows.info (Cache.getAccount_settled db hr)
    show (s.withCache c).life db a = _
    rw [life_none (s := s.withCache c) hv]
    exact congrArg (Except.map _) hinfo

theorem account_undone {f : AccountHandle → Bool × AccountHandle}
    (hf : ∀ h, (f h).1 = false → (f h).2 = h) (h : (account db a f).run s = (.ok false, t)) :
    Undone db k s t := by
  obtain ⟨x, u, hx, hr, rfl⟩ := account_ok db h
  rw [hf _ hr.symm]
  have heq : u.dropHandle ⟨a, x, u.inner, none⟩ = u := by
    simp only [dropHandle, Map.set_eq_self hx.lookup]
  rw [heq]
  exact hx.undone

theorem transfer_undone {src dst : Address} {value : Word}
    (h : (transfer db src dst value).run s = (.ok false, t)) : Undone db k s t := by
  unfold transfer at h
  split_ifs at h
  · obtain ⟨_, _, _, h⟩ := Op.run_bind_eq_ok h
    cases h
  · refine account_undone (fun hd => ?_) h
    split_ifs <;> simp
  · obtain ⟨paid, u, hu, h⟩ := Op.run_bind_eq_ok h
    cases paid with
    | false =>
      cases h
      refine account_undone (fun hd => ?_) hu
      split_ifs <;> simp
    | true =>
      obtain ⟨_, _, _, hr, _⟩ := account_ok db h
      cases hr

end State

/-! ## What messages do to accounts -/

section Messages

def nonceOf (info : Option AccountInfo) : ℕ := info.elim 0 fun i => i.nonce.toNat

def codeHashOf (info : Option AccountInfo) : B256 := info.elim KECCAK256_EMPTY AccountInfo.codeHash

variable [Keccak] {evm : Evm}

/-- What the frames of an EVM may do to an account: the nonce never goes down; the code changes only
if the account has been created, to code that a creation may deploy; and with EIP-6780 only what has
been created is destroyed. -/
structure Lawful (evm : Evm) (l l' : Life) : Prop where
  nonce : nonceOf l.info ≤ nonceOf l'.info
  created : l.created = true → l'.created = true
  code : codeHashOf l'.info = codeHashOf l.info ∨ l'.created = true ∧
    ∃ code, evm.Deployable code ∧ codeHashOf l'.info = code.hashSlow
  destroyed : l'.destroyed = true → l.destroyed = true ∨
    (evm.feature .eip6780 = true → l'.created = true)

instance : Std.Refl (Lawful evm) := ⟨fun _ => ⟨le_rfl, id, .inl rfl, .inl⟩⟩

instance : IsTrans Life (Lawful evm) where
  trans _ _ _ h h' := by
    refine ⟨h.nonce.trans h'.nonce, h'.created ∘ h.created, ?_, fun hd => ?_⟩
    · rcases h'.code with heq | hnew
      · rw [heq]
        exact h.code.imp_right fun ⟨hc, hnew⟩ => ⟨h'.created hc, hnew⟩
      · exact .inr hnew
    · rcases h'.destroyed hd with hd | hc
      · exact (h.destroyed hd).imp_right fun hc h6780 => h'.created (hc h6780)
      · exact .inr hc

def Permit.lawful (evm : Evm) : Permit where
  edit _ x x' := Lawful evm x.life x'.life
  write := True
  log := True

theorem Lawful.of_info {x x' : Account} (hn : nonceOf x.present ≤ nonceOf x'.present)
    (hc : codeHashOf x'.present = codeHashOf x.present) (hf : x'.flags = x.flags) :
    Lawful evm x.life x'.life := by
  refine ⟨hn, ?_, .inl hc, ?_⟩
  · simp [Account.life, hf]
  · simp +contextual [Account.life, hf]

omit [Keccak] in
theorem nonce_le_add_one {n : U64} (h : n ≠ BitVec.allOnes 64) : n.toNat ≤ (n + 1).toNat := by
  have hlt := n.isLt
  have hne : n.toNat ≠ 2 ^ 64 - 1 := fun heq => h (BitVec.eq_of_toNat_eq (by simpa using heq))
  rw [BitVec.toNat_add, show (1 : U64).toNat = 1 from rfl]
  omega

instance : (Permit.lawful evm).Touches := ⟨fun _ _ => ⟨le_rfl, id, .inl rfl, .inl⟩⟩

instance : (Permit.lawful evm).Warms := ⟨fun _ _ => ⟨le_rfl, id, .inl rfl, .inl⟩⟩

instance : (Permit.lawful evm).SetsBalance where
  setBalance _ x _ := by
    cases hp : x.present with
    | none => exact .of_info (by rw [hp]; exact Nat.zero_le _) (by rw [hp]; rfl) rfl
    | some info => exact .of_info (by rw [hp]; exact le_rfl) (by rw [hp]; rfl) rfl

instance : (Permit.lawful evm).BumpsNonce where
  bumpNonce _ x hx := by
    cases hp : x.present with
    | none => exact .of_info (by rw [hp]; exact Nat.zero_le _) (by rw [hp]; rfl) rfl
    | some info =>
      rw [hp] at hx
      exact .of_info (by rw [hp]; exact nonce_le_add_one hx) (by rw [hp]; rfl) rfl

instance : (Permit.lawful evm).Creates where
  create _ x _ _ hv := by
    obtain ⟨hnonce, hcode⟩ : nonceOf x.present = 0 ∧ codeHashOf x.present = KECCAK256_EMPTY := by
      unfold Account.isVacant at hv
      cases hp : x.present with
      | none => exact ⟨rfl, rfl⟩
      | some info =>
        rw [hp] at hv
        simp only [Option.elim_some, AccountInfo.isEmptyCodeHash, Bool.and_eq_true,
          beq_iff_eq] at hv
        exact ⟨congrArg BitVec.toNat hv.1, hv.2⟩
    exact ⟨hnonce.trans_le (Nat.zero_le _), fun _ => rfl, .inl hcode.symm, .inl⟩

instance : (Permit.lawful evm).Deploys evm.Deployable where
  deploy _ x code hc _ hC := by
    refine ⟨?_, id, .inr ⟨hc, code, hC, rfl⟩, .inl⟩
    cases hp : x.present <;> simp [Account.life, hp, nonceOf]

instance : (Permit.lawful evm).Destroys evm.version.features :=
  ⟨fun _ _ hd => ⟨le_rfl, id, .inl rfl, fun _ => .inr hd⟩⟩

theorem Evm.permits_lawful (hpre : evm.precompiles.Stateless) :
    evm.Permits (.lawful evm) fun _ => True where
  touches := inferInstance
  warms := inferInstance
  sends _ _ _ _ := trivial
  input _ _ := trivial
  transfers _ _ _ _ _ := ⟨inferInstance, trivial⟩
  creates _ _ _ := ⟨inferInstance, trivial, inferInstance, inferInstance, inferInstance⟩
  writes _ _ _ := ⟨inferInstance, trivial, trivial, inferInstance⟩
  precompile m _ gs := by
    dsimp only
    rw [hpre m gs]
    exact .refl _

/-- **What a message does to an account is lawful**, however the message ends. -/
theorem message_lawful (hpre : evm.precompiles.Stateless) {s : State}
    (hs : s.Reached evm.db .any) (fuel : ℕ) (m : Message) {a : Address} {l : Life}
    (hl : s.life evm.db a = .ok l) :
    ∃ l', ((evm.executeMessage fuel m).run (.ofState s)).2.state.life evm.db a = .ok l' ∧
      Lawful evm l l' := by
  have hruns := Evm.executeMessage_moves (m := m) (Evm.permits_lawful hpre) fuel trivial
    (.ofState s) hs.nonzero
  exact hruns.lives (fun _ _ _ h => h) hs.sound hs.nonzero hl

/-! ## Failed messages -/

namespace Evm

variable {P : Permit} {Good : Message → Prop} {m : Message} {w w' : World} {result : MessageResult}
  {run : Message → Op World ExecutionError FrameResult}

theorem callTransfer_undone (h : (evm.callTransfer m).run w = (.ok false, w')) :
    State.Undone evm.db (evm.feature .eip161) w.state w'.state := by
  unfold callTransfer at h
  split_ifs at h
  · obtain ⟨covered, w₁, h₁, h⟩ := Op.run_bind_eq_ok h
    obtain ⟨_, w₂, h₂, h⟩ := Op.run_bind_eq_ok h
    cases h
    cases h₂
    exact State.transfer_undone (World.noting_ok h₁).1
  · cases h

theorem executeCallMessage_fails (h : evm.Permits P Good) (hm : Good m)
    (hrun : Op.Moves (World.Runs evm P) (run m)) (hs : w.state.Sound evm.db)
    (hnz : w.state.TransientNonzero)
    (hcall : (evm.executeCallMessage run m).run w = (.ok result, w'))
    (hfail : result.isSuccess = false) :
    State.Undone evm.db (evm.feature .eip161) w.state w'.state := by
  unfold executeCallMessage at hcall
  by_cases hd : evm.version.maxCallDepth < m.depth
  · rw [if_pos hd] at hcall
    cases hcall
    exact .refl _
  rw [if_neg hd, Op.run_bind_ok (Op.run_total _ _)] at hcall
  obtain ⟨covered, w₁, h₁, hcall⟩ := Op.run_bind_eq_ok hcall
  cases covered with
  | false =>
    cases hcall
    exact callTransfer_undone h₁
  | true =>
  -- what follows a transfer that was paid is rolled back
  have hback : ∀ u, World.Runs evm P w u →
      State.Undone evm.db (evm.feature .eip161) w.state (u.rollback evm w.checkpoint).state :=
    fun u hu => (hu hnz).undone hs hnz id
  have hw₁ : World.Runs evm P w w₁ := by
    have := moves_callTransfer h hm w
    rwa [h₁] at this
  simp only [Bool.not_true, Bool.false_eq_true, if_false] at hcall
  split_ifs at hcall with hp he
  · obtain ⟨r, w₂, h₂, hcall⟩ := Op.run_bind_eq_ok hcall
    have hw₂ := moves_executePrecompile h hm w₁
    rw [h₂] at hw₂
    dsimp only at hcall
    cases hstop : precompileStop m.gasLimit r.2.remaining r.1 with
    | error e =>
      rw [hstop] at hcall
      cases hcall
    | ok stop =>
      rw [hstop] at hcall
      obtain ⟨_, w₃, h₃, hcall⟩ := Op.run_bind_eq_ok hcall
      cases hcall
      rw [if_neg (by simpa [MessageResult.isSuccess] using hfail)] at h₃
      cases h₃
      exact hback w₂ (IsTrans.trans _ _ _ hw₁ hw₂)
  · cases hcall
    cases hfail
  · obtain ⟨frame, w₂, h₂, hcall⟩ := Op.run_bind_eq_ok hcall
    obtain ⟨_, w₃, h₃, hcall⟩ := Op.run_bind_eq_ok hcall
    cases hcall
    have hw₂ := hrun w₁
    rw [h₂] at hw₂
    rw [if_neg (by simpa [MessageResult.isSuccess] using hfail)] at h₃
    cases h₃
    exact hback w₂ (IsTrans.trans _ _ _ hw₁ hw₂)

theorem executeCreateMessage_fails (h : evm.Permits P Good) (hm : Good m)
    (hk : m.kind.isCreate = true) (hrun : Op.Moves (World.Runs evm P) (run { m with input := [] }))
    (hs : w.state.Sound evm.db) (hnz : w.state.TransientNonzero)
    (hcreate : (evm.executeCreateMessage run m).run w = (.ok result, w'))
    (hfail : result.isSuccess = false) :
    ∃ p u, (evm.prepareCreateMessage m).run w = (.ok p, u) ∧
      State.Undone evm.db (evm.feature .eip161) u.state w'.state := by
  obtain ⟨p, u, hp, hcreate⟩ := Op.run_bind_eq_ok hcreate
  refine ⟨p, u, hp, ?_⟩
  cases p with
  | error reason =>
    cases hcreate
    exact .refl _
  | ok =>
  have hu : World.Runs evm P w u := by
    have := moves_prepareCreateMessage h hm hk w
    rwa [hp] at this
  have hback : ∀ v, World.Runs evm P u v →
      State.Undone evm.db (evm.feature .eip161) u.state (v.rollback evm u.checkpoint).state :=
    fun v hv => (hv ((hu hnz).journals hnz).nonzero).undone ((hu hnz).sound hs).1
      ((hu hnz).journals hnz).nonzero id
  dsimp only at hcreate
  rw [Op.run_bind_ok (Op.run_total _ _)] at hcreate
  obtain ⟨created, w₁, h₁, hcreate⟩ := Op.run_bind_eq_ok hcreate
  have hw₁ := moves_createMessageAccount h hm hk u
  rw [Op.run_onError_eq_ok h₁] at hw₁
  cases created with
  | error reason =>
    cases hcreate
    exact hback w₁ hw₁
  | ok =>
  obtain ⟨frame, w₂, h₂, hcreate⟩ := Op.run_bind_eq_ok hcreate
  have hframe : Op.Moves (World.Runs evm P) (if m.code.isEmpty then
      pure ⟨.stop, .newWithExecutionGasAndReservoir m.gasLimit m.reservoir, []⟩
      else run { m with input := [] }) := .ite (.ret _) hrun
  have hw₂ := hframe w₁
  rw [h₂] at hw₂
  unfold finishCreateMessageRun at hcreate
  split_ifs at hcreate with hok
  · split at hcreate
    · cases hcreate
      exact hback w₂ (IsTrans.trans _ _ _ hw₁ hw₂)
    · -- the code is deployed
      obtain ⟨_, _, _, hcreate⟩ := Op.run_bind_eq_ok hcreate
      cases hcreate
      exact absurd hok (by simpa [MessageResult.isSuccess] using hfail)
  · cases hcreate
    exact hback w₂ (IsTrans.trans _ _ _ hw₁ hw₂)

end Evm

/-- **A failed message leaves nothing behind.** However a message fails, afterwards the state is as
before, with more loaded; and if a creation fails after its preparation, which warms the new account
and bumps the nonce of the creator, the state is as after the preparation. -/
theorem failed_message_undone (hpre : evm.precompiles.Stateless) {s : State}
    (hs : s.Reached evm.db .any) (fuel : ℕ) (m : Message)
    {r : Except ExecutionError MessageResult} {w' : World}
    (h : (evm.executeMessage fuel m).run (.ofState s) = (r, w'))
    (hfail : ∀ result, r = .ok result → result.isSuccess = false) :
    State.Undone evm.db (evm.feature .eip161) s w'.state ∨
      m.kind.isCreate = true ∧ ∃ p u, (evm.prepareCreateMessage m).run (.ofState s) = (.ok p, u) ∧
        State.Undone evm.db (evm.feature .eip161) u.state w'.state := by
  have hP := Evm.permits_lawful hpre
  cases r with
  | error e =>
    refine .inl ?_
    rcases Evm.executeMessage_error hP trivial h with rfl | ⟨u, hu, rfl⟩
    · exact .refl _
    · exact (hu hs.nonzero).undone hs.sound hs.nonzero id
  | ok result =>
  cases fuel with
  | zero => cases h
  | succ fuel =>
  have hrun : ∀ m, Op.Moves (World.Runs evm (.lawful evm))
      (evm.runInterpreter (evm.executeMessage fuel) fuel m) := fun m =>
    Evm.moves_runInterpreter hP (fun _ _ => Evm.executeMessage_moves hP fuel trivial) trivial fuel
  unfold Evm.executeMessage Evm.hostExecuteMessage at h
  rw [Op.run_bind_ok (Op.run_total _ _)] at h
  obtain ⟨result', u, hu, h⟩ := Op.run_bind_eq_ok (Op.run_onError_eq_ok h)
  cases h
  have hfail' := hfail _ rfl
  by_cases hk : m.kind.isCreate = true
  · rw [if_pos hk] at hu
    exact .inr ⟨hk, Evm.executeCreateMessage_fails hP trivial hk (hrun _) hs.sound hs.nonzero hu
      hfail'⟩
  · rw [if_neg hk] at hu
    exact .inl (Evm.executeCallMessage_fails hP trivial (hrun _) hs.sound hs.nonzero hu hfail')

/-! ## Ether -/

/-- **A message creates no ether.** The balances sum up to what they were before, minus what contracts
have burned by destroying themselves in their own favour; with EIP-8246 that is nothing. -/
theorem message_conserves_ether (hpre : evm.CalmPrecompiles) {s : State}
    (hs : s.Reached evm.db .any) (htotal : evm.total s < 2 ^ 256) (fuel : ℕ) (m : Message) :
    let w' := ((evm.executeMessage fuel m).run (.ofState s)).2
    evm.total w'.state + w'.burned = evm.total s ∧
      (evm.feature .eip8246 = true → w'.burned = 0) := by
  have hsane : evm.Sane (.ofState s) := ⟨hs.sound, hs.nonzero, htotal, rfl⟩
  have hany : evm.Permits .any fun _ => True :=
    Evm.permits_any fun m gs => (hpre m gs).mono Permit.le_any
  rcases hrun : (evm.executeMessage fuel m).run (.ofState s) with ⟨e | result, w'⟩
  · -- an error is rolled back
    have hbal := (Evm.executeMessage_error_same hany hsane hrun).1
    have hburned : w'.burned = 0 := by
      rcases Evm.executeMessage_error hany trivial hrun with rfl | ⟨u, -, rfl⟩ <;> rfl
    refine ⟨?_, fun _ => hburned⟩
    show ∑ a, w'.state.balance evm.db a + w'.burned = ∑ a, s.balance evm.db a
    rw [hbal, hburned]
    exact Nat.add_zero _
  · obtain ⟨-, -, ms, hms⟩ :=
      Evm.executeMessage_ensures (Evm.upholds_pays hpre) hany fuel trivial _ _ _ hsane hrun
    have hburned : w'.burned = Ledger.burned ms := hms.burned.trans (Nat.zero_add _)
    refine ⟨?_, fun h8246 => ?_⟩
    · rw [show (Except.ok result, w').2 = w' from rfl, hburned]
      exact hms.moves.sum
    · rw [show (Except.ok result, w').2 = w' from rfl, hburned]
      refine List.sum_eq_zero fun n hn => ?_
      obtain ⟨move, hmove, rfl⟩ := List.mem_map.mp hn
      have hdst := hms.eip8246 h8246 move hmove
      simp [Ledger.Move.burned, hdst]

end Messages

/-! ### On small inputs -/

theorem message_conserves_ether_call :
    letI := Keccak.const
    let w' := ((reporting.executeMessage 1 payingCall).run (.ofState .new)).2
    w'.state.balance reporting.db 2 = 3 ∧ reporting.total w'.state + w'.burned =
      reporting.total .new :=
  letI := Keccak.const
  ⟨by decide +kernel, (message_conserves_ether calm_reporting (reached_new _)
    (by rw [total_reporting]; decide) 1 payingCall).1⟩

def sparing [Keccak] : Evm :=
  { Evm.bare with version := { Evm.bare.version with features := .ofList [.eip6780] } }

def destroyingCreation : Message :=
  { Message.default with kind := .create, destination := 2, code := .legacy [0x5F#8, 0xFF#8] }

theorem message_lawful_creation :
    letI := Keccak.const
    let s' := ((sparing.executeMessage 3 destroyingCreation).run (.ofState .new)).2.state
    (s'.life .empty 2).map Life.destroyed = .ok true ∧
      ∃ l', s'.life .empty 2 = .ok l' ∧ Lawful sparing ⟨none, false, false⟩ l' :=
  ⟨by decide +kernel, @message_lawful Keccak.const (@sparing Keccak.const) (fun _ _ => rfl) _
    (@reached_new Keccak.const _) 3 destroyingCreation 2 _ rfl⟩

/-- A call to code that writes slot 0 and then halts. -/
def writingCall : Message :=
  { Message.default with
    destination := 2, callTarget := 2, code := .legacy [0x60#8, 0x01#8, 0x5F#8, 0x55#8, 0xFE#8] }

theorem failed_message_undone_call :
    letI := Keccak.const
    let r := (Evm.bare.executeMessage 5 writingCall).run (.ofState .new)
    r.1.map MessageResult.stop = .ok .invalidFEOpcode ∧
      (State.Undone Evm.bare.db false .new r.2.state ∨ writingCall.kind.isCreate = true ∧
        ∃ p u, (Evm.bare.prepareCreateMessage writingCall).run (.ofState .new) = (.ok p, u) ∧
          State.Undone Evm.bare.db false u.state r.2.state) :=
  ⟨by decide +kernel, @failed_message_undone Keccak.const (@Evm.bare Keccak.const) (fun _ _ => rfl)
    _ (@reached_new Keccak.const _) 5 writingCall _ _ rfl fun _ h => by cases h; rfl⟩

end Evm2
