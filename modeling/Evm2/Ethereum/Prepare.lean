import Evm2.Ethereum.AuthPrices
import Evm2.Ethereum.Handlers
import Evm2.Evm.Runs

/-!
# Preparing a transaction

What `prepare_with_hooks` leaves for the execution.
-/

namespace Evm2

/-! ## Validation -/

theorem Except.bind_eq_ok {ε α β : Type} {x : Except ε α} {f : α → Except ε β} {b : β}
    (h : (x >>= f) = .ok b) : ∃ a, x = .ok a ∧ f a = .ok b := by
  cases x with
  | error e => cases h
  | ok a => exact ⟨a, rfl, h⟩

theorem failIf_eq_ok {c : Bool} {e : HandlerError} {u : Unit} (h : failIf c e = .ok u) :
    c = false := by
  cases c with
  | true => cases h
  | false => rfl

namespace TxTerms

variable {version : Version} {block : BlockEnv} {caller : Address} {tx : TxTerms}

theorem intrinsicAndFloor_lt (version : Version) (caller : Address) (tx : TxTerms) :
    (tx.intrinsicAndFloor version caller).1 < 2 ^ 64 := by
  unfold intrinsicAndFloor
  cases tx.authorizations with
  | none => exact Nat.mod_lt _ (by decide)
  | some auths => exact wrapAdd64_lt _ _

theorem validateGas_ok (h : tx.validateGas version caller = .ok ()) :
    (tx.intrinsicAndFloor version caller).1 ≤ tx.gasLimit.toNat ∧
      (tx.intrinsicAndFloor version caller).2 ≤ tx.gasLimit.toNat := by
  have hlt := intrinsicAndFloor_lt version caller tx
  unfold validateGas at h
  rcases hg : tx.intrinsicAndFloor version caller with ⟨intrinsic, floorGas⟩
  rw [hg] at h hlt
  dsimp only at h hlt ⊢
  obtain ⟨_, hintrinsic, h⟩ := Except.bind_eq_ok h
  obtain ⟨_, hfloor, -⟩ := Except.bind_eq_ok h
  have hle := of_decide_eq_false (failIf_eq_ok hintrinsic)
  rw [initialStateGas, satAdd64_eq (by omega)] at hle
  have hle' := of_decide_eq_false (failIf_eq_ok hfloor)
  exact ⟨by omega, by omega⟩

theorem intrinsic_le (h : tx.validate version block caller = .ok ()) :
    (tx.intrinsicAndFloor version caller).1 ≤ tx.gasLimit.toNat := by
  obtain ⟨_, -, h⟩ := Except.bind_eq_ok h
  exact (validateGas_ok h).1

end TxTerms

theorem initialGasAndReservoir_add (version : Version) {gasLimit intrinsic : ℕ}
    (h : intrinsic ≤ gasLimit) :
    (initialGasAndReservoir version gasLimit intrinsic 0).1 +
      (initialGasAndReservoir version gasLimit intrinsic 0).2 + intrinsic = gasLimit := by
  unfold initialGasAndReservoir
  by_cases h8037 : version.feature .eip8037 = true
  · rw [if_pos h8037]
    simp only [Nat.zero_le, if_true]
    omega
  · rw [if_neg h8037]
    omega

/-! ## Accounts -/

def Permit.paying : Permit where
  edit _ x x' := x'.original = x.original ∧ codeKey x'.present = codeKey x.present
  write := False
  log := False

namespace Permit

theorem codeKey_getD (i : Option AccountInfo) (balance : Word) (nonce : U64) :
    codeKey (some { i.getD .default with balance := balance, nonce := nonce }) = codeKey i := by
  cases i <;> rfl

instance : Touches paying := ⟨fun _ _ => ⟨rfl, rfl⟩⟩
instance : Warms paying := ⟨fun _ _ => ⟨rfl, rfl⟩⟩
instance : SetsBalance paying := ⟨fun _ x b => ⟨rfl, codeKey_getD x.present b _⟩⟩
instance : BumpsNonce paying := ⟨fun _ x _ => ⟨rfl, codeKey_getD x.present _ _⟩⟩

end Permit

namespace State

variable [Keccak] {db : Database} {s t : State}

theorem AuthStart.step (h : s.AuthStart db) (hst : Step db .paying s t) : t.AuthStart db := by
  have hI : Invariant .paying fun _ x => codeKey x.present = codeKey x.original := by
    refine ⟨fun _ _ _ => rfl, ?_, ?_⟩
    · intro _ x x' ho hp _ hx
      rw [ho, hp, hx]
    · rintro _ x x' ⟨ho, hp⟩ hx
      rw [ho, hp, hx]
  exact ⟨(hst.sound h.sound).1, hI.step h.code hst⟩

theorem AuthStart.run (h : s.AuthStart db) (hrun : Run db .paying s t) : t.AuthStart db := by
  induction hrun with
  | refl => exact h
  | tail _ hst ih => exact ih.step hst

theorem AuthStart.congr (h : s.AuthStart db) (ha : t.accounts = s.accounts)
    (hc : t.cache = s.cache) : t.AuthStart db := by
  refine ⟨?_, ?_⟩
  · intro a x hx
    rw [ha] at hx
    rw [hc]
    exact h.sound a x hx
  · intro a x hx
    rw [ha] at hx
    exact h.code a x hx

end State

namespace TxHost

variable [Keccak] {host : TxHost} {P : Permit}

/-- Two states that only differ in what is prewarmed. -/
structure OnlyPrewarms (s t : State) : Prop where
  accounts : t.accounts = s.accounts
  transientStorage : t.transientStorage = s.transientStorage
  cache : t.cache = s.cache
  journal : t.journal = s.journal
  logs : t.logs = s.logs

omit [Keccak] in
theorem onlyPrewarms_warmBaseAccounts (host : TxHost) (recipient : TxKind) (s : State) :
    OnlyPrewarms s (host.warmBaseAccounts recipient s) := by
  unfold warmBaseAccounts
  cases recipient <;> split_ifs <;> exact ⟨rfl, rfl, rfl, rfl, rfl⟩

omit [Keccak] in
theorem onlyPrewarms_warmAccessList (accessList : AccessList) (s : State) :
    OnlyPrewarms s (warmAccessList accessList s) := by
  induction accessList generalizing s with
  | nil => exact ⟨rfl, rfl, rfl, rfl, rfl⟩
  | cons item accessList ih =>
    obtain ⟨h₁, h₂, h₃, h₄, h₅⟩ := ih (s.prewarmStorage item.1 item.2)
    exact ⟨h₁, h₂, h₃, h₄, h₅⟩

omit [Keccak] in
theorem onlyPrewarms_warm (host : TxHost) (recipient : TxKind) (accessList : AccessList)
    (s : State) :
    OnlyPrewarms s (warmAccessList accessList (host.warmBaseAccounts recipient s)) := by
  obtain ⟨h₁, h₂, h₃, h₄, h₅⟩ := onlyPrewarms_warmBaseAccounts host recipient s
  obtain ⟨k₁, k₂, k₃, k₄, k₅⟩ :=
    onlyPrewarms_warmAccessList accessList (host.warmBaseAccounts recipient s)
  exact ⟨k₁.trans h₁, k₂.trans h₂, k₃.trans h₃, k₄.trans h₄, k₅.trans h₅⟩

/-! ## The parts of a preparation -/

omit [Keccak] in
theorem mutates_senderSession [P.Touches] [P.Warms] [P.SetsBalance] [P.BumpsNonce] (nonce : U64)
    (maxUpfront : Word) :
    Op.Moves (AccountHandle.Mutates host.evm.db P) (host.senderSession nonce maxUpfront) := by
  have hcode : Op.Moves (AccountHandle.Mutates host.evm.db P)
      ((AccountHandle.loadCode host.evm.db).mapError LoadError.database) :=
    fun h => AccountHandle.mutates_loadCode h
  refine .bind .get fun h => .bind (.ite (.bind hcode fun _ => .ret _) (.ret _)) fun hasCode => ?_
  refine .ite (.ret _) (.ite (.ret _) (.ite (.ret _) ?_))
  refine .bind (.ite ?_ (.ret _)) fun _ => .bind ?_ fun _ => .bind ?_ fun _ => .ret _
  · exact .update fun h => AccountHandle.mutates_addBalance h _
  · exact AccountHandle.mutates_warm
  · exact AccountHandle.mutates_bumpNonce

theorem moves_validateSender [P.Touches] [P.Warms] [P.SetsBalance] [P.BumpsNonce]
    (host : TxHost) (caller : Address) (nonce : U64) (maxUpfront : Word) :
    Op.Moves (fun w w' : World => State.Run host.evm.db P w.state w'.state)
      (host.validateSenderAndBumpNonce caller nonce maxUpfront) := by
  intro w
  have hsession : Op.Moves (State.Run host.evm.db P) (State.accountWithSkip host.evm.db caller false
      (host.senderSession nonce maxUpfront)) :=
    State.moves_accountWithSkip host.evm.db false (mutates_senderSession nonce maxUpfront)
  refine Op.keeps_bind_at (Q := fun w' : World => State.Run host.evm.db P w.state w'.state)
    (hsession w.state) fun checked w' _ hw' => hw'

theorem moves_chargeUpfront [P.Touches] [P.SetsBalance] (host : TxHost) (caller : Address)
    (fee : Word) :
    Op.Moves (fun w w' : World => State.Run host.evm.db P w.state w'.state)
      (host.chargeUpfront caller fee) := by
  intro w
  unfold chargeUpfront
  split_ifs
  · exact State.moves_account host.evm.db (fun h => AccountHandle.mutates_setBalance h _) w.state
  · exact .refl

/-- **The parts of a preparation that succeeds**: the checks, the account of the sender, what is
prewarmed, and the charge. -/
theorem prepare_ok {caller : Address} {tx : TxTerms} {w w' : World} {prepared : PreparedTx}
    (h : (host.prepare caller tx).run w = (.ok prepared, w')) :
    tx.validate host.evm.version host.evm.block caller = .ok () ∧
    ∃ u, (host.validateSenderAndBumpNonce caller tx.nonce tx.maxUpfront).run w =
        (.ok prepared.senderNonce, u) ∧
      (host.chargeUpfront caller (tx.upfrontFee host.evm.block)).run { u with
          state := warmAccessList tx.accessList (host.warmBaseAccounts tx.recipient u.state) } =
        (.ok (), w') ∧
      prepared = ⟨caller, tx.gasPrice host.evm.block,
        (tx.intrinsicAndFloor host.evm.version caller).1, 0,
        (tx.intrinsicAndFloor host.evm.version caller).2, prepared.senderNonce⟩ := by
  obtain ⟨_, w₀, hrun, h⟩ := Op.run_bind_eq_ok h
  obtain ⟨hvalid, rfl⟩ := Prod.mk.inj hrun
  obtain ⟨senderNonce, u, hsender, h⟩ := Op.run_bind_eq_ok h
  obtain ⟨_, u', hwarm, h⟩ := Op.run_bind_eq_ok h
  obtain rfl := (Prod.mk.inj hwarm).2
  obtain ⟨_, w₃, hcharge, h⟩ := Op.run_bind_eq_ok h
  cases h
  exact ⟨hvalid, u, hsender, hcharge, rfl⟩

/-- **The authorization phase may start** after a preparation of a fresh overlay. -/
theorem authStart_prepare {caller : Address} {tx : TxTerms} {w w' : World} {prepared : PreparedTx}
    (hw : w.state.accounts = ∅) (h : (host.prepare caller tx).run w = (.ok prepared, w')) :
    w'.state.AuthStart host.evm.db := by
  obtain ⟨-, u, hsender, hcharge, -⟩ := prepare_ok h
  have hrun : State.Run host.evm.db .paying w.state u.state := by
    have := moves_validateSender (P := .paying) host caller tx.nonce tx.maxUpfront w
    rwa [hsender] at this
  have hwarm := onlyPrewarms_warm host tx.recipient tx.accessList u.state
  have hrun' := moves_chargeUpfront (P := .paying) host caller
    (tx.upfrontFee host.evm.block) { u with
      state := warmAccessList tx.accessList (host.warmBaseAccounts tx.recipient u.state) }
  rw [hcharge] at hrun'
  have hu : u.state.AuthStart host.evm.db := (State.authStart_of_empty hw).run hrun
  exact (hu.congr hwarm.accounts hwarm.cache).run hrun'

end TxHost

end Evm2
