import Evm2.Evm.Payments
import Evm2.State.Silent

/-!
# Static calls

No instruction checks centrally that a frame is static: each state-changing instruction looks at
the flag, and the flag of a child is derived from the call and its parent. Together this makes every
execution of a static call a silent run.
-/

namespace Evm2

/-- A static call as frames send it: no creation, and no value is moved. -/
structure Message.Static (m : Message) : Prop where
  isStatic : m.isStatic = true
  notCreate : m.kind.isCreate = false
  value : m.kind = .call ∨ m.kind = .staticCall → m.value = 0
  callCode : m.kind = .callCode → m.caller = m.destination

def Precompiles.Stateless (p : Precompiles) : Prop :=
  ∀ m gs, ((p.execute m).run gs).2.2 = gs.2

section Static

variable [Keccak] {evm : Evm} {m m' : Message}

theorem Message.Sends.static (h : m.Sends m') (hs : m'.isStatic = true) : m'.Static := by
  have hparent : m'.kind ≠ .staticCall → m.isStatic = true := by
    intro hk
    refine h.callerIsStatic ?_
    simpa [Message.isStatic, hk] using hs
  refine ⟨hs, ?_, ?_, fun hk => ?_⟩
  · by_contra hc
    rw [Bool.not_eq_false] at hc
    have hk : m'.kind ≠ .staticCall := by
      intro hk
      rw [hk] at hc
      cases hc
    have := (h.isStatic (hparent hk)).2
    rw [hc] at this
    cases this
  · rintro (hk | hk)
    · exact (h.call hk).2.2 (hparent (by rw [hk]; decide))
    · exact (h.staticCall hk).2.2
  · rw [(h.callCode hk).1, (h.callCode hk).2]

theorem Message.Static.sends (hm : m.Static) (h : m.Sends m') : m'.Static :=
  h.static (h.isStatic hm.isStatic).1

theorem Evm.permits_static (hpre : evm.precompiles.Stateless) :
    evm.Permits .silent Message.Static where
  touches := inferInstance
  warms := inferInstance
  sends _ _ hm h := hm.sends h
  input _ hm := ⟨hm.isStatic, hm.notCreate, hm.value, hm.callCode⟩
  transfers m hm hk hv hsd := by
    rcases hk with hk | hk | hk
    · exact absurd (hm.value (.inl hk)) hv
    · exact absurd (hm.callCode hk) hsd
    · exact absurd (hm.value (.inr hk)) hv
  creates m hm hk := by
    rw [hm.notCreate] at hk
    cases hk
  writes m hm hs := by
    rw [hm.isStatic] at hs
    cases hs
  precompile m _ gs := by
    dsimp only
    rw [hpre m gs]
    exact .refl _

/-- The frame of `m` sends `m'` when its requests are answered suitably. -/
def Evm.Sent (evm : Evm) (m m' : Message) : Prop :=
  ∃ fuel, Prog.Makes (.executeMessage m') ((SysInstr.loop (evm.frameEnv m) fuel).run .init)

theorem Evm.Sent.sends (h : evm.Sent m m') : m.Sends m' := by
  obtain ⟨fuel, hmakes⟩ := h
  exact (SysInstr.loop_allowed (evm.frameEnv m) fuel .init).of_makes
    (fun _ _ => trivial) hmakes

theorem Message.Static.sameView (hm : m.Static) (hpre : evm.precompiles.Stateless) {w : World}
    (hw : w.state.Reached evm.db .any) (fuel : ℕ) :
    State.SameView evm.db w.state ((evm.executeMessage fuel m).run w).2.state := by
  have hrun := Evm.executeMessage_moves (Evm.permits_static hpre) fuel hm w hw.nonzero
  exact (hrun.silent hw.sound hw.nonzero).sameView

/-- The static messages that frames send move no value. -/
theorem Evm.Sent.sameView {parent : Message} (h : evm.Sent parent m) (hs : m.isStatic = true)
    (hpre : evm.precompiles.Stateless) {w : World} (hw : w.state.Reached evm.db .any) (fuel : ℕ) :
    State.SameView evm.db w.state ((evm.executeMessage fuel m).run w).2.state :=
  (h.sends.static hs).sameView hpre hw fuel

end Static

/-! ### On small inputs -/

end Evm2
