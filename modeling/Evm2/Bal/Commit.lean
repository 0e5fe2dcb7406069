import Evm2.Bal.Context
import Evm2.State.Commit

/-!
# Direct and streamed commits

A transaction is committed to the cache database by `CacheDB.commitPending`, or its changes are sent
as a stream by `CacheDB.commitSource`.
-/

namespace Evm2

/-! ## Infos from a block access list -/

theorem BalContext.plain_populateBalAccount (ctx : BalContext) (balAccount : AccountBal)
    {x y : Option AccountInfo} (h : x.map AccountInfo.plain = y.map AccountInfo.plain) :
    (ctx.populateBalAccount balAccount x).map AccountInfo.plain =
      (ctx.populateBalAccount balAccount y).map AccountInfo.plain := by
  have hsome : x.isSome = y.isSome := by
    simpa using congrArg Option.isSome h
  have hplain : (x.getD .default).plain = (y.getD .default).plain := by
    cases x <;> cases y <;> simp_all
  simp only [AccountInfo.plain, PlainInfo.mk.injEq] at hplain
  unfold populateBalAccount
  simp only [AccountInfoBal.fst_populateAccountInfo, hsome]
  split_ifs
  · simp only [Option.map_some, AccountInfoBal.plain_populateAccountInfo, hplain.1, hplain.2.1,
      hplain.2.2]
  · rfl

/-! ## Commits -/

theorem BalContext.foldl_sink (ctx : BalContext) (source : List StateChange) :
    source.foldl sink ctx =
      { ctx with balBuilder := ctx.balBuilder.map fun bal =>
          source.foldl (BalWriter.sink ctx.balIndex) bal } := by
  induction source generalizing ctx with
  | nil => cases ctx with | mk bal builder => cases builder <;> rfl
  | cons change source ih =>
    rw [List.foldl_cons, ih]
    simp only [sink, Option.map_map]
    rfl

namespace CacheDB

variable [Keccak]

theorem commitSource_eq (d : CacheDB) (source : List StateChange) :
    d.commitSource source =
      ⟨d.cache.commitSource source, source.foldl BalContext.sink d.balContext⟩ := by
  unfold commitSource Cache.commitSource
  induction source generalizing d with
  | nil => rfl
  | cons change source ih => exact ih (d.sink change)

theorem getAccount_congr {db : Database} {d d' : CacheDB}
    (hs : Cache.SameAnswers db d.cache d'.cache) (hctx : d'.balContext = d.balContext)
    (a : Address) :
    ((getAccount db a).run d').1.map (Option.map AccountInfo.plain) =
      ((getAccount db a).run d).1.map (Option.map AccountInfo.plain) := by
  have ha := hs.account a
  simp only [getAccount, onCache, hctx]
  cases d.balContext.getBalAccount a with
  | error e => rfl
  | ok found =>
    generalize ((Cache.getAccount db a).run d'.cache).1 = r' at ha ⊢
    generalize ((Cache.getAccount db a).run d.cache).1 = r at ha ⊢
    cases r' <;> cases r <;> simp only [Except.map, Except.error.injEq, Except.ok.injEq,
      reduceCtorEq] at ha
    · rw [ha]
      cases found <;> rfl
    · cases found with
      | none => simp [Except.map, Except.mapError, ha]
      | some balAccount =>
        simp [Except.map, Except.mapError, BalContext.plain_populateBalAccount _ _ ha]

omit [Keccak] in
theorem getStorage_congr {db : Database} {d d' : CacheDB} {a : Address} {k : Word}
    (hs : ((Cache.getStorage db a k).run d'.cache).1 = ((Cache.getStorage db a k).run d.cache).1)
    (hctx : d'.balContext = d.balContext) :
    ((getStorage db a k).run d').1 = ((getStorage db a k).run d).1 := by
  simp only [getStorage, onCache, hctx]
  cases d.balContext.balStorage a k with
  | error e => rfl
  | ok found =>
    cases found with
    | none => simp only [hs]
    | some value => rfl

end CacheDB

/-- **Direct and streamed commits of a transaction agree.** The accounts are those of a finalized
transaction that ran on the cache, and no account discards its old storage without a wipe. -/
theorem direct_and_streamed_commit_agree [Keccak] (db : Database) (d : CacheDB) (p : PendingState)
    (features : EvmFeatures) (hfin : p.Finalized features)
    (hd : ∀ a x, p.accounts.lookup a = some x → x.flags.discardsStorage = false)
    (hx : ∀ a x, p.accounts.lookup a = some x → d.cache.Matches db a x) :
    (∀ a, ((CacheDB.getAccount db a).run (d.commitSource p.visit)).1.map
        (Option.map AccountInfo.plain) =
      ((CacheDB.getAccount db a).run (d.commitPending p)).1.map (Option.map AccountInfo.plain)) ∧
    (∀ a k, ((CacheDB.getStorage db a k).run (d.commitSource p.visit)).1 =
      ((CacheDB.getStorage db a k).run (d.commitPending p)).1) ∧
    (∀ h, ((CacheDB.getCodeByHash db h).run (d.commitSource p.visit)).1 =
      ((CacheDB.getCodeByHash db h).run (d.commitPending p)).1) ∧
    (d.commitSource p.visit).balContext = (d.commitPending p).balContext := by
  have hs : Cache.SameAnswers db (d.cache.commit p.accounts) (d.cache.commitSource p.visit) :=
    Cache.sameAnswers_commit d.cache p hfin hd hx
  have hctx : (d.commitSource p.visit).balContext = (d.commitPending p).balContext := by
    rw [CacheDB.commitSource_eq]
    exact BalContext.foldl_sink d.balContext p.visit
  rw [CacheDB.commitSource_eq] at hctx ⊢
  refine ⟨fun a => CacheDB.getAccount_congr hs hctx a,
    fun a k => CacheDB.getStorage_congr (hs.storage a k) hctx, fun h => ?_, hctx⟩
  exact congrArg (Except.mapError CacheDBError.database) (hs.code h)

/-- A created account, committed while a list is built. -/
theorem direct_and_streamed_commit_agree_create :
    letI := Keccak.const
    let d : CacheDB := ⟨.default, { BalContext.new with balBuilder := some .new, balIndex := 1 }⟩
    (∀ k, ((CacheDB.getStorage .empty 1 k).run (d.commitSource createPending.visit)).1 =
      ((CacheDB.getStorage .empty 1 k).run (d.commitPending createPending)).1) ∧
    (d.commitSource createPending.visit).balContext =
      (d.commitPending createPending).balContext := by
  let _ := Keccak.const
  have hall := direct_and_streamed_commit_agree .empty
    ⟨.default, { BalContext.new with balBuilder := some .new, balIndex := 1 }⟩ createPending .empty
    (fun a x hx => ?_) (fun a x hx => ?_) (fun a x hx => ?_)
  · exact ⟨hall.2.1 1, hall.2.2.2⟩
  · obtain ⟨-, hx⟩ := Map.lookup_singleton_eq_some hx
    exact ⟨x, fun _ => by rw [hx]; rfl, by rw [hx]; rfl⟩
  · obtain ⟨rfl, rfl⟩ := Map.lookup_singleton_eq_some hx
    rfl
  · obtain ⟨rfl, rfl⟩ := Map.lookup_singleton_eq_some hx
    refine ⟨rfl, fun info hi code hcode he => ?_, fun info code hi hcode he => ?_⟩
    · cases hi
      cases hcode
      cases he
    · cases hi
      cases hcode
      cases he

end Evm2
