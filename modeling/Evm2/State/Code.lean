import Evm2.State.Balance
import Evm2.State.Commit

/-!
# Reading code

What `load_code` returns for an account depends on its info and on the contracts of the cache
database. The cache may learn a contract with an account or by its hash; if the database supplies
the same code both ways, no read changes what a later read returns.

* **`State.Runs.sameCodes`**: runs do not change the code of any info.
-/

namespace Evm2

namespace Cache

variable (db : Database)

def code (c : Cache) (info : Option AccountInfo) : Except DatabaseError Bytecode :=
  ((AccountHandle.codeOf db info).run ⟨c, [], [], .new⟩).1

variable {db}

theorem codeOf_fst (info : Option AccountInfo) (inner : StateInner) :
    ((AccountHandle.codeOf db info).run inner).1 = inner.cache.code db info := by
  unfold code AccountHandle.codeOf
  cases info with
  | none => rfl
  | some info =>
    dsimp only
    split_ifs
    · rfl
    · cases info.code with
      | none => rfl
      | some code =>
        dsimp only
        split_ifs <;> rfl

@[simp] theorem code_none (c : Cache) : c.code db none = .ok Bytecode.new := rfl

theorem code_some (c : Cache) (info : AccountInfo) :
    c.code db (some info) =
      if info.isEmptyCodeHash then .ok Bytecode.new
      else match info.code with
        | some code =>
          if !code.isEmpty then .ok code else ((getCodeByHash db info.codeHash).run c).1
        | none => ((getCodeByHash db info.codeHash).run c).1 := by
  unfold code AccountHandle.codeOf
  dsimp only
  split_ifs
  · rfl
  · cases info.code with
    | none => rfl
    | some code =>
      dsimp only
      split_ifs <;> rfl

variable (db) in
def SameCodes (c c' : Cache) : Prop :=
  ∀ h, ((getCodeByHash db h).run c').1 = ((getCodeByHash db h).run c).1

theorem SameCodes.refl (c : Cache) : SameCodes db c c := fun _ => rfl

theorem SameCodes.trans {c c' c'' : Cache} (h : SameCodes db c c') (h' : SameCodes db c' c'') :
    SameCodes db c c'' :=
  fun k => (h' k).trans (h k)

theorem SameCodes.code {c c' : Cache} (h : SameCodes db c c') (info : Option AccountInfo) :
    c'.code db info = c.code db info := by
  cases info with
  | none => rfl
  | some info => rw [code_some, code_some, h]

theorem SameCodes.of_contracts {c c' : Cache} (h : c'.contracts = c.contracts) :
    SameCodes db c c' := by
  intro k
  rw [getCodeByHash_eq, getCodeByHash_eq, h]

theorem sameCodes_getCodeByHash (c : Cache) (h : B256) :
    SameCodes db c ((getCodeByHash db h).run c).2 := by
  intro k
  rw [getCodeByHash_eq, getCodeByHash_eq]
  generalize hkey : (if k = 0 then KECCAK256_EMPTY else k) = key
  unfold getCodeByHash
  dsimp only
  generalize (if h = 0 then KECCAK256_EMPTY else h) = h'
  cases hl : c.contracts.lookup h' with
  | some code => rfl
  | none =>
    cases hd : db.getCodeByHash h' with
    | error e => rfl
    | ok code =>
      by_cases hk : key = h'
      · subst hk
        simp [codeAnswer, hl, hd]
      · simp [codeAnswer, hk]

theorem sameCodes_of_codeReads {c c' : Cache} (h : CodeReads db c c') : SameCodes db c c' := by
  induction h with
  | refl => exact .refl _
  | tail _ hstep ih =>
    obtain ⟨codeHash, rfl⟩ := hstep
    exact ih.trans (sameCodes_getCodeByHash _ codeHash)

end Cache

def Database.Coherent [Keccak] (db : Database) : Prop :=
  ∀ a info code, db.getAccount a = .ok (some info) → info.code = some code →
    code.isEmpty = false →
    db.getCodeByHash (Cache.insertContractInner ∅ info).2.codeHash = .ok code

section Coherent

variable [Keccak] {db : Database}

theorem Database.coherent_empty : Database.empty.Coherent := by
  intro a info code h
  cases h

omit [Keccak] in
theorem Cache.codeAnswer_adjust (m : Map B256 Bytecode) {h : B256} {code : Bytecode}
    (hdb : db.getCodeByHash h = .ok code) (key : B256) :
    codeAnswer db (m.adjust h code id) key = codeAnswer db m key := by
  simp only [codeAnswer, Map.lookup_adjust]
  by_cases hk : key = h
  · subst hk
    rw [if_pos rfl]
    cases m.lookup key with
    | none => exact hdb.symm
    | some old => rfl
  · rw [if_neg hk]

theorem Cache.codeAnswer_insertContractInner (m : Map B256 Bytecode) {info : AccountInfo}
    (hi : ∀ code, info.code = some code → code.isEmpty = false →
      db.getCodeByHash (insertContractInner ∅ info).2.codeHash = .ok code) (key : B256) :
    codeAnswer db (insertContractInner m info).1 key = codeAnswer db m key := by
  rw [insertContractInner_snd ∅ m] at hi
  unfold insertContractInner at hi ⊢
  have hcode : (normalizeCodeHash info).code = info.code := by
    unfold normalizeCodeHash
    split_ifs <;> rfl
  dsimp only at hi ⊢
  simp only [hcode] at hi ⊢
  cases hc : info.code with
  | none => rfl
  | some code =>
    dsimp only
    by_cases he : code.isEmpty = true
    · rw [if_pos he]
    · rw [Bool.not_eq_true] at he
      have hdb := hi code hc he
      simp only [hc, he, Bool.false_eq_true, if_false] at hdb ⊢
      exact codeAnswer_adjust m hdb key

theorem Cache.sameCodes_getAccount (hdb : db.Coherent) (c : Cache) (a : Address) :
    SameCodes db c ((getAccount db a).run c).2 := by
  unfold getAccount
  dsimp only
  cases c.accounts.lookup a with
  | some account => exact .refl c
  | none =>
    cases hd : db.getAccount a with
    | error e => exact .refl c
    | ok info =>
      cases info with
      | none => exact .of_contracts rfl
      | some info =>
        intro k
        rw [getCodeByHash_eq, getCodeByHash_eq]
        exact codeAnswer_insertContractInner c.contracts
          (fun code hc he => hdb a info code hd hc he) _

namespace State

variable {P : Permit} {k : Bool} {s t : State}

theorem Step.sameCodes (hdb : db.Coherent) (h : Step db P s t) :
    Cache.SameCodes db s.cache t.cache := by
  cases h with
  | readAccount a => exact Cache.sameCodes_getAccount hdb s.cache a
  | readCode h => exact Cache.sameCodes_getCodeByHash s.cache h
  | readBlockHash n =>
    refine .of_contracts ?_
    simp only [State.withCache, Cache.getBlockHash]
    cases s.cache.blockHashes.lookup n with
    | some hash => rfl
    | none => cases db.getBlockHash n <;> rfl
  | readStorage a key x hl =>
    refine .of_contracts ?_
    simp only [State.withCache, Cache.getStorage]
    split
    · rfl
    · split_ifs
      · rfl
      · rfl
      · cases db.getStorage a key <;> rfl
  | load a info hv hk | mutate a x x' hl ho hst hf he | loadSlot a x key value hl hv hst =>
    exact .refl _
  | warmSlot a x key slot hl hb hc | writeSlot a x key value slot hl hb hw => exact .refl _
  | tstore a key value hw =>
    refine .of_contracts ?_
    unfold State.tstore
    split <;> split_ifs <;> rfl
  | log l hw => exact .refl _

theorem Runs.sameCodes (hdb : db.Coherent) (h : Runs db P k s t) :
    Cache.SameCodes db s.cache t.cache := by
  induction h with
  | refl => exact .refl _
  | step _ hst ih => exact ih.trans (hst.sameCodes hdb)
  | rollback features _ _ _ ih ihin => exact ih.trans ihin

variable {a : Address} {x : Account}

theorem Loads.run (h : Loads db a s x t) : Run db P s t := by
  cases h with
  | here hl => exact .refl
  | @fetch info c hv hr =>
    have hread : Step db P s (s.withCache ((Cache.getAccount db a).run s.cache).2) :=
      .readAccount s a
    rw [hr] at hread
    exact .tail (.single hread) (.load (s.withCache c) a info hv (Cache.getAccount_settled db hr))

end State

end Coherent

end Evm2
