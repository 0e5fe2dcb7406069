import Evm2.Bal.List
import Evm2.Lib.Sorted

/-!
# The canonical encoding of block access lists

A list is handed out as the EIP-7928 types have it: accounts sorted by address, slots that were only
read apart from those that were written, and each list of changes sorted by its index.
-/

namespace Evm2

/-! ## The EIP-7928 types -/

/-- `SlotChanges` of EIP-7928. -/
structure SlotChanges where
  slot : Word
  changes : List (BalChange Word)

/-- `AccountChanges` of EIP-7928. -/
@[ext]
structure AlloyAccountChanges where
  address : Address
  storageChanges : List SlotChanges
  storageReads : List Word
  balanceChanges : List (BalChange Word)
  nonceChanges : List (BalChange U64)
  codeChanges : List (BalChange Bytes)

/-- `BlockAccessList` of EIP-7928. -/
abbrev AlloyBal := List AlloyAccountChanges

def IsSortOf {α K : Type} [LE K] (key : α → K) (l l' : List α) : Prop :=
  l.SortedByKey key ∧ l.Perm l'

/-- What is assumed of `AccountChanges::sort`, which is not a part of the repository: it sorts each
list by its key. The changes of a slot are left alone if they are sorted. -/
structure SortsLists (sort : AlloyAccountChanges → AlloyAccountChanges) : Prop where
  address : ∀ x, (sort x).address = x.address
  storageChanges : ∀ x, ∃ inner : SlotChanges → SlotChanges,
    IsSortOf SlotChanges.slot (sort x).storageChanges (x.storageChanges.map inner) ∧
      ∀ c, c.changes.SortedByKey BalChange.blockAccessIndex → inner c = c
  storageReads : ∀ x, IsSortOf id (sort x).storageReads x.storageReads
  balanceChanges : ∀ x, IsSortOf BalChange.blockAccessIndex (sort x).balanceChanges x.balanceChanges
  nonceChanges : ∀ x, IsSortOf BalChange.blockAccessIndex (sort x).nonceChanges x.nonceChanges
  codeChanges : ∀ x, IsSortOf BalChange.blockAccessIndex (sort x).codeChanges x.codeChanges

/-! ## Encoding -/

def BalChange.encodeCode (change : BalChange (B256 × Bytecode)) : BalChange Bytes :=
  ⟨change.blockAccessIndex, change.value.2.originalBytes⟩

namespace AccountBal

variable (x : AccountBal)

/-- The slots that were only read, in the order of the map. -/
def reads : List Word := (x.storage.entries.filter fun e => e.2.isEmpty).map fun e => e.1

def writes : List (Word × BalChanges Word) :=
  (x.storage.entries.filter fun e => !e.2.isEmpty).map fun e => (e.1, e.2)

def intoVecs : List Word × List (Word × BalChanges Word) :=
  (x.reads.sortByKey id, x.writes.sortByKey Prod.fst)

def intoAlloy : AlloyAccountChanges where
  address := 0
  storageChanges := x.intoVecs.2.map fun e =>
    ⟨e.1, e.2.changes.sortByKey BalChange.blockAccessIndex⟩
  storageReads := x.intoVecs.1
  balanceChanges := x.accountInfo.balance.changes.sortByKey BalChange.blockAccessIndex
  nonceChanges := x.accountInfo.nonce.changes.sortByKey BalChange.blockAccessIndex
  codeChanges := (x.accountInfo.code.changes.map BalChange.encodeCode).sortByKey
    BalChange.blockAccessIndex

/-- What `Bal::to_alloy_bal` makes of an account before it sorts. -/
def toAlloy (address : Address) : AlloyAccountChanges where
  address := address
  storageChanges := x.writes.map fun e => ⟨e.1, e.2.changes⟩
  storageReads := x.reads
  balanceChanges := x.accountInfo.balance.changes
  nonceChanges := x.accountInfo.nonce.changes
  codeChanges := x.accountInfo.code.changes.map BalChange.encodeCode

end AccountBal

def AlloyBal.ofBal (bal : Bal) : AlloyBal :=
  (bal.accounts.entries.map fun e => { e.2.intoAlloy with address := e.1 }).sortByKey
    AlloyAccountChanges.address

def Bal.toAlloyBal (sort : AlloyAccountChanges → AlloyAccountChanges) (bal : Bal) : AlloyBal :=
  (bal.accounts.entries.map fun e => sort (e.2.toAlloy e.1)).sortByKey AlloyAccountChanges.address

/-! ## Decoding -/

def BalChanges.ofList {V : Type} (changes : List (BalChange V)) : BalChanges V := ⟨changes, none⟩

section Decoding

variable [Keccak]

def BalChange.decodeCode (change : BalChange Bytes) :
    Except BytecodeDecodeError (BalChange (B256 × Bytecode)) :=
  (Bytecode.newRawChecked change.value).map fun code =>
    ⟨change.blockAccessIndex, (code.hashSlow, code)⟩

def AccountBal.tryFrom (x : AlloyAccountChanges) : Except BytecodeDecodeError AccountBal := do
  let code ← x.codeChanges.mapM BalChange.decodeCode
  return {
    accountInfo := ⟨.ofList x.nonceChanges, .ofList x.balanceChanges, .ofList code⟩
    storage := .collect
      ((x.storageChanges ++ x.storageReads.map fun key => (⟨key, []⟩ : SlotChanges)).map
        fun slot => (slot.slot, .ofList slot.changes)) }

def AccountBal.tryFromRef (x : AlloyAccountChanges) : Except BytecodeDecodeError AccountBal := do
  let code ← x.codeChanges.mapM BalChange.decodeCode
  return {
    accountInfo := ⟨.ofList x.nonceChanges, .ofList x.balanceChanges, .ofList code⟩
    storage := .collect
      ((x.storageChanges.map fun slot => (slot.slot, .ofList slot.changes)) ++
        x.storageReads.map fun key => (key, .default)) }

def Bal.collectAccounts (decode : AlloyAccountChanges → Except BytecodeDecodeError AccountBal)
    (alloyBal : AlloyBal) : Except BytecodeDecodeError Bal := do
  let accounts ← alloyBal.foldlM (fun accounts x => do
    let account ← decode x
    return accounts.set x.address account) (∅ : Map Address AccountBal)
  return ⟨accounts⟩

def Bal.tryFrom : AlloyBal → Except BytecodeDecodeError Bal := collectAccounts AccountBal.tryFrom

def Bal.tryFromRef : AlloyBal → Except BytecodeDecodeError Bal :=
  collectAccounts AccountBal.tryFromRef

end Decoding

/-! ## Equality -/

/-- Equality of changes of code. `Bytecode::eq` compares the bytes. -/
def SameCodeChange (x y : BalChange (B256 × Bytecode)) : Prop :=
  x.blockAccessIndex = y.blockAccessIndex ∧ x.value.1 = y.value.1 ∧
    x.value.2.originalBytes = y.value.2.originalBytes

/-- `AccountBal::eq`. `BalChanges::eq` compares the changes alone. -/
structure AccountBal.Same (x y : AccountBal) : Prop where
  nonce : x.accountInfo.nonce.changes = y.accountInfo.nonce.changes
  balance : x.accountInfo.balance.changes = y.accountInfo.balance.changes
  code : List.Forall₂ SameCodeChange x.accountInfo.code.changes y.accountInfo.code.changes
  storage : ∀ k, (x.storage.lookup k).map BalChanges.changes =
    (y.storage.lookup k).map BalChanges.changes

def Bal.Same (a b : Bal) : Prop :=
  ∀ address, Option.Rel AccountBal.Same (a.accounts.lookup address) (b.accounts.lookup address)

/-! ## The encoders -/

theorem BalChanges.Sorted.sortedByKey {V : Type} {l : List (BalChange V)}
    (h : BalChanges.Sorted l) : l.SortedByKey BalChange.blockAccessIndex :=
  h.imp fun hxy => Nat.le_of_lt hxy

theorem BalChanges.Sorted.nodup {V : Type} {l : List (BalChange V)} (h : BalChanges.Sorted l) :
    (l.map BalChange.blockAccessIndex).Nodup :=
  List.pairwise_map.mpr (h.imp fun hxy => Nat.ne_of_lt hxy)

theorem IsSortOf.eq_of_sorted {V : Type} {l l' : List (BalChange V)}
    (h : IsSortOf BalChange.blockAccessIndex l l') (hl' : BalChanges.Sorted l') : l = l' :=
  (List.eq_of_sortedByKey hl'.sortedByKey h.1 hl'.nodup h.2.symm).symm

namespace AccountBal

/-- The changes of an account are sorted, and its code can be decoded and has the hash that is
recorded. -/
structure Canonical [Keccak] (x : AccountBal) : Prop where
  nonce : BalChanges.Sorted x.accountInfo.nonce.changes
  balance : BalChanges.Sorted x.accountInfo.balance.changes
  code : BalChanges.Sorted x.accountInfo.code.changes
  slot : ∀ k changes, x.storage.lookup k = some changes → BalChanges.Sorted changes.changes
  decodes : ∀ change ∈ x.accountInfo.code.changes,
    (∃ code, Bytecode.newRawChecked change.value.2.originalBytes = .ok code) ∧
      change.value.2.hashSlow = change.value.1

variable {x : AccountBal}

theorem nodup_reads (x : AccountBal) : x.reads.Nodup :=
  (List.filter_sublist.map Sigma.fst).nodup x.storage.nodupKeys

theorem nodup_writes (x : AccountBal) : (x.writes.map Prod.fst).Nodup := by
  rw [writes, List.map_map]
  exact (List.filter_sublist.map Sigma.fst).nodup x.storage.nodupKeys

theorem mem_reads {k : Word} (h : k ∈ x.reads) :
    ∃ changes, x.storage.lookup k = some changes ∧ changes.isEmpty = true := by
  obtain ⟨e, he, rfl⟩ := List.mem_map.mp h
  obtain ⟨hmem, hempty⟩ := List.mem_filter.mp he
  exact ⟨e.2, AList.mem_lookup_iff.mpr hmem, hempty⟩

theorem mem_writes {e : Word × BalChanges Word} (h : e ∈ x.writes) :
    x.storage.lookup e.1 = some e.2 ∧ e.2.isEmpty = false := by
  obtain ⟨e', he', rfl⟩ := List.mem_map.mp h
  obtain ⟨hmem, hempty⟩ := List.mem_filter.mp he'
  exact ⟨AList.mem_lookup_iff.mpr hmem, by simpa using hempty⟩

def encoded (x : AccountBal) (address : Address) : AlloyAccountChanges :=
  { x.toAlloy address with
    storageChanges := (x.writes.sortByKey Prod.fst).map fun e => ⟨e.1, e.2.changes⟩
    storageReads := x.reads.sortByKey id }

theorem Canonical.sorted_encodeCode [Keccak] (h : x.Canonical) :
    BalChanges.Sorted (x.accountInfo.code.changes.map BalChange.encodeCode) :=
  List.pairwise_map.mpr (h.code.imp fun hxy => hxy)

theorem Canonical.intoAlloy_eq [Keccak] (h : x.Canonical) (address : Address) :
    { x.intoAlloy with address := address } = x.encoded address := by
  have hstorage : (x.intoVecs.2.map fun e =>
      (⟨e.1, e.2.changes.sortByKey BalChange.blockAccessIndex⟩ : SlotChanges)) =
        (x.writes.sortByKey Prod.fst).map fun e => ⟨e.1, e.2.changes⟩ := by
    refine List.map_congr_left fun e he => ?_
    have hw := mem_writes ((x.writes.perm_sortByKey Prod.fst).mem_iff.mp he)
    rw [List.sortByKey_eq_self (h.slot e.1 e.2 hw.1).sortedByKey]
  exact AlloyAccountChanges.ext rfl hstorage rfl
    (List.sortByKey_eq_self h.balance.sortedByKey) (List.sortByKey_eq_self h.nonce.sortedByKey)
    (List.sortByKey_eq_self h.sorted_encodeCode.sortedByKey)

theorem Canonical.sort_toAlloy [Keccak] {sort : AlloyAccountChanges → AlloyAccountChanges}
    (hsort : SortsLists sort) (h : x.Canonical) (address : Address) :
    sort (x.toAlloy address) = x.encoded address := by
  have hreads := hsort.storageReads (x.toAlloy address)
  refine AlloyAccountChanges.ext (hsort.address _) ?_ ?_ ((hsort.balanceChanges _).eq_of_sorted
    h.balance) ((hsort.nonceChanges _).eq_of_sorted h.nonce)
    ((hsort.codeChanges _).eq_of_sorted h.sorted_encodeCode)
  · obtain ⟨inner, hin, hkeep⟩ := hsort.storageChanges (x.toAlloy address)
    have hmap : (x.toAlloy address).storageChanges.map inner =
        (x.toAlloy address).storageChanges := by
      refine (List.map_congr_left fun c hc => hkeep c ?_).trans (List.map_id _)
      obtain ⟨e, he, rfl⟩ := List.mem_map.mp hc
      exact (h.slot e.1 e.2 (mem_writes he).1).sortedByKey
    rw [hmap] at hin
    have hsorted : ((x.writes.sortByKey Prod.fst).map fun e =>
        (⟨e.1, e.2.changes⟩ : SlotChanges)).SortedByKey SlotChanges.slot :=
      (x.writes.sortedByKey_sortByKey Prod.fst).map _ fun e _ => rfl
    have hkeys : (((x.writes.sortByKey Prod.fst).map fun e =>
        (⟨e.1, e.2.changes⟩ : SlotChanges)).map SlotChanges.slot).Nodup := by
      rw [List.map_map]
      exact ((x.writes.perm_sortByKey Prod.fst).map Prod.fst).nodup_iff.mpr x.nodup_writes
    exact (List.eq_of_sortedByKey hsorted hin.1 hkeys
      (((x.writes.perm_sortByKey Prod.fst).map _).trans hin.2.symm)).symm
  · have hkeys : ((x.reads.sortByKey id).map id).Nodup := by
      rw [List.map_id]
      exact (x.reads.perm_sortByKey id).nodup_iff.mpr x.nodup_reads
    exact (List.eq_of_sortedByKey (x.reads.sortedByKey_sortByKey id) hreads.1 hkeys
      ((x.reads.perm_sortByKey id).trans hreads.2.symm)).symm

/-! ## The decoders -/

theorem perm_slots (x : AccountBal) :
    ((x.writes.map fun e => (e.1, BalChanges.ofList e.2.changes)) ++
      x.reads.map fun key => (key, (BalChanges.ofList [] : BalChanges Word))).Perm
        (x.storage.entries.map fun e => (e.1, BalChanges.ofList e.2.changes)) := by
  have hreads : (x.reads.map fun key => (key, (BalChanges.ofList [] : BalChanges Word))) =
      (x.storage.entries.filter fun e => e.2.isEmpty).map fun e =>
        (e.1, BalChanges.ofList e.2.changes) := by
    rw [reads, List.map_map]
    refine List.map_congr_left fun e he => ?_
    have hempty := (List.mem_filter.mp he).2
    rw [BalChanges.isEmpty, List.isEmpty_iff] at hempty
    simp only [Function.comp_apply, hempty]
  rw [hreads, writes, List.map_map]
  have hall := (List.filter_append_perm (fun e : Σ _ : Word, BalChanges Word => !e.2.isEmpty)
    x.storage.entries).map fun e => (e.1, BalChanges.ofList e.2.changes)
  simp only [Bool.not_not] at hall
  rwa [List.map_append] at hall

section Decode

variable [Keccak]

theorem decodeCode_encodeCode {change : BalChange (B256 × Bytecode)}
    (h : ∃ code, Bytecode.newRawChecked change.value.2.originalBytes = .ok code)
    (hhash : change.value.2.hashSlow = change.value.1) :
    ∃ change', change.encodeCode.decodeCode = .ok change' ∧ SameCodeChange change change' := by
  obtain ⟨code, hcode⟩ := h
  have hbytes := Bytecode.originalBytes_of_newRawChecked hcode
  refine ⟨⟨change.blockAccessIndex, (code.hashSlow, code)⟩, ?_, rfl, ?_, hbytes.symm⟩
  · simp only [BalChange.encodeCode, BalChange.decodeCode, hcode]
    rfl
  · rw [← hhash, Bytecode.hashSlow, Bytecode.hashSlow, hbytes]

theorem mapM_decodeCode {l : List (BalChange (B256 × Bytecode))}
    (h : ∀ change ∈ l, (∃ code, Bytecode.newRawChecked change.value.2.originalBytes = .ok code) ∧
      change.value.2.hashSlow = change.value.1) :
    ∃ l', (l.map BalChange.encodeCode).mapM BalChange.decodeCode = .ok l' ∧
      List.Forall₂ SameCodeChange l l' := by
  induction l with
  | nil => exact ⟨[], rfl, .nil⟩
  | cons change l ih =>
    obtain ⟨l', hl', hsame⟩ := ih fun c hc => h c (List.mem_cons_of_mem _ hc)
    obtain ⟨hdec, hhash⟩ := h change List.mem_cons_self
    obtain ⟨change', hc', hsame'⟩ := decodeCode_encodeCode hdec hhash
    refine ⟨change' :: l', ?_, .cons hsame' hsame⟩
    rw [List.map_cons, List.mapM_cons, hc', hl']
    rfl

theorem tryFromRef_eq : AccountBal.tryFromRef = AccountBal.tryFrom := by
  funext x
  simp only [tryFrom, tryFromRef, List.map_append, List.map_map]
  rfl

theorem Canonical.tryFrom_encoded {x : AccountBal} (h : x.Canonical) (address : Address) :
    ∃ y, AccountBal.tryFrom (x.encoded address) = .ok y ∧ x.Same y := by
  obtain ⟨code, hcode, hsame⟩ := mapM_decodeCode h.decodes
  have hdec : AccountBal.tryFrom (x.encoded address) = .ok
      { accountInfo := ⟨.ofList x.accountInfo.nonce.changes, .ofList x.accountInfo.balance.changes,
          .ofList code⟩
        storage := .collect (((x.encoded address).storageChanges ++
          (x.encoded address).storageReads.map fun key => (⟨key, []⟩ : SlotChanges)).map
            fun slot => (slot.slot, .ofList slot.changes)) } := by
    simp only [tryFrom, encoded, toAlloy, hcode]
    rfl
  refine ⟨_, hdec, rfl, rfl, hsame, fun k => ?_⟩
  rw [Map.lookup_collect (m := x.storage) (f := fun c => BalChanges.ofList c.changes) ?_ k]
  · cases x.storage.lookup k <;> rfl
  · refine List.Perm.trans ?_ x.perm_slots
    simp only [encoded, List.map_append, List.map_map]
    exact ((x.writes.perm_sortByKey Prod.fst).map _).append ((x.reads.perm_sortByKey id).map _)

end Decode

end AccountBal

namespace Bal

variable [Keccak] {bal : Bal}

/-- All accounts of the list are canonical. -/
def Canonical (bal : Bal) : Prop := ∀ a y, bal.accounts.lookup a = some y → y.Canonical

omit [Keccak] in
def encoded (bal : Bal) : AlloyBal :=
  (bal.accounts.entries.map fun e => e.2.encoded e.1).sortByKey AlloyAccountChanges.address

theorem Canonical.ofBal_eq (h : bal.Canonical) : AlloyBal.ofBal bal = bal.encoded := by
  rw [AlloyBal.ofBal, encoded]
  congr 1
  refine List.map_congr_left fun e he => ?_
  exact (h e.1 e.2 (AList.mem_lookup_iff.mpr he)).intoAlloy_eq e.1

theorem Canonical.toAlloyBal_eq (h : bal.Canonical)
    {sort : AlloyAccountChanges → AlloyAccountChanges} (hsort : SortsLists sort) :
    bal.toAlloyBal sort = bal.encoded := by
  rw [toAlloyBal, encoded]
  congr 1
  refine List.map_congr_left fun e he => ?_
  exact (h e.1 e.2 (AList.mem_lookup_iff.mpr he)).sort_toAlloy hsort e.1

omit [Keccak] in
theorem mem_encoded {x : AlloyAccountChanges} (h : x ∈ bal.encoded) :
    ∃ y, bal.accounts.lookup x.address = some y ∧ x = y.encoded x.address := by
  have hm := (List.perm_sortByKey AlloyAccountChanges.address _).mem_iff.mp h
  obtain ⟨e, he, rfl⟩ := List.mem_map.mp hm
  exact ⟨e.2, AList.mem_lookup_iff.mpr he, rfl⟩

omit [Keccak] in
theorem sorted_encoded (bal : Bal) :
    (bal.encoded.map AlloyAccountChanges.address).Pairwise (· < ·) := by
  refine (List.sortedByKey_sortByKey _ _).strict ?_
  rw [((List.perm_sortByKey _ _).map _).nodup_iff, List.map_map]
  exact bal.accounts.nodupKeys

omit [Keccak] in
theorem collectAccounts_eq {decode : AlloyAccountChanges → Except BytecodeDecodeError AccountBal}
    {g : AlloyAccountChanges → AccountBal} {l : AlloyBal} (h : ∀ x ∈ l, decode x = .ok (g x)) :
    collectAccounts decode l = .ok ⟨.collect (l.map fun x => (x.address, g x))⟩ := by
  have hfold : ∀ (l : AlloyBal) (m : Map Address AccountBal), (∀ x ∈ l, decode x = .ok (g x)) →
      l.foldlM (fun accounts x => do
        let account ← decode x
        return accounts.set x.address account) m =
      .ok ((l.map fun x => (x.address, g x)).foldl (fun m e => m.set e.1 e.2) m) := by
    intro l
    induction l with
    | nil => exact fun _ _ => rfl
    | cons x l ih =>
      intro m hl
      rw [List.foldlM_cons, hl x List.mem_cons_self]
      exact ih _ fun y hy => hl y (List.mem_cons_of_mem _ hy)
  rw [collectAccounts, hfold l ∅ h]
  rfl

theorem Canonical.tryFrom_encoded (h : bal.Canonical) :
    ∃ b, Bal.tryFrom bal.encoded = .ok b ∧ bal.Same b := by
  have hdec : ∀ a y, bal.accounts.lookup a = some y →
      AccountBal.tryFrom (y.encoded a) =
        .ok ((AccountBal.tryFrom (y.encoded a)).toOption.getD .default) ∧
      y.Same ((AccountBal.tryFrom (y.encoded a)).toOption.getD .default) := by
    intro a y hy
    obtain ⟨z, hz, hsame⟩ := (h a y hy).tryFrom_encoded a
    rw [hz]
    exact ⟨rfl, hsame⟩
  refine ⟨_, collectAccounts_eq
    (g := fun x => (AccountBal.tryFrom x).toOption.getD .default) fun x hx => ?_, fun a => ?_⟩
  · obtain ⟨y, hy, hxy⟩ := mem_encoded hx
    rw [hxy]
    exact (hdec _ y hy).1
  · -- the address is not a part of what is decoded
    rw [Map.lookup_collect (m := bal.accounts)
      (f := fun y => (AccountBal.tryFrom (y.encoded 0)).toOption.getD .default) ?_ a]
    · cases hy : bal.accounts.lookup a with
      | none => exact .none
      | some y => exact .some (hdec a y hy).2
    · have hperm := (List.perm_sortByKey AlloyAccountChanges.address
        (bal.accounts.entries.map fun e => e.2.encoded e.1)).map fun x =>
          (x.address, (AccountBal.tryFrom x).toOption.getD .default)
      rwa [List.map_map] at hperm

end Bal

/-! ## Lists that commits build -/

namespace BalChanges

variable {V K : Type} [DecidableEq K] {f : V → K} {c : BalChanges V} {i : ℕ} {o v : V}

def Bounded (i : ℕ) (c : BalChanges V) : Prop :=
  Sorted c.changes ∧ ∀ x ∈ c.changes, x.blockAccessIndex ≤ i

omit [DecidableEq K] in
theorem Bounded.mono (h : Bounded i c) {j : ℕ} (hj : i ≤ j) : Bounded j c :=
  ⟨h.1, fun x hx => (h.2 x hx).trans hj⟩

theorem changes_updateWithKey (c : BalChanges V) (i : ℕ) (o v : V) :
    ∃ l, (l = c.changes ∨ ∃ last, c.changes = l ++ [last]) ∧
      ((updateWithKey f c i o v).changes = l ∨
        (updateWithKey f c i o v).changes = l ++ [⟨i, v⟩] ∧
          ∀ last, c.changes.getLast? = some last → last.blockAccessIndex = i →
            c.changes = l ++ [last]) := by
  unfold updateWithKey
  by_cases ho : f o = f v
  · rw [if_pos ho]
    exact ⟨c.changes, .inl rfl, .inl rfl⟩
  rw [if_neg ho]
  rcases List.eq_nil_or_concat c.changes with hnil | ⟨l, last, hc⟩
  · rw [hnil]
    exact ⟨[], .inl rfl, .inr ⟨rfl, by simp⟩⟩
  rw [List.concat_eq_append] at hc
  rw [hc, List.getLast?_concat, List.dropLast_concat]
  dsimp only
  by_cases hidx : last.blockAccessIndex = i
  · rw [if_neg (not_not.mpr hidx)]
    refine ⟨l, .inr ⟨last, rfl⟩, ?_⟩
    split_ifs
    · exact .inl rfl
    · refine .inr ⟨by rw [hidx], fun last' hl _ => ?_⟩
      rw [Option.some.inj hl]
  · rw [if_pos hidx]
    refine ⟨l ++ [last], .inl rfl, ?_⟩
    split_ifs
    · refine .inr ⟨rfl, fun last' hl hi => ?_⟩
      rw [← Option.some.inj hl] at hi
      exact (hidx hi).elim
    · exact .inl hc

theorem mem_updateWithKey {x : BalChange V} (h : x ∈ (updateWithKey f c i o v).changes) :
    x ∈ c.changes ∨ x = ⟨i, v⟩ := by
  obtain ⟨l, hl, hc⟩ := changes_updateWithKey (f := f) c i o v
  have hsub : ∀ y ∈ l, y ∈ c.changes := by
    intro y hy
    rcases hl with rfl | ⟨last, hl⟩
    · exact hy
    · rw [hl]
      exact List.mem_append_left _ hy
  rcases hc with hc | ⟨hc, -⟩
  · exact .inl (hsub x (hc ▸ h))
  · rw [hc] at h
    rcases List.mem_append.mp h with h | h
    · exact .inl (hsub x h)
    · exact .inr (List.mem_singleton.mp h)

theorem Bounded.updateWithKey (h : Bounded i c) :
    Bounded i (BalChanges.updateWithKey f c i o v) := by
  refine ⟨?_, fun x hx => ?_⟩
  · obtain ⟨l, hl, hc⟩ := changes_updateWithKey (f := f) c i o v
    have hsub : l.Sublist c.changes := by
      rcases hl with rfl | ⟨last, hl⟩
      · exact List.Sublist.refl _
      · rw [hl]
        exact List.sublist_append_left _ _
    have hsorted : Sorted l := h.1.sublist hsub
    rcases hc with hc | ⟨hc, hlast⟩
    · rw [hc]
      exact hsorted
    · rw [hc]
      refine Records.sorted_concat hsorted fun x hx => ?_
      have hxc := hsub.subset hx
      refine Nat.lt_of_le_of_ne (h.2 x hxc) fun hxi => ?_
      -- a change at the same index would be the last one, which is replaced
      obtain ⟨m, last, hm⟩ := (List.eq_nil_or_concat c.changes).resolve_left
        (List.ne_nil_of_mem hxc)
      rw [List.concat_eq_append] at hm
      have hlt : ∀ y l', c.changes = l' ++ [last] → y ∈ l' →
          y.blockAccessIndex < last.blockAccessIndex := fun y l' hl' hy =>
        (List.pairwise_append.mp (hl' ▸ h.1)).2.2 y hy last (List.mem_singleton_self last)
      have hle := h.2 last (hm ▸ List.mem_append_right m (List.mem_singleton_self last))
      rcases List.mem_append.mp (hm ▸ hxc) with hxm | hxl
      · have := hlt x m hm hxm
        simp only at hxi
        omega
      · obtain rfl := List.mem_singleton.mp hxl
        have := hlt x l (hlast x (by rw [hm, List.getLast?_concat]) hxi) hx
        omega
  · rcases mem_updateWithKey hx with hx | rfl
    · exact h.2 x hx
    · exact le_rfl

end BalChanges

section Commits

variable [Keccak]

def CodeDecodes (value : B256 × Bytecode) : Prop :=
  (∃ code, Bytecode.newRawChecked value.2.originalBytes = .ok code) ∧ value.2.hashSlow = value.1

/-- The new code of the transaction can be decoded and has the hash that comes with it. -/
def PendingState.CodeDecodes (p : PendingState) : Prop :=
  ∀ a x, p.accounts.lookup a = some x → ∀ info, x.present = some info →
    (x.original.getD .default).codeHash ≠ info.codeHash →
    Evm2.CodeDecodes (info.codeHash, info.code.getD Bytecode.new)

/-- The account is canonical, and its indices are not greater than `i`. -/
structure AccountBal.BuiltBelow (i : ℕ) (y : AccountBal) : Prop where
  nonce : y.accountInfo.nonce.Bounded i
  balance : y.accountInfo.balance.Bounded i
  code : y.accountInfo.code.Bounded i
  slot : ∀ k changes, y.storage.lookup k = some changes → changes.Bounded i
  decodes : ∀ change ∈ y.accountInfo.code.changes, CodeDecodes change.value

namespace AccountBal.BuiltBelow

variable {i : ℕ} {y : AccountBal}

theorem default (i : ℕ) : BuiltBelow i .default where
  nonce := ⟨List.Pairwise.nil, by simp [AccountBal.default, AccountInfoBal.default,
    BalChanges.default]⟩
  balance := ⟨List.Pairwise.nil, by simp [AccountBal.default, AccountInfoBal.default,
    BalChanges.default]⟩
  code := ⟨List.Pairwise.nil, by simp [AccountBal.default, AccountInfoBal.default,
    BalChanges.default]⟩
  slot k changes h := by cases h
  decodes change h := by cases h

theorem mono (h : BuiltBelow i y) {j : ℕ} (hj : i ≤ j) : BuiltBelow j y where
  nonce := h.nonce.mono hj
  balance := h.balance.mono hj
  code := h.code.mono hj
  slot k changes hk := (h.slot k changes hk).mono hj
  decodes := h.decodes

theorem canonical (h : BuiltBelow i y) : y.Canonical :=
  ⟨h.nonce.1, h.balance.1, h.code.1, fun k changes hk => (h.slot k changes hk).1, h.decodes⟩

/-- The condition on a call of the writer: new code can be decoded. -/
def Admits : StateChange → Prop
  | .account ref => (ref.original.getD AccountInfo.default).codeHash ≠
      (ref.current.getD .default).codeHash →
    CodeDecodes ((ref.current.getD .default).codeHash,
      (ref.current.getD .default).code.getD Bytecode.new)
  | _ => True

theorem adjust (h : BuiltBelow i y) (key : Word) {f : BalChanges Word → BalChanges Word}
    (hf : ∀ c, c.Bounded i → (f c).Bounded i) :
    BuiltBelow i { y with storage := y.storage.adjust key .default f } := by
  refine ⟨h.nonce, h.balance, h.code, fun k changes hk => ?_, h.decodes⟩
  rw [Map.lookup_adjust] at hk
  split_ifs at hk with hkey
  · obtain rfl := Option.some.inj hk
    refine hf _ ?_
    cases hl : y.storage.lookup key with
    | none => exact ⟨List.Pairwise.nil, by simp [BalChanges.default]⟩
    | some c => exact h.slot key c hl
  · exact h.slot k changes hk

theorem receive (h : BuiltBelow i y) {change : StateChange} (hc : Admits change) :
    BuiltBelow i (y.receive i change) := by
  cases change with
  | bytecode codeHash code | storageWipe address | accountRead address info => exact h
  | storage ref => exact h.adjust ref.key fun c hc => hc.updateWithKey
  | storageRead address key value => exact h.adjust key fun c hc => hc
  | account ref =>
    simp only [AccountBal.receive, AccountInfoBal.update]
    split_ifs with hhash
    · refine ⟨h.nonce.updateWithKey, h.balance.updateWithKey, h.code.updateWithKey, h.slot,
        fun change hm => ?_⟩
      rcases BalChanges.mem_updateWithKey hm with hm | rfl
      · exact h.decodes change hm
      · exact hc hhash
    · exact ⟨h.nonce.updateWithKey, h.balance.updateWithKey, h.code, h.slot, h.decodes⟩

end AccountBal.BuiltBelow

namespace Bal

open AccountBal.BuiltBelow (Admits)

variable {i : ℕ} {bal : Bal}

def BuiltBelow (i : ℕ) (bal : Bal) : Prop := ∀ a y, bal.accounts.lookup a = some y → y.BuiltBelow i

theorem BuiltBelow.sink (h : bal.BuiltBelow i) {change : StateChange} (hc : Admits change) :
    (BalWriter.sink i bal change).BuiltBelow i := by
  intro a y hy
  rw [lookup_sink] at hy
  split_ifs at hy
  · have hold : ((bal.accounts.lookup a).getD .default).BuiltBelow i := by
      cases hl : bal.accounts.lookup a with
      | none => exact .default i
      | some y₀ => exact h a y₀ hl
    cases change with
    | storageWipe address => exact h a y hy
    | bytecode | account | storage | accountRead | storageRead =>
      cases hy
      exact hold.receive hc
  · exact h a y hy

theorem admits_visit {p : PendingState} (hp : p.CodeDecodes) {change : StateChange}
    (h : change ∈ p.visit) : Admits change := by
  obtain ⟨c, hc, hchange⟩ := List.mem_flatMap.mp h
  obtain ⟨e, he, rfl⟩ := List.mem_map.mp hc
  cases change with
  | bytecode | storageWipe | storage | accountRead | storageRead => trivial
  | account ref =>
    obtain ⟨horig, hcur⟩ := AccountChanges.of_account_mem_visit hchange
    intro hhash
    rw [horig, hcur] at hhash
    rw [hcur]
    cases hpres : e.2.present with
    | none =>
      simp only [Account.changes, hpres, Option.getD_none]
      exact ⟨⟨_, rfl⟩, Bytecode.hashSlow_new⟩
    | some info =>
      simp only [Account.changes, hpres, Option.getD_some] at hhash ⊢
      exact hp e.1 e.2 (AList.mem_lookup_iff.mpr he) info hpres hhash

theorem BuiltBelow.commit (h : bal.BuiltBelow i) {p : PendingState} (hp : p.CodeDecodes) :
    (bal.commit i p).BuiltBelow i := by
  have hfold : ∀ (l : List StateChange) (bal : Bal), (∀ change ∈ l, Admits change) →
      bal.BuiltBelow i → (l.foldl (BalWriter.sink i) bal).BuiltBelow i := by
    intro l
    induction l with
    | nil => exact fun _ _ h => h
    | cons change l ih =>
      intro bal hl h
      exact ih _ (fun c hc => hl c (List.mem_cons_of_mem _ hc))
        (h.sink (hl change List.mem_cons_self))
  exact hfold p.visit bal (fun change hc => admits_visit hp hc) h

theorem BuiltBelow.mono (h : bal.BuiltBelow i) {j : ℕ} (hj : i ≤ j) : bal.BuiltBelow j :=
  fun a y hy => (h a y hy).mono hj

theorem canonical_commits {commits : List (ℕ × PendingState)}
    (hinc : commits.Pairwise fun x y => x.1 ≤ y.1) (hcode : ∀ e ∈ commits, e.2.CodeDecodes) :
    (commits.foldl (fun bal e => bal.commit e.1 e.2) Bal.new).Canonical := by
  have hfold : ∀ (l : List (ℕ × PendingState)) (bal : Bal) (i : ℕ),
      l.Pairwise (fun x y => x.1 ≤ y.1) → (∀ e ∈ l, i ≤ e.1 ∧ e.2.CodeDecodes) →
      bal.BuiltBelow i → ∃ j, (l.foldl (fun bal e => bal.commit e.1 e.2) bal).BuiltBelow j := by
    intro l
    induction l with
    | nil => exact fun bal i _ _ h => ⟨i, h⟩
    | cons e l ih =>
      intro bal i hl hmem h
      obtain ⟨hle, hl⟩ := List.pairwise_cons.mp hl
      obtain ⟨hi, he⟩ := hmem e List.mem_cons_self
      refine ih _ e.1 hl (fun e' he' => ⟨hle e' he', (hmem e' (List.mem_cons_of_mem _ he')).2⟩) ?_
      exact (h.mono hi).commit he
  obtain ⟨j, hj⟩ := hfold commits Bal.new 0 hinc (fun e he => ⟨Nat.zero_le _, hcode e he⟩)
    fun a y hy => by cases hy
  exact fun a y hy => (hj a y hy).canonical

end Bal

end Commits

theorem AccountBal.Canonical.encoded_sorted [Keccak] {y : AccountBal} (h : y.Canonical)
    (address : Address) :
    let x := y.encoded address
    x.storageReads.Pairwise (· < ·) ∧ (x.storageChanges.map SlotChanges.slot).Pairwise (· < ·) ∧
      (∀ c ∈ x.storageChanges, c.slot ∉ x.storageReads) ∧
      (∀ c ∈ x.storageChanges, BalChanges.Sorted c.changes) ∧
      BalChanges.Sorted x.balanceChanges ∧ BalChanges.Sorted x.nonceChanges ∧
      BalChanges.Sorted x.codeChanges := by
  have hwrite : ∀ c ∈ (y.encoded address).storageChanges,
      ∃ changes, y.storage.lookup c.slot = some changes ∧ changes.isEmpty = false ∧
        c.changes = changes.changes := by
    intro c hc
    obtain ⟨e, he, rfl⟩ := List.mem_map.mp hc
    obtain ⟨hl, hne⟩ := mem_writes ((y.writes.perm_sortByKey Prod.fst).mem_iff.mp he)
    exact ⟨e.2, hl, hne, rfl⟩
  refine ⟨?_, ?_, fun c hc hread => ?_, fun c hc => ?_, h.balance, h.nonce, h.sorted_encodeCode⟩
  · have := (y.reads.sortedByKey_sortByKey id).strict (by
      rw [List.map_id]
      exact (y.reads.perm_sortByKey id).nodup_iff.mpr y.nodup_reads)
    rwa [List.map_id] at this
  · have := (y.writes.sortedByKey_sortByKey Prod.fst).strict
      (((y.writes.perm_sortByKey Prod.fst).map Prod.fst).nodup_iff.mpr y.nodup_writes)
    simp only [encoded, List.map_map]
    exact this
  · obtain ⟨changes, hl, hne, -⟩ := hwrite c hc
    obtain ⟨changes', hl', hempty⟩ := mem_reads ((y.reads.perm_sortByKey id).mem_iff.mp hread)
    rw [hl] at hl'
    obtain rfl := Option.some.inj hl'
    rw [hne] at hempty
    cases hempty
  · obtain ⟨changes, hl, -, hc'⟩ := hwrite c hc
    rw [hc']
    exact h.slot c.slot changes hl

/-- **The canonical encoding round-trips.** For a list built by commits at increasing indices, the
two encoders agree, the encoding is sorted, and both decoders give the list back. -/
theorem canonical_encoding_round_trips [Keccak]
    (sort : AlloyAccountChanges → AlloyAccountChanges) (hsort : SortsLists sort)
    (commits : List (ℕ × PendingState)) (hinc : commits.Pairwise fun x y => x.1 ≤ y.1)
    (hcode : ∀ e ∈ commits, e.2.CodeDecodes) :
    let bal := commits.foldl (fun bal e => bal.commit e.1 e.2) Bal.new
    AlloyBal.ofBal bal = bal.toAlloyBal sort ∧
      ((AlloyBal.ofBal bal).map AlloyAccountChanges.address).Pairwise (· < ·) ∧
      (∀ x ∈ AlloyBal.ofBal bal, x.storageReads.Pairwise (· < ·) ∧
        (x.storageChanges.map SlotChanges.slot).Pairwise (· < ·) ∧
        (∀ c ∈ x.storageChanges, c.slot ∉ x.storageReads) ∧
        (∀ c ∈ x.storageChanges, BalChanges.Sorted c.changes) ∧
        BalChanges.Sorted x.balanceChanges ∧ BalChanges.Sorted x.nonceChanges ∧
        BalChanges.Sorted x.codeChanges) ∧
      (∃ b, Bal.tryFrom (AlloyBal.ofBal bal) = .ok b ∧ bal.Same b) ∧
      ∃ b, Bal.tryFromRef (AlloyBal.ofBal bal) = .ok b ∧ bal.Same b := by
  intro bal
  have h : bal.Canonical := Bal.canonical_commits hinc hcode
  have hdecode := h.tryFrom_encoded
  rw [h.ofBal_eq]
  refine ⟨(h.toAlloyBal_eq hsort).symm, bal.sorted_encoded, fun x hx => ?_, hdecode, ?_⟩
  · obtain ⟨y, hy, hxy⟩ := Bal.mem_encoded hx
    have hs := (h x.address y hy).encoded_sorted x.address
    rw [← hxy] at hs
    exact hs
  · rw [Bal.tryFromRef, AccountBal.tryFromRef_eq]
    exact hdecode

def AlloyAccountChanges.sort (x : AlloyAccountChanges) : AlloyAccountChanges where
  address := x.address
  storageChanges := (x.storageChanges.map fun c =>
    { c with changes := c.changes.sortByKey BalChange.blockAccessIndex }).sortByKey SlotChanges.slot
  storageReads := x.storageReads.sortByKey id
  balanceChanges := x.balanceChanges.sortByKey BalChange.blockAccessIndex
  nonceChanges := x.nonceChanges.sortByKey BalChange.blockAccessIndex
  codeChanges := x.codeChanges.sortByKey BalChange.blockAccessIndex

theorem AlloyAccountChanges.sortsLists_sort : SortsLists AlloyAccountChanges.sort where
  address _ := rfl
  storageChanges x := by
    refine ⟨fun c => { c with changes := c.changes.sortByKey BalChange.blockAccessIndex },
      ⟨List.sortedByKey_sortByKey _ _, List.perm_sortByKey _ _⟩, fun c hc => ?_⟩
    simp only [List.sortByKey_eq_self hc]
  storageReads _ := ⟨List.sortedByKey_sortByKey _ _, List.perm_sortByKey _ _⟩
  balanceChanges _ := ⟨List.sortedByKey_sortByKey _ _, List.perm_sortByKey _ _⟩
  nonceChanges _ := ⟨List.sortedByKey_sortByKey _ _, List.perm_sortByKey _ _⟩
  codeChanges _ := ⟨List.sortedByKey_sortByKey _ _, List.perm_sortByKey _ _⟩

/-- A block in which an account is created and destroyed again: its list holds one account. -/
theorem canonical_encoding_round_trips_create :
    letI := Keccak.const
    let bal := (Bal.new.commit 1 createPending).commit 2 destroyPending
    (AlloyBal.ofBal bal).map (fun x => (x.address, x.storageChanges.map SlotChanges.slot)) =
        [(1, [3])] ∧
      ∃ b, Bal.tryFrom (AlloyBal.ofBal bal) = .ok b ∧ bal.Same b := by
  let _ := Keccak.const
  have hcode : ∀ e ∈ [(1, createPending), (2, destroyPending)], e.2.CodeDecodes := by
    intro e he a x hx info hinfo hhash
    rcases List.mem_pair.mp he with rfl | rfl
    · obtain ⟨-, rfl⟩ := Map.lookup_singleton_eq_some hx
      cases hinfo
      exact absurd rfl hhash
    · obtain ⟨-, rfl⟩ := Map.lookup_singleton_eq_some hx
      cases hinfo
  obtain ⟨-, -, -, ⟨b, hb, hsame⟩, -⟩ := canonical_encoding_round_trips AlloyAccountChanges.sort
    AlloyAccountChanges.sortsLists_sort [(1, createPending), (2, destroyPending)] (by simp) hcode
  exact ⟨by decide +kernel, b, hb, hsame⟩

end Evm2
