import OrbiterSdk.Core.BlockStorage

namespace OrbiterSdk.BlockStorage

/-!
# The mappings of the storage

What the four mappings should hold, as relations over the blocks that are on the chain and
those that are known at all, in memory or in the database:

* `Mapped P Q s` — the mappings by hash are those of the blocks in `P`, the mappings by
  height those of the blocks in `Q`;
* `Unambiguous P Q` — what a set of blocks has to meet for such mappings to exist;
* `Mapped.add`, `Mapped.remove` — a block comes and a block goes.

`Indexed` is the invariant of the whole storage: the chain is linked and the mappings hold
what they should.  `getBlockAt_of_indexed` says what the query by height then answers.
-/

variable (E : Env)

/-! ### Relations over blocks -/

/-- `b` follows `a`. -/
def Link (a b : Block) : Prop := a.hash E.C = b.prevBlockHash ∧ b.nHeight = a.nHeight + 1

/-- The block with a hash. -/
def ByHash (P : Block → Prop) (hash : Hash) (b : Block) : Prop := P b ∧ b.hash E.C = hash

/-- The hash at a height. -/
def HashAt (P : Block → Prop) (height : UInt64) (hash : Hash) : Prop :=
  ∃ b, P b ∧ b.nHeight = height ∧ b.hash E.C = hash

/-- The height of a hash. -/
def HeightOf (P : Block → Prop) (hash : Hash) (height : UInt64) : Prop := HashAt E P height hash

/-- The place of a transaction: the hash of its block, its index and the height. -/
def Place (P : Block → Prop) (tx : Hash) (place : Hash × Nat × UInt64) : Prop :=
  ∃ b i t, P b ∧ b.txs[i]? = some t ∧ t.hash E.C true = tx ∧ (b.hash E.C, i, b.nHeight) = place

/-- No hash, height or transaction stands for two things. -/
structure Unambiguous (P Q : Block → Prop) : Prop where
  byHash : Relator.RightUnique (ByHash E P)
  place : Relator.RightUnique (Place E P)
  hashAt : Relator.RightUnique (HashAt E Q)
  heightOf : Relator.RightUnique (HeightOf E Q)

/-- The mappings hold exactly the entries of the blocks. -/
structure Mapped (P Q : Block → Prop) (s : BlockStorage) : Prop where
  blockByHash : s.blockByHash.Graph (ByHash E P)
  txByHash : s.txByHash.Graph (Place E P)
  blockHashByHeight : s.blockHashByHeight.Graph (HashAt E Q)
  blockHeightByHash : s.blockHeightByHash.Graph (HeightOf E Q)

variable {E} {P P' Q Q' : Block → Prop} {s s' : BlockStorage} {b : Block}

theorem HashAt.mono (h : ∀ c, P c → P' c) {height : UInt64} {hash : Hash}
    (hat : HashAt E P height hash) : HashAt E P' height hash := by
  obtain ⟨c, hc, hrest⟩ := hat
  exact ⟨c, h c hc, hrest⟩

theorem Place.mono (h : ∀ c, P c → P' c) {tx : Hash} {place : Hash × Nat × UInt64}
    (hat : Place E P tx place) : Place E P' tx place := by
  obtain ⟨c, i, t, hc, hrest⟩ := hat
  exact ⟨c, i, t, h c hc, hrest⟩

theorem Unambiguous.mono (h : Unambiguous E P' Q') (hP : ∀ c, P c → P' c) (hQ : ∀ c, Q c → Q' c) :
    Unambiguous E P Q where
  byHash _ _ _ hv hv' := h.byHash ⟨hP _ hv.1, hv.2⟩ ⟨hP _ hv'.1, hv'.2⟩
  place _ _ _ hv hv' := h.place (hv.mono hP) (hv'.mono hP)
  hashAt _ _ _ hv hv' := h.hashAt (hv.mono hQ) (hv'.mono hQ)
  heightOf _ _ _ hv hv' := h.heightOf (HashAt.mono hQ hv) (HashAt.mono hQ hv')

namespace Mapped

theorem unambiguous (h : Mapped E P Q s) : Unambiguous E P Q :=
  ⟨h.blockByHash.rightUnique, h.txByHash.rightUnique, h.blockHashByHeight.rightUnique,
    h.blockHeightByHash.rightUnique⟩

theorem congr (h : Mapped E P Q s) (hP : ∀ c, P c ↔ P' c) (hQ : ∀ c, Q c ↔ Q' c)
    (hblocks : s'.blockByHash = s.blockByHash) (htxs : s'.txByHash = s.txByHash)
    (hhashes : s'.blockHashByHeight = s.blockHashByHeight)
    (hheights : s'.blockHeightByHash = s.blockHeightByHash) : Mapped E P' Q' s' := by
  obtain rfl : P = P' := funext fun c => propext (hP c)
  obtain rfl : Q = Q' := funext fun c => propext (hQ c)
  refine ⟨?_, ?_, ?_, ?_⟩
  · rw [hblocks]; exact h.blockByHash
  · rw [htxs]; exact h.txByHash
  · rw [hhashes]; exact h.blockHashByHeight
  · rw [hheights]; exact h.blockHeightByHash

theorem empty (db : DB) : Mapped E (fun _ => False) (fun _ => False) (ofDB db) where
  blockByHash := AssocMap.Graph.empty.congr fun k v => by simp [ByHash]
  txByHash := AssocMap.Graph.empty.congr fun k v => by simp [Place]
  blockHashByHeight := AssocMap.Graph.empty.congr fun k v => by simp [HashAt]
  blockHeightByHash := AssocMap.Graph.empty.congr fun k v => by simp [HeightOf, HashAt]

end Mapped

/-! ### A block comes -/

theorem hashAt_or (height : UInt64) (hash : Hash) :
    HashAt E (fun c => Q c ∨ c = b) height hash ↔
      HashAt E Q height hash ∨ (height = b.nHeight ∧ hash = b.hash E.C) := by
  constructor
  · rintro ⟨c, hc | rfl, hn, hh⟩
    · exact Or.inl ⟨c, hc, hn, hh⟩
    · exact Or.inr ⟨hn.symm, hh.symm⟩
  · rintro (⟨c, hc, hrest⟩ | ⟨rfl, rfl⟩)
    · exact ⟨c, Or.inl hc, hrest⟩
    · exact ⟨b, Or.inr rfl, rfl, rfl⟩

theorem place_or (tx : Hash) (place : Hash × Nat × UInt64) :
    Place E (fun c => P c ∨ c = b) tx place ↔ Place E P tx place ∨
      ∃ p ∈ b.txs.zipIdx, p.1.hash E.C true = tx ∧ (b.hash E.C, p.2, b.nHeight) = place := by
  constructor
  · rintro ⟨c, i, t, hc | rfl, ht, hrest⟩
    · exact Or.inl ⟨c, i, t, hc, ht, hrest⟩
    · exact Or.inr ⟨(t, i), List.mem_zipIdx_iff_getElem?.mpr ht, hrest⟩
  · rintro (⟨c, i, t, hc, hrest⟩ | ⟨p, hp, hrest⟩)
    · exact ⟨c, i, t, Or.inl hc, hrest⟩
    · exact ⟨b, p.2, p.1, Or.inr rfl, List.mem_zipIdx_iff_getElem?.mp hp, hrest⟩

theorem graph_hashAt {hashes : AssocMap UInt64 Hash} (h : hashes.Graph (HashAt E Q))
    (hu : Relator.RightUnique (HashAt E fun c => Q c ∨ c = b)) :
    (hashes.emplace b.nHeight (b.hash E.C)).Graph (HashAt E fun c => Q c ∨ c = b) := by
  refine (h.emplace fun hash hat => ?_).congr fun n hash => (hashAt_or n hash).symm
  exact hu ((hashAt_or _ _).mpr (Or.inl hat)) ((hashAt_or _ _).mpr (Or.inr ⟨rfl, rfl⟩))

theorem graph_heightOf {heights : AssocMap Hash UInt64} (h : heights.Graph (HeightOf E Q))
    (hu : Relator.RightUnique (HeightOf E fun c => Q c ∨ c = b)) :
    (heights.emplace (b.hash E.C) b.nHeight).Graph (HeightOf E fun c => Q c ∨ c = b) := by
  refine (h.emplace fun n hat => ?_).congr fun hash n => ?_
  · exact hu ((hashAt_or _ _).mpr (Or.inl hat)) ((hashAt_or _ _).mpr (Or.inr ⟨rfl, rfl⟩))
  · refine Iff.trans ?_ (hashAt_or n hash).symm
    rw [and_comm]
    rfl

/-- **A block comes.**  As long as nothing becomes ambiguous, its entries are added. -/
theorem Mapped.add (h : Mapped E P Q s)
    (hu : Unambiguous E (fun c => P c ∨ c = b) (fun c => Q c ∨ c = b)) :
    Mapped E (fun c => P c ∨ c = b) (fun c => Q c ∨ c = b) (s.addToMappings E b) where
  blockByHash := by
    refine (h.blockByHash.emplace fun c hc => ?_).congr fun hash c => ?_
    · exact hu.byHash ⟨Or.inl hc.1, hc.2⟩ ⟨Or.inr rfl, rfl⟩
    · constructor
      · rintro (⟨hc, rfl⟩ | ⟨rfl, rfl⟩)
        · exact ⟨Or.inl hc, rfl⟩
        · exact ⟨Or.inr rfl, rfl⟩
      · rintro ⟨hc | rfl, rfl⟩
        · exact Or.inl ⟨hc, rfl⟩
        · exact Or.inr ⟨rfl, rfl⟩
  txByHash := by
    refine (h.txByHash.emplaceAll _ ?_).congr fun tx place => (place_or tx place).symm
    intro tx p p' hp hp'
    exact hu.place ((place_or tx p).mpr hp) ((place_or tx p').mpr hp')
  blockHashByHeight := graph_hashAt h.blockHashByHeight hu.hashAt
  blockHeightByHash := graph_heightOf h.blockHeightByHash hu.heightOf

/-! ### A block goes -/

/-- **A block goes.**  Its entries by hash are removed; those by height are right when
    another block that is known has the same hash and height. -/
theorem Mapped.remove (h : Mapped E P Q s) (hb : P b)
    (hQ : ∀ n hash, HashAt E Q' n hash ↔ HashAt E Q n hash) :
    Mapped E (fun c => P c ∧ c ≠ b) Q' (s.removeFromMappings E b) where
  blockByHash := by
    refine (h.blockByHash.erase _).congr fun hash c => ?_
    constructor
    · rintro ⟨⟨hc, rfl⟩, hne⟩
      exact ⟨⟨hc, fun he => hne (by rw [he])⟩, rfl⟩
    · rintro ⟨⟨hc, hne⟩, rfl⟩
      refine ⟨⟨hc, rfl⟩, fun he => hne ?_⟩
      exact h.unambiguous.byHash ⟨hc, rfl⟩ ⟨hb, he.symm⟩
  txByHash := by
    refine (h.txByHash.eraseAll _).congr fun tx place => ?_
    constructor
    · rintro ⟨⟨c, i, t, hc, ht, rfl, hplace⟩, hother⟩
      refine ⟨c, i, t, ⟨hc, ?_⟩, ht, rfl, hplace⟩
      rintro rfl
      exact hother t (List.mem_of_getElem? ht) rfl
    · rintro ⟨c, i, t, ⟨hc, hne⟩, ht, rfl, rfl⟩
      refine ⟨⟨c, i, t, hc, ht, rfl, rfl⟩, fun t' ht' he => hne ?_⟩
      -- A transaction of both blocks would have two places.
      obtain ⟨j, hj⟩ := List.getElem?_of_mem ht'
      have hsame := h.unambiguous.place ⟨c, i, t, hc, ht, rfl, rfl⟩ ⟨b, j, t', hb, hj, he, rfl⟩
      exact h.unambiguous.byHash ⟨hc, rfl⟩ ⟨hb, (congrArg Prod.fst hsame).symm⟩
  blockHashByHeight := h.blockHashByHeight.congr fun n hash => (hQ n hash).symm
  blockHeightByHash := h.blockHeightByHash.congr fun hash n => (hQ n hash).symm

/-! ### The ends of the chain -/

theorem pushBack_eq_ok (h : s.pushBack E b = .ok s') :
    (∀ back, s.chain.getLast? = some back → Link E back b) ∧
      s' = { s.addToMappings E b with chain := s.chain ++ [b] } := by
  unfold pushBack at h
  split at h
  · rename_i hnone
    cases h
    refine ⟨fun back hback => ?_, rfl⟩
    rw [hnone] at hback
    cases hback
  · rename_i back hsome
    split at h
    · cases h
    · rename_i hprev
      split at h
      · cases h
      · rename_i hheight
        cases h
        refine ⟨fun back' hback => ?_, rfl⟩
        cases hsome.symm.trans hback
        exact ⟨not_not.mp hprev, not_not.mp hheight⟩

theorem pushFront_eq_ok (h : s.pushFront E b = .ok s') :
    (∀ front, s.chain.head? = some front → Link E b front) ∧
      s' = { s.addToMappings E b with chain := b :: s.chain } := by
  unfold pushFront at h
  split at h
  · rename_i hnone
    cases h
    refine ⟨fun front hfront => ?_, rfl⟩
    rw [hnone] at hfront
    cases hfront
  · rename_i front hsome
    split at h
    · cases h
    · rename_i hprev
      split at h
      · cases h
      · rename_i hheight
        cases h
        refine ⟨fun front' hfront => ?_, rfl⟩
        cases hsome.symm.trans hfront
        refine ⟨(not_not.mp hprev).symm, ?_⟩
        rw [not_not.mp hheight, UInt64.sub_add_cancel]

theorem pushFront_of_link (h : ∀ front, s.chain.head? = some front → Link E b front) :
    s.pushFront E b = .ok { s.addToMappings E b with chain := b :: s.chain } := by
  unfold pushFront
  split
  · rfl
  · rename_i front hsome
    obtain ⟨hprev, hheight⟩ := h front hsome
    rw [if_neg (not_not.mpr hprev.symm), hheight, UInt64.add_sub_cancel,
      if_neg (not_not.mpr rfl)]

theorem popBack_eq_ok (h : s.popBack E = .ok s') :
    ∃ init block, s.chain = init ++ [block] ∧
      s' = { s.removeFromMappings E block with chain := init } := by
  unfold popBack at h
  split at h
  · cases h
  · rename_i block hsome
    cases h
    obtain ⟨init, hinit⟩ := List.getLast?_eq_some_iff.mp hsome
    refine ⟨init, block, hinit, ?_⟩
    rw [hinit, List.dropLast_concat]

theorem popFront_eq_ok (h : s.popFront E = .ok s') :
    ∃ block tail, s.chain = block :: tail ∧
      s' = { s.removeFromMappings E block with chain := tail } := by
  unfold popFront at h
  split at h
  · cases h
  · rename_i block tail hchain
    cases h
    exact ⟨block, tail, hchain, rfl⟩

/-! ### The whole storage -/

section

variable (E)

/-- The database has the block under its hash and the hash at its height. -/
def Archived (db : DB) (b : Block) : Prop :=
  (∃ data, (db.entries .blocks).lookup (b.hash E.C).data = some data ∧
    Block.parse E.C E.thrNum data E.chainId = .ok b) ∧
  (db.entries .blockHeightMaps).lookup (uint64ToBytes b.nHeight) = some (b.hash E.C).data

/-- The block is on the chain or in the database. -/
def Known (s : BlockStorage) (b : Block) : Prop := b ∈ s.chain ∨ Archived E s.db b

/-- **The index invariant.** -/
structure Indexed (s : BlockStorage) : Prop where
  linked : s.chain.IsChain (Link E)
  nodup : s.chain.Nodup
  mapped : Mapped E (· ∈ s.chain) (Known E s) s

/-- The answer at a height: the block that is known there, or nothing. -/
def AnswersAt (s : BlockStorage) (height : UInt64) : Prop :=
  (∃ b, (s.getBlockAt E height).1 = .ok (some b) ∧ b.nHeight = height ∧ Known E s b) ∨
  (s.blockExistsAt height = .NotFound ∧ (s.getBlockAt E height).1 = .ok none)

end

theorem Archived.readBlock {db : DB} (h : Archived E db b) : readBlock E db (b.hash E.C) = .ok b := by
  obtain ⟨⟨data, hdata, hparse⟩, -⟩ := h
  rw [BlockStorage.readBlock, DB.get_of_lookup hdata]
  exact hparse

/-- **Queries by height.**  With the index invariant and nothing cached, the answer is the
    block known at that height. -/
theorem getBlockAt_of_indexed (h : Indexed E s) (hcache : s.cachedBlocks = ∅) (height : UInt64) :
    AnswersAt E s height := by
  cases hlook : s.blockHashByHeight.lookup height with
  | none =>
    have hstatus : s.blockExistsAt height = .NotFound := by rw [blockExistsAt, hlook]
    refine Or.inr ⟨hstatus, ?_⟩
    rw [getBlockAt, hstatus]
  | some hash =>
    obtain ⟨b, hb, hheight, hhash⟩ := (h.mapped.blockHashByHeight height hash).mp hlook
    have hnocache : hash ∉ s.cachedBlocks := by rw [hcache]; exact List.not_mem_nil
    by_cases hmem : hash ∈ s.blockByHash
    · -- Some block of the chain has that hash, and then that height.
      obtain ⟨c, hc⟩ := AssocMap.mem_iff_lookup.mp hmem
      obtain ⟨hchain, hhash'⟩ := (h.mapped.blockByHash hash c).mp hc
      have hstatus : s.blockExistsAt height = .OnChain := by
        rw [blockExistsAt, hlook]
        exact if_pos hmem
      refine Or.inl ⟨c, ?_, ?_, Or.inl hchain⟩
      · rw [getBlockAt, hstatus, hlook]
        exact congrArg Except.ok hc
      · exact h.mapped.unambiguous.heightOf ⟨c, Or.inl hchain, rfl, hhash'⟩ ⟨b, hb, hheight, hhash⟩
    · have harchived : Archived E s.db b := by
        refine hb.resolve_left fun hchain => hmem ?_
        exact h.mapped.blockByHash.mem_iff.mpr ⟨b, hchain, hhash⟩
      have hstatus : s.blockExistsAt height = .OnDB := by
        rw [blockExistsAt, hlook]
        exact (if_neg hmem).trans (if_neg hnocache)
      refine Or.inl ⟨b, ?_, hheight, hb⟩
      subst hhash
      rw [getBlockAt, hstatus, hlook]
      show (cacheBlock E s (b.hash E.C)).1 = _
      rw [cacheBlock, harchived.readBlock]
      show Except.ok ((s.cachedBlocks.emplace (b.hash E.C) b).lookup (b.hash E.C)) = _
      rw [AssocMap.lookup_emplace_self_of_notMem _ hnocache]

end OrbiterSdk.BlockStorage
