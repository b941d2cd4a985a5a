import OrbiterSdk.Core.BlockRoundTrip
import OrbiterSdk.Core.Recorded
import OrbiterSdk.Core.StorageIndex
import OrbiterSdk.Lib.Machine

namespace OrbiterSdk.BlockStorage

/-!
# Saving and loading the chain

A node pushes blocks, is shut down and comes up again, any number of times.  What its
storage stands for is the list of all blocks since the first:

* `Holds db saved` — the database holds the entries of the saved blocks and nothing else;
* `Represents blocks s` — the chain in memory is the end of `blocks`, whatever is not in
  memory is saved, and the mappings are those of `blocks`;
* `load_of_holds`, `save_of_represents`, `Represents.pushBack` — the constructor, the
  destructor and `pushBack` keep that;
* `Represents.getBlock`, `Represents.getBlockAt`, `Represents.getTx` — the answers, in terms
  of `blocks` alone.

`restart_answers` puts this together: a restart changes no answer.
-/

/-! ### Histories -/

section

variable (E : Env)

/-- The block fits in a database value and can be read back from it. -/
structure Storable (b : Block) : Prop where
  parse : Block.parse E.C E.thrNum b.serializeBlock E.chainId = .ok b
  fits : b.serializeBlock.length < 2 ^ 32

/-- What the blocks of a history have to meet: they can be stored, Keccak has no collision
    among their headers, no transaction hash occurs twice, and there are no more of them than
    heights. -/
structure Admissible (blocks : List Block) : Prop where
  storable : ∀ b ∈ blocks, Storable E b
  collisionFree : ∀ b ∈ blocks, ∀ c ∈ blocks, b.hash E.C = c.hash E.C →
    b.serializeHeader = c.serializeHeader
  txs : (blocks.flatMap fun b => b.txs.map fun tx => tx.hash E.C true).Nodup
  length_le : blocks.length ≤ 2 ^ 64

/-- The blocks are linked and begin at height zero. -/
structure Linked (blocks : List Block) : Prop where
  links : blocks.IsChain (Link E)
  height : ∀ i b, blocks[i]? = some b → b.nHeight = UInt64.ofNat i

end

variable {E : Env} {blocks saved : List Block} {s s' : BlockStorage} {b : Block} {db : DB}

theorem Admissible.left {later : List Block} (h : Admissible E (blocks ++ later)) :
    Admissible E blocks where
  storable b hb := h.storable b (List.mem_append_left _ hb)
  collisionFree b hb c hc :=
    h.collisionFree b (List.mem_append_left _ hb) c (List.mem_append_left _ hc)
  txs := by
    have hn := h.txs
    rw [List.flatMap_append] at hn
    exact hn.of_append_left
  length_le := by
    have hl := h.length_le
    rw [List.length_append] at hl
    omega

theorem Linked.eq_of_height (h : Linked E blocks) (hlen : blocks.length ≤ 2 ^ 64) {c : Block}
    (hb : b ∈ blocks) (hc : c ∈ blocks) (hheight : b.nHeight = c.nHeight) : b = c := by
  obtain ⟨i, hi⟩ := List.getElem?_of_mem hb
  obtain ⟨j, hj⟩ := List.getElem?_of_mem hc
  have hilen := (List.getElem?_eq_some_iff.mp hi).1
  have hjlen := (List.getElem?_eq_some_iff.mp hj).1
  rw [h.height i b hi, h.height j c hj] at hheight
  have hnat := congrArg UInt64.toNat hheight
  rw [UInt64.toNat_ofNat', UInt64.toNat_ofNat', Nat.mod_eq_of_lt (by omega),
    Nat.mod_eq_of_lt (by omega)] at hnat
  subst hnat
  exact Option.some.inj (hi.symm.trans hj)

theorem nHeight_of_serializeHeader {b c : Block} (h : b.serializeHeader = c.serializeHeader) :
    b.nHeight = c.nHeight := by
  have hheight := List.append_inj_right' h (by rw [BigEndian.length_fixed, BigEndian.length_fixed])
  exact UInt64.toNat_inj.mp (BigEndian.fixed_injective b.nHeight.toNat_lt c.nHeight.toNat_lt hheight)

theorem Admissible.eq_of_hash (h : Admissible E blocks) (hl : Linked E blocks) {c : Block}
    (hb : b ∈ blocks) (hc : c ∈ blocks) (hhash : b.hash E.C = c.hash E.C) : b = c :=
  hl.eq_of_height h.length_le hb hc (nHeight_of_serializeHeader (h.collisionFree b hb c hc hhash))

theorem Linked.nodup (h : Linked E blocks) (hlen : blocks.length ≤ 2 ^ 64) : blocks.Nodup := by
  refine List.pairwise_iff_getElem.mpr fun i j hi hj hij he => ?_
  have hheight : UInt64.ofNat i = UInt64.ofNat j := by
    rw [← h.height i _ (List.getElem?_eq_getElem hi), ← h.height j _ (List.getElem?_eq_getElem hj),
      he]
  have hnat := congrArg UInt64.toNat hheight
  rw [UInt64.toNat_ofNat', UInt64.toNat_ofNat', Nat.mod_eq_of_lt (by omega),
    Nat.mod_eq_of_lt (by omega)] at hnat
  omega

theorem Admissible.place_unique (h : Admissible E blocks) {c : Block} {i j : Nat} {t u : TxBlock}
    (hb : b ∈ blocks) (hi : b.txs[i]? = some t) (hc : c ∈ blocks) (hj : c.txs[j]? = some u)
    (htu : t.hash E.C true = u.hash E.C true) : b = c ∧ i = j := by
  obtain ⟨hnodup, hdisjoint⟩ := List.nodup_flatMap.mp h.txs
  have hbc : b = c := by
    by_contra hne
    have hsymm : Std.Symm (Function.onFun List.Disjoint
        fun b : Block => b.txs.map fun tx => tx.hash E.C true) := ⟨fun _ _ hd => hd.symm⟩
    refine hdisjoint.forall hb hc hne (List.mem_map_of_mem (List.mem_of_getElem? hi)) ?_
    rw [htu]
    exact List.mem_map_of_mem (List.mem_of_getElem? hj)
  subst hbc
  refine ⟨rfl, ?_⟩
  have hlen := (List.getElem?_eq_some_iff.mp hi).1
  refine (List.getElem?_inj (by rwa [List.length_map]) (hnodup b hb)).mp ?_
  rw [List.getElem?_map, List.getElem?_map, hi, hj, Option.map_some, Option.map_some, htu]

theorem Admissible.unambiguous (h : Admissible E blocks) (hl : Linked E blocks) :
    Unambiguous E (· ∈ blocks) (· ∈ blocks) where
  byHash := by
    rintro hash b c ⟨hb, hbh⟩ ⟨hc, hch⟩
    exact h.eq_of_hash hl hb hc (hbh.trans hch.symm)
  place := by
    rintro tx p p' ⟨b, i, t, hb, hi, ht, rfl⟩ ⟨c, j, u, hc, hj, hu, rfl⟩
    obtain ⟨rfl, rfl⟩ := h.place_unique hb hi hc hj (ht.trans hu.symm)
    rfl
  hashAt := by
    rintro n hash hash' ⟨b, hb, hbn, rfl⟩ ⟨c, hc, hcn, rfl⟩
    rw [hl.eq_of_height h.length_le hb hc (hbn.trans hcn.symm)]
  heightOf := by
    rintro hash n n' ⟨b, hb, rfl, hbh⟩ ⟨c, hc, rfl, hch⟩
    rw [h.eq_of_hash hl hb hc (hbh.trans hch.symm)]

/-! ### What is in the database -/

section

variable (E)

/-- The database holds the saved blocks, their heights and their transactions, and a latest
    block. -/
structure Holds (db : DB) (saved : List Block) : Prop where
  blocks : ∃ latest, (db.entries .blocks).Graph fun k v =>
    (k ≠ latestKey ∧ (k, v) ∈ blockBatch E saved) ∨ (k = latestKey ∧ v = latest)
  heights : (db.entries .blockHeightMaps).Graph fun k v => (k, v) ∈ heightBatch E saved
  txs : (db.entries .txToBlocks).Graph fun k v => (k, v) ∈ txToBlockBatch E saved

end

theorem data_ne_latestKey (hash : Hash) : hash.data ≠ latestKey := by
  intro h
  have hlen := congrArg List.length h
  rw [hash.size_eq] at hlen
  cases hlen

theorem mem_blockBatch {k v : Bytes} : (k, v) ∈ blockBatch E blocks ↔
    ∃ b ∈ blocks, (b.hash E.C).data = k ∧ b.serializeBlock = v := by
  simp [blockBatch]

theorem mem_heightBatch {k v : Bytes} : (k, v) ∈ heightBatch E blocks ↔
    ∃ b ∈ blocks, uint64ToBytes b.nHeight = k ∧ (b.hash E.C).data = v := by
  simp [heightBatch]

theorem mem_txToBlockBatch {k v : Bytes} : (k, v) ∈ txToBlockBatch E blocks ↔
    ∃ b ∈ blocks, ∃ i t, b.txs[i]? = some t ∧ (t.hash E.C true).data = k ∧
      txValue E b i = v := by
  simp only [txToBlockBatch, List.mem_flatMap, List.mem_map, Prod.exists, Prod.mk.injEq,
    List.mem_zipIdx_iff_getElem?]
  constructor
  · rintro ⟨b, hb, t, i, hi, hrest⟩
    exact ⟨b, hb, i, t, hi, hrest⟩
  · rintro ⟨b, hb, i, t, hi, hrest⟩
    exact ⟨b, hb, t, i, hi, hrest⟩

theorem uint64ToBytes_inj {n m : UInt64} (h : uint64ToBytes n = uint64ToBytes m) : n = m :=
  UInt64.toNat_inj.mp (BigEndian.fixed_injective n.toNat_lt m.toNat_lt h)

namespace Holds

theorem lookup_block (h : Holds E db saved) (hb : b ∈ saved) :
    (db.entries .blocks).lookup (b.hash E.C).data = some b.serializeBlock := by
  obtain ⟨latest, hgraph⟩ := h.blocks
  exact (hgraph _ _).mpr
    (Or.inl ⟨data_ne_latestKey _, mem_blockBatch.mpr ⟨b, hb, rfl, rfl⟩⟩)

theorem of_lookup_block (h : Holds E db saved) {hash : Hash} {data : Bytes}
    (hlook : (db.entries .blocks).lookup hash.data = some data) :
    ∃ b ∈ saved, b.hash E.C = hash ∧ b.serializeBlock = data := by
  obtain ⟨latest, hgraph⟩ := h.blocks
  rcases (hgraph _ _).mp hlook with ⟨-, hmem⟩ | ⟨hkey, -⟩
  · obtain ⟨b, hb, hhash, hdata⟩ := mem_blockBatch.mp hmem
    exact ⟨b, hb, FixedStr.ext hhash, hdata⟩
  · exact absurd hkey (data_ne_latestKey hash)

theorem has_iff (h : Holds E db saved) {hash : Hash} :
    db.has hash.data .blocks = true ↔ ∃ b ∈ saved, b.hash E.C = hash := by
  rw [DB.has_iff]
  constructor
  · rintro ⟨data, hlook⟩
    obtain ⟨b, hb, hhash, -⟩ := h.of_lookup_block hlook
    exact ⟨b, hb, hhash⟩
  · rintro ⟨b, hb, rfl⟩
    exact ⟨_, h.lookup_block hb⟩

theorem readBlock (h : Holds E db saved) (hadm : ∀ b ∈ saved, Storable E b) (hb : b ∈ saved) :
    readBlock E db (b.hash E.C) = .ok b := by
  rw [BlockStorage.readBlock, DB.get_of_lookup (h.lookup_block hb)]
  exact (hadm b hb).parse

theorem archived_iff (h : Holds E db saved) (hadm : ∀ b ∈ saved, Storable E b) :
    Archived E db b ↔ b ∈ saved := by
  constructor
  · rintro ⟨⟨data, hlook, hparse⟩, -⟩
    obtain ⟨c, hc, -, rfl⟩ := h.of_lookup_block hlook
    rw [(hadm c hc).parse] at hparse
    cases hparse
    exact hc
  · intro hb
    exact ⟨⟨_, h.lookup_block hb, (hadm b hb).parse⟩,
      (h.heights _ _).mpr (mem_heightBatch.mpr ⟨b, hb, rfl, rfl⟩)⟩

end Holds

/-! ### The constructor -/

section

variable (E)

/-- **What a storage stands for.** -/
structure Represents (blocks : List Block) (s : BlockStorage) : Prop where
  linked : Linked E blocks
  suffix : s.chain <:+ blocks
  ne : s.chain ≠ []
  saved : ∃ saved, Holds E s.db saved ∧ ∀ b, b ∈ blocks ↔ b ∈ saved ∨ b ∈ s.chain
  mapped : Mapped E (· ∈ s.chain) (· ∈ blocks) s
  cachedBlocks : s.cachedBlocks = ∅
  cachedTxs : s.cachedTxs = ∅

/-- A storage that is being loaded: the mappings by height are there, and the last `n`
    blocks. -/
structure Loading (db : DB) (blocks : List Block) (n : Nat) (s : BlockStorage) : Prop where
  db : s.db = db
  chain : s.chain = blocks.drop (blocks.length - n)
  mapped : Mapped E (· ∈ s.chain) (· ∈ blocks) s
  cachedBlocks : s.cachedBlocks = ∅
  cachedTxs : s.cachedTxs = ∅

end

theorem bytesToUint64_uint64ToBytes (n : UInt64) :
    Block.bytesToUint64 (uint64ToBytes n) = .ok n.toNat := by
  have hlen : (uint64ToBytes n).length = 8 := BigEndian.length_fixed 8 _
  rw [Block.bytesToUint64, if_neg (not_not.mpr hlen), uint64ToBytes, BigEndian.decode_fixed,
    Nat.mod_eq_of_lt (show n.toNat < 256 ^ 8 from n.toNat_lt)]

theorem loadMappings {l : List (Bytes × Bytes)} {Q : Block → Prop}
    (hu : Unambiguous E (· ∈ blocks) (· ∈ blocks)) (hQ : ∀ c, Q c → c ∈ blocks)
    (hs : Mapped E (fun _ => False) Q s)
    (hl : ∀ e ∈ l, ∃ b ∈ blocks, e = (uint64ToBytes b.nHeight, (b.hash E.C).data)) :
    ∃ s', l.foldlM loadMapping s = .ok s' ∧ s'.db = s.db ∧ s'.chain = s.chain ∧
      s'.cachedBlocks = s.cachedBlocks ∧ s'.cachedTxs = s.cachedTxs ∧
      ∃ Q' : Block → Prop, Mapped E (fun _ => False) Q' s' ∧ (∀ c, Q c → Q' c) ∧
        (∀ c, Q' c → c ∈ blocks) ∧
        ∀ e ∈ l, ∃ b, Q' b ∧ e = (uint64ToBytes b.nHeight, (b.hash E.C).data) := by
  induction l generalizing s Q with
  | nil => exact ⟨s, rfl, rfl, rfl, rfl, rfl, Q, hs, fun _ h => h, hQ, by simp⟩
  | cons e l ih =>
    obtain ⟨b, hb, rfl⟩ := hl e (by simp)
    have hQb : ∀ c, Q c ∨ c = b → c ∈ blocks := by
      rintro c (hc | rfl)
      · exact hQ c hc
      · exact hb
    have hub : Unambiguous E (fun _ => False) fun c => Q c ∨ c = b :=
      hu.mono (fun _ h => h.elim) hQb
    set s₁ : BlockStorage := { s with
      blockHashByHeight := s.blockHashByHeight.emplace b.nHeight (b.hash E.C)
      blockHeightByHash := s.blockHeightByHash.emplace (b.hash E.C) b.nHeight } with hs₁
    have hstep : loadMapping s (uint64ToBytes b.nHeight, (b.hash E.C).data) = .ok s₁ := by
      rw [loadMapping, bytesToUint64_uint64ToBytes, hs₁]
      show Except.ok _ = _
      rw [UInt64.ofNat_toNat, FixedStr.ofBytes_data]
    have hmapped : Mapped E (fun _ => False) (fun c => Q c ∨ c = b) s₁ :=
      ⟨hs.blockByHash, hs.txByHash, graph_hashAt hs.blockHashByHeight hub.hashAt,
        graph_heightOf hs.blockHeightByHash hub.heightOf⟩
    obtain ⟨s', hrun, hdb, hchain, hcb, hct, Q', hm, hQ', hmem, hall⟩ :=
      ih hQb hmapped fun e he => hl e (by simp [he])
    refine ⟨s', ?_, hdb, hchain, hcb, hct, Q', hm, fun c hc => hQ' c (Or.inl hc), hmem, ?_⟩
    · rw [List.foldlM_cons, hstep]
      exact hrun
    · intro e he
      rcases List.mem_cons.mp he with rfl | he
      · exact ⟨b, hQ' b (Or.inr rfl), rfl⟩
      · exact hall e he

theorem Loading.loadBlock (h : Loading E db blocks n s) (hholds : Holds E db blocks)
    (hadm : Admissible E blocks) (hl : Linked E blocks) (hn : n < blocks.length) :
    ∃ s', s.loadBlock E (UInt64.ofNat (blocks.length - 1 - n)) = .ok s' ∧
      Loading E db blocks (n + 1) s' := by
  obtain ⟨b, hget⟩ : ∃ b, blocks[blocks.length - 1 - n]? = some b :=
    ⟨_, List.getElem?_eq_getElem (by omega)⟩
  have hb : b ∈ blocks := List.mem_of_getElem? hget
  have hheight : b.nHeight = UInt64.ofNat (blocks.length - 1 - n) := hl.height _ _ hget
  have hlook : s.blockHashByHeight.lookup b.nHeight = some (b.hash E.C) :=
    (h.mapped.blockHashByHeight _ _).mpr ⟨b, hb, rfl, rfl⟩
  -- `operator[]` finds the entry that is there.
  have hsame : s.blockHashByHeight.emplace b.nHeight FixedStr.zero = s.blockHashByHeight :=
    AssocMap.lookup_emplace_of_mem _ (AssocMap.mem_iff_lookup.mpr ⟨_, hlook⟩)
  have hdrop : blocks.drop (blocks.length - (n + 1)) = b :: s.chain := by
    rw [h.chain, show blocks.length - (n + 1) = blocks.length - 1 - n by omega,
      List.drop_eq_getElem_cons (by omega),
      show blocks.length - 1 - n + 1 = blocks.length - n by omega]
    rw [List.getElem?_eq_getElem (by omega)] at hget
    rw [Option.some.inj hget]
  have hlink : ∀ front, s.chain.head? = some front → Link E b front := by
    intro front hfront
    obtain ⟨tail, htail⟩ := List.head?_eq_some_iff.mp hfront
    have hsuffix : (b :: front :: tail).IsChain (Link E) := by
      rw [← htail, ← hdrop]
      exact hl.links.drop _
    exact (List.isChain_cons_cons.mp hsuffix).1
  have hchain : ∀ c, c ∈ s.chain → c ∈ blocks := by
    intro c hc
    rw [h.chain] at hc
    exact List.mem_of_mem_drop hc
  refine ⟨{ s.addToMappings E b with chain := b :: s.chain }, ?_, ?_⟩
  · rw [← hheight, BlockStorage.loadBlock]
    have hread : readBlock E s.db (b.hash E.C) = .ok b := by
      rw [h.db]
      exact hholds.readBlock hadm.storable hb
    simp only [hsame, hlook, Option.getD_some, hread]
    exact pushFront_of_link hlink
  · refine ⟨h.db, hdrop.symm, ?_, h.cachedBlocks, h.cachedTxs⟩
    have hu : Unambiguous E (fun c => c ∈ s.chain ∨ c = b) fun c => c ∈ blocks ∨ c = b := by
      refine (hadm.unambiguous hl).mono ?_ ?_
      · rintro c (hc | rfl)
        · exact hchain c hc
        · exact hb
      · rintro c (hc | rfl)
        · exact hc
        · exact hb
    refine (h.mapped.add hu).congr (fun c => ?_) (fun c => ?_) rfl rfl rfl rfl
    · rw [List.mem_cons, or_comm]
    · exact ⟨fun hc => hc.elim id fun he => he ▸ hb, Or.inl⟩

theorem Loading.loadBlocks (h : Loading E db blocks 0 s) (hholds : Holds E db blocks)
    (hadm : Admissible E blocks) (hl : Linked E blocks) {n : Nat} (hn : n ≤ blocks.length) :
    ∃ s', (List.range n).foldlM (fun s i => s.loadBlock E
        (UInt64.ofNat (blocks.length - 1) - UInt64.ofNat i)) s = .ok s' ∧
      Loading E db blocks n s' := by
  induction n with
  | zero => exact ⟨s, rfl, h⟩
  | succ n ih =>
    obtain ⟨s₁, hrun, h₁⟩ := ih (by omega)
    obtain ⟨s', hstep, h'⟩ := h₁.loadBlock hholds hadm hl (by omega)
    refine ⟨s', ?_, h'⟩
    rw [List.range_succ, List.foldlM_append, hrun]
    refine Except.bind_eq_ok.mpr ⟨s₁, rfl, ?_⟩
    rw [List.foldlM_cons, ← UInt64.ofNat_sub (by omega), hstep]
    rfl

theorem initializeBlockchain_of_latest {db : DB} {v : Bytes}
    (hlatest : (db.entries .blocks).lookup latestKey = some v) : initializeBlockchain E db = db := by
  rw [initializeBlockchain, if_pos (DB.has_iff.mpr ⟨v, hlatest⟩)]

/-- **The constructor** on a database that holds the blocks of a history, the last of them
    as the latest. -/
theorem load_of_holds (hholds : Holds E db blocks) (hadm : Admissible E blocks)
    (hl : Linked E blocks) {last : Block} (hlast : blocks.getLast? = some last)
    (hlatest : (db.entries .blocks).lookup latestKey = some last.serializeBlock) :
    ∃ s, load E db = .ok s ∧ Holds E s.db blocks ∧ Represents E blocks s := by
  have hmem : last ∈ blocks := List.mem_of_getLast? hlast
  have hne : blocks ≠ [] := List.ne_nil_of_mem hmem
  have hlen : 0 < blocks.length := List.length_pos_iff.mpr hne
  have hdepth : last.nHeight = UInt64.ofNat (blocks.length - 1) := by
    refine hl.height _ _ ?_
    rw [← List.getLast?_eq_getElem?]
    exact hlast
  obtain ⟨s₁, hmaps, hdb, hchain, hcb, hct, Q, hmapped, -, hQ, hall⟩ :=
    loadMappings (l := db.getBatch .blockHeightMaps) (hadm.unambiguous hl) (fun _ h => h.elim)
      (Mapped.empty db) (by
        rintro ⟨k, v⟩ he
        obtain ⟨b, hb, rfl, rfl⟩ := mem_heightBatch.mp ((hholds.heights k v).mp (DB.mem_getBatch.mp he))
        exact ⟨b, hb, rfl⟩)
  have hloading : Loading E db blocks 0 s₁ := by
    refine ⟨hdb, ?_, ?_, hcb, hct⟩
    · rw [hchain, Nat.sub_zero, List.drop_length]
      rfl
    · refine hmapped.congr (fun c => ?_) (fun c => ⟨hQ c, fun hc => ?_⟩) rfl rfl rfl rfl
      · rw [hchain]
        exact ⟨fun h => h.elim, fun h => absurd h List.not_mem_nil⟩
      · obtain ⟨b, hb, he⟩ := hall (uint64ToBytes c.nHeight, (c.hash E.C).data)
          (DB.mem_getBatch.mpr ((hholds.heights _ _).mpr (mem_heightBatch.mpr ⟨c, hc, rfl, rfl⟩)))
        obtain ⟨-, hhash⟩ := Prod.mk.inj he
        rw [hadm.eq_of_hash hl hc (hQ b hb) (FixedStr.ext hhash)]
        exact hb
  have hcount : min 500 last.nHeight.toNat + 1 ≤ blocks.length := by
    have hle := hadm.length_le
    rw [hdepth, UInt64.toNat_ofNat', Nat.mod_eq_of_lt (by omega)]
    omega
  obtain ⟨s, hrun, hs⟩ := hloading.loadBlocks hholds hadm hl hcount
  have hdb' : Holds E s.db blocks := by
    rw [hs.db]
    exact hholds
  refine ⟨s, ?_, hdb', ?_⟩
  · rw [load]
    simp only [initializeBlockchain_of_latest hlatest]
    refine Except.bind_eq_ok.mpr ⟨last, ?_, Except.bind_eq_ok.mpr ⟨s₁, hmaps, ?_⟩⟩
    · rw [DB.get_of_lookup hlatest]
      exact (hadm.storable last hmem).parse
    · rw [hdepth] at hrun ⊢
      exact hrun
  · refine ⟨hl, ?_, ?_, ⟨blocks, hdb', fun b => ⟨Or.inl, ?_⟩⟩, hs.mapped, hs.cachedBlocks,
      hs.cachedTxs⟩
    · rw [hs.chain]
      exact List.drop_suffix _ _
    · rw [hs.chain]
      intro hnil
      rw [List.drop_eq_nil_iff] at hnil
      omega
    · rintro (hb | hb)
      · exact hb
      · rw [hs.chain] at hb
        exact List.mem_of_mem_drop hb

/-! ### The destructor -/

theorem blockBatch_unique (h : Admissible E blocks) (hl : Linked E blocks) :
    Relator.RightUnique fun k v => (k, v) ∈ blockBatch E blocks := by
  intro k v v' hv hv'
  obtain ⟨b, hb, rfl, rfl⟩ := mem_blockBatch.mp hv
  obtain ⟨c, hc, hhash, rfl⟩ := mem_blockBatch.mp hv'
  rw [h.eq_of_hash hl hb hc (FixedStr.ext hhash.symm)]

theorem heightBatch_unique (h : Admissible E blocks) (hl : Linked E blocks) :
    Relator.RightUnique fun k v => (k, v) ∈ heightBatch E blocks := by
  intro k v v' hv hv'
  obtain ⟨b, hb, rfl, rfl⟩ := mem_heightBatch.mp hv
  obtain ⟨c, hc, hheight, rfl⟩ := mem_heightBatch.mp hv'
  rw [hl.eq_of_height h.length_le hb hc (uint64ToBytes_inj hheight.symm)]

theorem txToBlockBatch_unique (h : Admissible E blocks) :
    Relator.RightUnique fun k v => (k, v) ∈ txToBlockBatch E blocks := by
  intro k v v' hv hv'
  obtain ⟨b, hb, i, t, hi, rfl, rfl⟩ := mem_txToBlockBatch.mp hv
  obtain ⟨c, hc, j, u, hj, hhash, rfl⟩ := mem_txToBlockBatch.mp hv'
  obtain ⟨rfl, rfl⟩ := h.place_unique hb hi hc hj (FixedStr.ext hhash.symm)
  rfl

section

variable {chain : List Block} (hmem : ∀ b, b ∈ blocks ↔ b ∈ saved ∨ b ∈ chain)

include hmem

theorem blockBatch_split (k v : Bytes) : (k, v) ∈ blockBatch E blocks ↔
    (k, v) ∈ blockBatch E saved ∨ (k, v) ∈ blockBatch E chain := by
  simp only [mem_blockBatch, hmem, or_and_right, exists_or]

theorem heightBatch_split (k v : Bytes) : (k, v) ∈ heightBatch E blocks ↔
    (k, v) ∈ heightBatch E saved ∨ (k, v) ∈ heightBatch E chain := by
  simp only [mem_heightBatch, hmem, or_and_right, exists_or]

theorem txToBlockBatch_split (k v : Bytes) : (k, v) ∈ txToBlockBatch E blocks ↔
    (k, v) ∈ txToBlockBatch E saved ∨ (k, v) ∈ txToBlockBatch E chain := by
  simp only [mem_txToBlockBatch, hmem, or_and_right, exists_or]

end

/-- A batch is written next to what is there, when nothing in it is contradicted. -/
theorem graph_putBatch {m : AssocMap Bytes Bytes} {R : Bytes → Bytes → Prop} (h : m.Graph R)
    {l : List (Bytes × Bytes)} (hu : Relator.RightUnique fun k v => R k v ∨ (k, v) ∈ l) :
    (m.insertAll Prod.fst Prod.snd l).Graph fun k v => R k v ∨ (k, v) ∈ l := by
  have hpair : ∀ k v, (∃ e ∈ l, e.1 = k ∧ e.2 = v) ↔ (k, v) ∈ l := by
    intro k v
    constructor
    · rintro ⟨e, he, rfl, rfl⟩
      exact he
    · intro he
      exact ⟨(k, v), he, rfl, rfl⟩
  refine (h.insertAll l ?_).congr fun k v => or_congr_right (hpair k v)
  intro k v v' hv hv'
  exact hu (hv.imp_right (hpair k v).mp) (hv'.imp_right (hpair k v').mp)

theorem length_txValue (b : Block) (i : Nat) : (txValue E b i).length = 44 := by
  simp [txValue, uint64ToBytes, (b.hash E.C).size_eq]

/-- What the destructor writes: every batch goes to a map of its own. -/
theorem save_entries {last : Block} (hlast : s.chain.getLast? = some last)
    (hfits : ∀ c ∈ s.chain, c.serializeBlock.length < 2 ^ 32) :
    ∃ db, save E s = .ok db ∧
      db.entries .blocks = ((s.db.entries .blocks).insertAll Prod.fst Prod.snd
        (blockBatch E s.chain)).insert latestKey last.serializeBlock ∧
      db.entries .blockHeightMaps = (s.db.entries .blockHeightMaps).insertAll Prod.fst Prod.snd
        (heightBatch E s.chain) ∧
      db.entries .txToBlocks = (s.db.entries .txToBlocks).insertAll Prod.fst Prod.snd
        (txToBlockBatch E s.chain) := by
  have hblocks : ∀ e ∈ blockBatch E s.chain, e.2.length < 2 ^ 32 := by
    rintro ⟨k, v⟩ he
    obtain ⟨c, hc, rfl, rfl⟩ := mem_blockBatch.mp he
    exact hfits c hc
  have hheights : ∀ e ∈ heightBatch E s.chain, e.2.length < 2 ^ 32 := by
    rintro ⟨k, v⟩ he
    obtain ⟨c, -, rfl, rfl⟩ := mem_heightBatch.mp he
    rw [(c.hash E.C).size_eq]
    decide
  have htxs : ∀ e ∈ txToBlockBatch E s.chain, e.2.length < 2 ^ 32 := by
    rintro ⟨k, v⟩ he
    obtain ⟨c, -, i, t, -, rfl, rfl⟩ := mem_txToBlockBatch.mp he
    rw [length_txValue]
    decide
  refine ⟨_, by rw [save, hlast], ?_⟩
  rw [DB.put_entries (hfits last (List.mem_of_getLast? hlast)), DB.putBatch_entries htxs,
    DB.putBatch_entries hheights, DB.putBatch_entries hblocks]
  exact ⟨rfl, rfl, rfl⟩

/-- The map of the blocks afterwards: the latest block under its own key, and the blocks of the
    whole history, which agree with each other. -/
theorem graph_saveBlocks {m : AssocMap Bytes Bytes} {chain : List Block} {latest : Bytes}
    (hmem : ∀ b, b ∈ blocks ↔ b ∈ saved ∨ b ∈ chain)
    (hu : Relator.RightUnique fun k v => (k, v) ∈ blockBatch E blocks)
    (hm : m.Graph fun k v =>
      (k ≠ latestKey ∧ (k, v) ∈ blockBatch E saved) ∨ (k = latestKey ∧ v = latest))
    (last : Bytes) :
    AssocMap.Graph ((m.insertAll Prod.fst Prod.snd (blockBatch E chain)).insert latestKey last)
      fun k v => (k ≠ latestKey ∧ (k, v) ∈ blockBatch E blocks) ∨ (k = latestKey ∧ v = last) := by
  have hnot : ∀ v, (latestKey, v) ∉ blockBatch E chain := by
    intro v hv
    obtain ⟨c, -, hkey, -⟩ := mem_blockBatch.mp hv
    exact data_ne_latestKey _ hkey
  refine ((graph_putBatch hm ?_).insert_other _ _).congr fun k v => ?_
  · intro k v v' hv hv'
    by_cases hk : k = latestKey
    · subst hk
      simp only [ne_eq, not_true_eq_false, false_and, false_or, true_and, hnot, or_false] at hv hv'
      rw [hv, hv']
    · simp only [ne_eq, hk, not_false_eq_true, true_and, false_and, or_false] at hv hv'
      rw [← blockBatch_split hmem] at hv hv'
      exact hu hv hv'
  · rw [blockBatch_split hmem]
    by_cases hk : k = latestKey <;> simp [hk]

theorem Represents.getLast?_chain (h : Represents E blocks s) :
    ∃ last, s.chain.getLast? = some last ∧ blocks.getLast? = some last := by
  obtain ⟨last, hlast⟩ : ∃ last, s.chain.getLast? = some last :=
    ⟨_, List.getLast?_eq_some_getLast h.ne⟩
  obtain ⟨older, holder⟩ := h.suffix
  refine ⟨last, hlast, ?_⟩
  rw [← holder, List.getLast?_append_of_ne_nil _ h.ne]
  exact hlast

/-- **The destructor** leaves a database that holds everything. -/
theorem save_of_represents (h : Represents E blocks s) (hadm : Admissible E blocks) :
    ∃ db last, save E s = .ok db ∧ Holds E db blocks ∧ blocks.getLast? = some last ∧
      (db.entries .blocks).lookup latestKey = some last.serializeBlock := by
  obtain ⟨saved, hholds, hmem⟩ := h.saved
  obtain ⟨latest, hblocks⟩ := hholds.blocks
  have hsub : ∀ c ∈ s.chain, c ∈ blocks := fun c hc => (hmem c).mpr (Or.inr hc)
  obtain ⟨last, hlast, hlast'⟩ := h.getLast?_chain
  obtain ⟨db, hsave, hb, hheights, htxs⟩ :=
    save_entries hlast fun c hc => (hadm.storable c (hsub c hc)).fits
  refine ⟨db, last, hsave, ⟨⟨last.serializeBlock, ?_⟩, ?_, ?_⟩, hlast', ?_⟩
  · rw [hb]
    exact graph_saveBlocks hmem (blockBatch_unique hadm h.linked) hblocks _
  · rw [hheights]
    refine (graph_putBatch hholds.heights ?_).congr fun k v => (heightBatch_split hmem k v).symm
    intro k v v' hv hv'
    rw [← heightBatch_split hmem] at hv hv'
    exact heightBatch_unique hadm h.linked hv hv'
  · rw [htxs]
    refine (graph_putBatch hholds.txs ?_).congr fun k v => (txToBlockBatch_split hmem k v).symm
    intro k v v' hv hv'
    rw [← txToBlockBatch_split hmem] at hv hv'
    exact txToBlockBatch_unique hadm hv hv'
  · rw [hb, AList.lookup_insert]

/-! ### A new block -/

theorem Represents.pushBack (h : Represents E blocks s) (hadm : Admissible E (blocks ++ [b]))
    (hpush : s.pushBack E b = .ok s') : Represents E (blocks ++ [b]) s' := by
  obtain ⟨hlink, rfl⟩ := pushBack_eq_ok hpush
  obtain ⟨older, holder⟩ := h.suffix
  obtain ⟨saved, hholds, hmem⟩ := h.saved
  have hlinked : Linked E (blocks ++ [b]) := by
    obtain ⟨back, hback⟩ : ∃ back, s.chain.getLast? = some back :=
      ⟨_, List.getLast?_eq_some_getLast h.ne⟩
    obtain ⟨init, hinit⟩ := List.getLast?_eq_some_iff.mp hback
    have hblocks : blocks = older ++ init ++ [back] := by
      rw [← holder, hinit, List.append_assoc]
    refine ⟨List.isChain_append.mpr ⟨h.linked.links, List.isChain_singleton _, ?_⟩, ?_⟩
    · intro x hx y hy
      rw [hblocks, List.getLast?_concat] at hx
      cases hx
      cases hy
      exact hlink _ hback
    · intro i c hc
      rcases Nat.lt_or_ge i blocks.length with hi | hi
      · rw [List.getElem?_append_left hi] at hc
        exact h.linked.height i c hc
      · rw [List.getElem?_append_right hi] at hc
        obtain ⟨hlt, rfl⟩ := List.getElem?_eq_some_iff.mp hc
        have hi' : i = blocks.length := by
          rw [List.length_singleton] at hlt
          omega
        have hbackHeight : back.nHeight = UInt64.ofNat (older ++ init).length := by
          refine h.linked.height _ _ ?_
          rw [hblocks, List.getElem?_concat_length]
        have hlen : blocks.length = (older ++ init).length + 1 := by
          rw [hblocks, List.length_append, List.length_singleton]
        rw [List.getElem_singleton, (hlink _ hback).2, hbackHeight, hi', hlen, UInt64.ofNat_add]
        rfl
  have hunambiguous := hadm.unambiguous hlinked
  refine ⟨hlinked, ⟨older, ?_⟩, List.append_ne_nil_of_right_ne_nil _ (List.cons_ne_nil b []),
    ⟨saved, hholds, fun c => ?_⟩, ?_, h.cachedBlocks, h.cachedTxs⟩
  · rw [← holder]
    exact (List.append_assoc older s.chain [b]).symm
  · show _ ↔ c ∈ saved ∨ c ∈ s.chain ++ [b]
    rw [List.mem_append, List.mem_append, hmem, or_assoc]
  · have hu : Unambiguous E (fun c => c ∈ s.chain ∨ c = b) fun c => c ∈ blocks ∨ c = b := by
      refine hunambiguous.mono (fun c hc => ?_) fun c hc => ?_
      · rw [List.mem_append, List.mem_singleton]
        exact hc.imp_left fun hc => (hmem c).mpr (Or.inr hc)
      · rwa [List.mem_append, List.mem_singleton]
    refine (h.mapped.add hu).congr (fun c => ?_) (fun c => ?_) rfl rfl rfl rfl
    · show _ ↔ c ∈ s.chain ++ [b]
      rw [List.mem_append, List.mem_singleton]
    · rw [List.mem_append, List.mem_singleton]

/-! ### Answers -/

/-- The block with a property, if there is one. -/
def Finds (blocks : List Block) (p : Block → Prop) (r : Except Fail (Option Block)) : Prop :=
  (∃ b ∈ blocks, p b ∧ r = .ok (some b)) ∨ ((∀ b ∈ blocks, ¬ p b) ∧ r = .ok none)

theorem Finds.unique {p : Block → Prop} {r r' : Except Fail (Option Block)}
    (hp : ∀ b ∈ blocks, ∀ c ∈ blocks, p b → p c → b = c) (h : Finds blocks p r)
    (h' : Finds blocks p r') : r = r' := by
  rcases h with ⟨b, hb, hpb, rfl⟩ | ⟨hnone, rfl⟩
  · rcases h' with ⟨c, hc, hpc, rfl⟩ | ⟨hnone, -⟩
    · rw [hp b hb c hc hpb hpc]
    · exact absurd hpb (hnone b hb)
  · rcases h' with ⟨c, hc, hpc, -⟩ | ⟨-, rfl⟩
    · exact absurd hpc (hnone c hc)
    · rfl

/-- The transaction with a hash and its place, if there is one. -/
def FindsTx (E : Env) (blocks : List Block) (tx : Hash) (r : Except Fail TxEntry) : Prop :=
  (∃ b ∈ blocks, ∃ i t, b.txs[i]? = some t ∧ t.hash E.C true = tx ∧
    r = .ok ⟨some t, b.hash E.C, i, b.nHeight⟩) ∨
  ((∀ b ∈ blocks, ∀ t ∈ b.txs, t.hash E.C true ≠ tx) ∧ r = .ok .null)

theorem FindsTx.unique (hadm : Admissible E blocks) {tx : Hash} {r r' : Except Fail TxEntry}
    (h : FindsTx E blocks tx r) (h' : FindsTx E blocks tx r') : r = r' := by
  rcases h with ⟨b, hb, i, t, hi, ht, rfl⟩ | ⟨hnone, rfl⟩
  · rcases h' with ⟨c, hc, j, u, hj, hu, rfl⟩ | ⟨hnone, -⟩
    · obtain ⟨rfl, rfl⟩ := hadm.place_unique hb hi hc hj (ht.trans hu.symm)
      cases hi.symm.trans hj
      rfl
    · exact absurd ht (hnone b hb t (List.mem_of_getElem? hi))
  · rcases h' with ⟨c, hc, j, u, hj, hu, -⟩ | ⟨-, rfl⟩
    · exact absurd hu (hnone c hc u (List.mem_of_getElem? hj))
    · rfl

theorem Represents.indexed (h : Represents E blocks s) (hadm : Admissible E blocks) :
    Indexed E s := by
  obtain ⟨saved, hholds, hmem⟩ := h.saved
  refine ⟨?_, ?_, h.mapped.congr (fun _ => Iff.rfl) (fun c => ?_) rfl rfl rfl rfl⟩
  · exact h.linked.links.suffix h.suffix
  · exact h.suffix.sublist.nodup (h.linked.nodup hadm.length_le)
  · rw [Known, hholds.archived_iff fun b hb => hadm.storable b ((hmem b).mpr (Or.inl hb)), hmem,
      or_comm]

theorem Represents.getBlock (h : Represents E blocks s) (hadm : Admissible E blocks) (hash : Hash) :
    Finds blocks (fun b => b.hash E.C = hash) (s.getBlock E hash).1 := by
  obtain ⟨saved, hholds, hmem⟩ := h.saved
  have hnocache : hash ∉ s.cachedBlocks := by rw [h.cachedBlocks]; exact List.not_mem_nil
  by_cases hchain : hash ∈ s.blockByHash
  · obtain ⟨b, hb⟩ := AssocMap.mem_iff_lookup.mp hchain
    obtain ⟨hbc, hhash⟩ := (h.mapped.blockByHash _ _).mp hb
    refine Or.inl ⟨b, (hmem b).mpr (Or.inr hbc), hhash, ?_⟩
    rw [BlockStorage.getBlock, blockExists, if_pos hchain, hb]
  · have hstatus : s.blockExists hash =
        if s.db.has hash.data .blocks then .OnDB else .NotFound := by
      rw [blockExists, if_neg hchain, if_neg hnocache]
    by_cases hdb : s.db.has hash.data .blocks = true
    · obtain ⟨b, hb, rfl⟩ := hholds.has_iff.mp hdb
      refine Or.inl ⟨b, (hmem b).mpr (Or.inl hb), rfl, ?_⟩
      rw [BlockStorage.getBlock, hstatus, if_pos hdb]
      show (cacheBlock E s (b.hash E.C)).1 = _
      rw [cacheBlock, hholds.readBlock (fun c hc => hadm.storable c ((hmem c).mpr (Or.inl hc))) hb]
      exact congrArg Except.ok (AssocMap.lookup_emplace_self_of_notMem b hnocache)
    · refine Or.inr ⟨?_, ?_⟩
      · rintro b hb rfl
        rcases (hmem b).mp hb with hb | hb
        · exact hdb (hholds.has_iff.mpr ⟨b, hb, rfl⟩)
        · exact hchain (h.mapped.blockByHash.mem_iff.mpr ⟨b, hb, rfl⟩)
      · rw [BlockStorage.getBlock, hstatus, if_neg hdb]

theorem Represents.getBlockAt (h : Represents E blocks s) (hadm : Admissible E blocks)
    (height : UInt64) :
    Finds blocks (fun b => b.nHeight = height) (s.getBlockAt E height).1 := by
  obtain ⟨saved, hholds, hmem⟩ := h.saved
  rcases getBlockAt_of_indexed (h.indexed hadm) h.cachedBlocks height with
    ⟨b, hanswer, hheight, hknown⟩ | ⟨hstatus, hanswer⟩
  · refine Or.inl ⟨b, (hmem b).mpr ?_, hheight, hanswer⟩
    rcases hknown with hb | hb
    · exact Or.inr hb
    · exact Or.inl ((hholds.archived_iff
        fun c hc => hadm.storable c ((hmem c).mpr (Or.inl hc))).mp hb)
  · refine Or.inr ⟨?_, hanswer⟩
    rintro b hb rfl
    have hlook := (h.mapped.blockHashByHeight b.nHeight (b.hash E.C)).mpr ⟨b, hb, rfl, rfl⟩
    rw [blockExistsAt, hlook] at hstatus
    dsimp only at hstatus
    split at hstatus
    · cases hstatus
    · split at hstatus <;> cases hstatus

theorem substr_append (as bs cs : Bytes) :
    substr (as ++ (bs ++ cs)) as.length bs.length = .ok bs := by
  rw [substr, if_neg (by simp), List.drop_left, List.take_left]

theorem Storable.index_lt (h : Storable E b) {i : Nat} {t : TxBlock} (hi : b.txs[i]? = some t) :
    i < 2 ^ 32 := by
  have hlen := (List.getElem?_eq_some_iff.mp hi).1
  have hitems := Block.length_serializeItems_le (b.txs.map fun tx => tx.rlpSerialize true)
  have hfits := h.fits
  rw [Block.serializeBlock] at hfits
  simp only [List.length_append] at hfits
  rw [List.length_map] at hitems
  omega

theorem Holds.readTx (h : Holds E db saved) (hadm : ∀ b ∈ saved, Storable E b) (hb : b ∈ saved)
    {i : Nat} {t : TxBlock} (hi : b.txs[i]? = some t) :
    readTx E db (t.hash E.C true) = .ok ⟨some t, b.hash E.C, i, b.nHeight⟩ := by
  have hvalue : db.get (t.hash E.C true).data .txToBlocks = txValue E b i :=
    DB.get_of_lookup ((h.txs _ _).mpr (mem_txToBlockBatch.mpr ⟨b, hb, i, t, hi, rfl, rfl⟩))
  have hsplit : txValue E b i = [] ++ ((b.hash E.C).data ++ (BigEndian.fixed 4 i ++
      (uint64ToBytes b.nHeight ++ []))) := by
    rw [txValue, List.nil_append, List.append_nil, List.append_assoc]
  have hhash : substr (txValue E b i) 0 32 = .ok (b.hash E.C).data := by
    have h := substr_append [] (b.hash E.C).data (BigEndian.fixed 4 i ++ (uint64ToBytes b.nHeight ++ []))
    rwa [(b.hash E.C).size_eq, ← hsplit] at h
  have hindex : substr (txValue E b i) 32 4 = .ok (BigEndian.fixed 4 i) := by
    have h := substr_append (b.hash E.C).data (BigEndian.fixed 4 i) (uint64ToBytes b.nHeight ++ [])
    rwa [(b.hash E.C).size_eq, BigEndian.length_fixed, ← List.nil_append (_ ++ _), ← hsplit] at h
  have hheight : substr (txValue E b i) 36 8 = .ok (uint64ToBytes b.nHeight) := by
    have h := substr_append ((b.hash E.C).data ++ BigEndian.fixed 4 i) (uint64ToBytes b.nHeight) []
    rwa [List.length_append, (b.hash E.C).size_eq, BigEndian.length_fixed, uint64ToBytes,
      BigEndian.length_fixed, List.append_assoc, ← List.nil_append (_ ++ _), ← uint64ToBytes,
      ← hsplit] at h
  have hdecode : Block.bytesToUint32 (BigEndian.fixed 4 i) = .ok i := by
    have hlt : i < 256 ^ 4 := (hadm b hb).index_lt hi
    rw [Block.bytesToUint32, if_neg (not_not.mpr (BigEndian.length_fixed 4 i)),
      BigEndian.decode_fixed, Nat.mod_eq_of_lt hlt]
  have htx : Block.getTxFromBlockWithIndex E.C E.chainId (db.get (b.hash E.C).data .blocks) i =
      .ok t := by
    rw [DB.get_of_lookup (h.lookup_block hb)]
    exact Block.getTxFromBlockWithIndex_of_parse (hadm b hb).fits (hadm b hb).parse hi
  rw [BlockStorage.readTx]
  simp only [hvalue]
  refine Except.bind_eq_ok.mpr ⟨_, liftExn_eq_ok.mpr hhash, Except.bind_eq_ok.mpr
    ⟨_, liftExn_eq_ok.mpr hindex, Except.bind_eq_ok.mpr ⟨_, liftExn_eq_ok.mpr hdecode,
      Except.bind_eq_ok.mpr ⟨_, liftExn_eq_ok.mpr hheight, Except.bind_eq_ok.mpr
        ⟨_, liftExn_eq_ok.mpr (bytesToUint64_uint64ToBytes _), ?_⟩⟩⟩⟩⟩
  rw [FixedStr.ofBytes_data, htx, UInt64.ofNat_toNat]
  rfl

theorem Represents.getTx (h : Represents E blocks s) (hadm : Admissible E blocks) (tx : Hash) :
    FindsTx E blocks tx (s.getTx E tx).1 := by
  obtain ⟨saved, hholds, hmem⟩ := h.saved
  have hstorable : ∀ b ∈ saved, Storable E b :=
    fun b hb => hadm.storable b ((hmem b).mpr (Or.inl hb))
  have hnocache : tx ∉ s.cachedTxs := by rw [h.cachedTxs]; exact List.not_mem_nil
  by_cases hchain : tx ∈ s.txByHash
  · obtain ⟨place, hplace⟩ := AssocMap.mem_iff_lookup.mp hchain
    obtain ⟨b, i, t, hb, hi, rfl, rfl⟩ := (h.mapped.txByHash _ _).mp hplace
    refine Or.inl ⟨b, (hmem b).mpr (Or.inr hb), i, t, hi, rfl, ?_⟩
    have hblock : s.blockByHash.lookup (b.hash E.C) = some b :=
      (h.mapped.blockByHash _ _).mpr ⟨hb, rfl⟩
    have htx : txAt s.blockByHash (b.hash E.C) i = some t := by
      rw [txAt, hblock]
      exact hi
    rw [BlockStorage.getTx, txExists, if_pos hchain, hplace]
    dsimp only [Option.getD_some]
    rw [htx]
    dsimp only
    rw [if_neg (not_not.mpr rfl)]
  · have hstatus : s.txExists tx = if s.db.has tx.data .txToBlocks then .OnDB else .NotFound := by
      rw [txExists, if_neg hchain, if_neg hnocache]
    by_cases hdb : s.db.has tx.data .txToBlocks = true
    · obtain ⟨v, hv⟩ := DB.has_iff.mp hdb
      obtain ⟨b, hb, i, t, hi, hhash, -⟩ := mem_txToBlockBatch.mp ((hholds.txs _ _).mp hv)
      obtain rfl : t.hash E.C true = tx := FixedStr.ext hhash
      refine Or.inl ⟨b, (hmem b).mpr (Or.inl hb), i, t, hi, rfl, ?_⟩
      rw [BlockStorage.getTx, hstatus, if_pos hdb]
      dsimp only
      rw [hholds.readTx hstorable hb hi]
      show Except.ok (((s.cachedTxs.emplace _ _).lookup _).getD _) = _
      rw [AssocMap.lookup_emplace_self_of_notMem _ hnocache, Option.getD_some]
    · refine Or.inr ⟨?_, ?_⟩
      · rintro b hb t ht rfl
        obtain ⟨i, hi⟩ := List.getElem?_of_mem ht
        rcases (hmem b).mp hb with hb | hb
        · exact hdb (DB.has_iff.mpr ⟨_, (hholds.txs _ _).mpr
            (mem_txToBlockBatch.mpr ⟨b, hb, i, t, hi, rfl, rfl⟩)⟩)
        · exact hchain (h.mapped.txByHash.mem_iff.mpr ⟨_, b, i, t, hb, hi, rfl, rfl⟩)
      · rw [BlockStorage.getTx, hstatus, if_neg hdb]

/-! ### The life of a node -/

/-- What happens to the storage of a node. -/
inductive Event where
  | push (block : Block)
  | restart

/-- `pushBack`, or the destructor and the constructor. -/
def Event.apply (E : Env) : Event → BlockStorage → Option BlockStorage
  | .push block, s => (s.pushBack E block).toOption
  | .restart, s => (s.save E >>= load E).toOption

/-- The blocks that were pushed. -/
def Event.pushed : List Event → List Block
  | [] => []
  | .push block :: events => block :: pushed events
  | .restart :: events => pushed events

/-- A restart gives a storage of the same history, all of it in the database. -/
theorem Represents.restart (h : Represents E blocks s) (hadm : Admissible E blocks) :
    ∃ s', Event.apply E .restart s = some s' ∧ Holds E s'.db blocks ∧
      Represents E blocks s' := by
  obtain ⟨db, last, hsave, hholds, hlast, hlatest⟩ := save_of_represents h hadm
  obtain ⟨s', hload, hs'⟩ := load_of_holds hholds hadm h.linked hlast hlatest
  refine ⟨s', Except.toOption_eq_some.mpr ?_, hs'⟩
  rw [hsave]
  exact hload

theorem initializeBlockchain_entries
    (hfits : (genesisBlock E.C).serializeBlock.length < 2 ^ 32) :
    (initializeBlockchain E .empty).entries .blocks =
        ((∅ : AssocMap Bytes Bytes).insert latestKey (genesisBlock E.C).serializeBlock).insert
          ((genesisBlock E.C).hash E.C).data (genesisBlock E.C).serializeBlock ∧
      (initializeBlockchain E .empty).entries .blockHeightMaps =
        (∅ : AssocMap Bytes Bytes).insert (uint64ToBytes (genesisBlock E.C).nHeight)
          ((genesisBlock E.C).hash E.C).data ∧
      (initializeBlockchain E .empty).entries .txToBlocks = ∅ := by
  have hhash : ((genesisBlock E.C).hash E.C).data.length < 2 ^ 32 := by
    rw [((genesisBlock E.C).hash E.C).size_eq]
    decide
  have hnew : initializeBlockchain E .empty =
      ((DB.empty.put latestKey (genesisBlock E.C).serializeBlock .blocks).put
        (uint64ToBytes (genesisBlock E.C).nHeight) ((genesisBlock E.C).hash E.C).data
          .blockHeightMaps).put ((genesisBlock E.C).hash E.C).data
            (genesisBlock E.C).serializeBlock .blocks := rfl
  rw [hnew, DB.put_entries hfits, DB.put_entries hhash, DB.put_entries hfits]
  exact ⟨rfl, rfl, rfl⟩

theorem holds_genesis (hfits : (genesisBlock E.C).serializeBlock.length < 2 ^ 32) :
    Holds E (initializeBlockchain E .empty) [genesisBlock E.C] := by
  obtain ⟨hblocks, hheights, htxs⟩ := initializeBlockchain_entries hfits
  refine ⟨⟨(genesisBlock E.C).serializeBlock, ?_⟩, ?_, ?_⟩
  · rw [hblocks]
    refine ((AssocMap.Graph.empty.insert_other _ _).insert_other _ _).congr fun k v => ?_
    simp only [blockBatch, List.map_cons, List.map_nil, List.mem_singleton, Prod.mk.injEq]
    have hne := data_ne_latestKey ((genesisBlock E.C).hash E.C)
    constructor
    · rintro (⟨-, ⟨-, hf⟩ | ⟨rfl, rfl⟩⟩ | ⟨rfl, rfl⟩)
      · exact hf.elim
      · exact Or.inr ⟨rfl, rfl⟩
      · exact Or.inl ⟨hne, rfl, rfl⟩
    · rintro (⟨-, rfl, rfl⟩ | ⟨rfl, rfl⟩)
      · exact Or.inr ⟨rfl, rfl⟩
      · exact Or.inl ⟨hne.symm, Or.inr ⟨rfl, rfl⟩⟩
  · rw [hheights]
    refine (AssocMap.Graph.empty.insert_other _ _).congr fun k v => ?_
    simp [heightBatch]
  · rw [htxs]
    refine AssocMap.Graph.empty.congr fun k v => ?_
    simp [txToBlockBatch, (genesisBlock_fields E.C).2]

theorem linked_genesis : Linked E [genesisBlock E.C] := by
  refine ⟨List.isChain_singleton _, fun i b hb => ?_⟩
  obtain ⟨hlt, rfl⟩ := List.getElem?_eq_some_iff.mp hb
  obtain rfl : i = 0 := by
    rw [List.length_singleton] at hlt
    omega
  exact (genesisBlock_fields E.C).1

theorem represents_genesis (hadm : Admissible E [genesisBlock E.C]) {s₀ : BlockStorage}
    (h₀ : load E .empty = .ok s₀) : Represents E [genesisBlock E.C] s₀ := by
  have hfits := (hadm.storable _ (List.mem_singleton.mpr rfl)).fits
  have hlatest : ((initializeBlockchain E .empty).entries .blocks).lookup latestKey =
      some (genesisBlock E.C).serializeBlock := by
    rw [(initializeBlockchain_entries hfits).1,
      AList.lookup_insert_ne (data_ne_latestKey _).symm, AList.lookup_insert]
  obtain ⟨s, hload, -, hs⟩ := load_of_holds (holds_genesis hfits) hadm linked_genesis rfl hlatest
  -- the first start is a restart behind `initializeBlockchain`
  have hagain : load E (initializeBlockchain E .empty) = load E .empty := by
    rw [load, load, initializeBlockchain_of_latest hlatest]
  cases (hagain.symm.trans hload).symm.trans h₀
  exact hs

/-- Whatever happens to a node, its storage stands for all blocks so far. -/
theorem run_represents {events : List Event} (h : Represents E blocks s)
    (hadm : Admissible E (blocks ++ Event.pushed events))
    (hrun : Machine.run (Event.apply E) events s = some s') :
    Represents E (blocks ++ Event.pushed events) s' := by
  induction events generalizing blocks s with
  | nil =>
    cases hrun
    rw [Event.pushed, List.append_nil]
    exact h
  | cons event events ih =>
    obtain ⟨s₁, hstep, hrest⟩ := Option.bind_eq_some_iff.mp hrun
    cases event with
    | push block =>
      rw [Event.pushed, List.append_cons] at hadm ⊢
      refine ih ?_ hadm hrest
      exact h.pushBack hadm.left (Except.toOption_eq_some.mp hstep)
    | restart =>
      obtain ⟨s₂, hs₂, -, h₂⟩ := h.restart hadm.left
      cases hs₂.symm.trans hstep
      exact ih h₂ hadm hrest

/-- **Restart.**  Let a node start on an empty database, push blocks and be restarted, any
    number of times, where no transaction hash occurs twice and every block can be read back
    from its bytes.  Then it can be restarted once more, and
    the latest block and the answers to all queries for a block or a transaction are the same
    as before. -/
theorem restart_answers {s₀ : BlockStorage} (h₀ : load E .empty = .ok s₀) {events : List Event}
    (hadm : Admissible E (genesisBlock E.C :: Event.pushed events))
    (hrun : Machine.run (Event.apply E) events s₀ = some s) :
    ∃ s', Event.apply E .restart s = some s' ∧ s'.latest = s.latest ∧
      (∀ hash, (s'.getBlock E hash).1 = (s.getBlock E hash).1) ∧
      (∀ height, (s'.getBlockAt E height).1 = (s.getBlockAt E height).1) ∧
      ∀ tx, (s'.getTx E tx).1 = (s.getTx E tx).1 := by
  have hsplit : genesisBlock E.C :: Event.pushed events =
      [genesisBlock E.C] ++ Event.pushed events := rfl
  rw [hsplit] at hadm
  have h := run_represents (represents_genesis hadm.left h₀) hadm hrun
  obtain ⟨s', hs', -, h'⟩ := h.restart hadm
  refine ⟨s', hs', ?_, fun hash => ?_, fun height => ?_, fun tx => ?_⟩
  · -- Both chains are the end of one list.
    have hlast : ∀ {t : BlockStorage}, Represents E ([genesisBlock E.C] ++ Event.pushed events) t →
        t.latest = ([genesisBlock E.C] ++ Event.pushed events).getLast? := by
      intro t ht
      obtain ⟨older, holder⟩ := ht.suffix
      rw [← holder, List.getLast?_append_of_ne_nil _ ht.ne]
      rfl
    rw [hlast h', hlast h]
  · refine (h'.getBlock hadm hash).unique ?_ (h.getBlock hadm hash)
    intro b hb c hc hbh hch
    exact hadm.eq_of_hash h.linked hb hc (hbh.trans hch.symm)
  · refine (h'.getBlockAt hadm height).unique ?_ (h.getBlockAt hadm height)
    intro b hb c hc hbh hch
    exact h.linked.eq_of_height hadm.length_le hb hc (hbh.trans hch.symm)
  · exact (h'.getTx hadm tx).unique hadm (h.getTx hadm tx)

/-- A node with four hardware threads on chain 8080. -/
def recordedEnv : Env := ⟨Recorded.crypto, 4, 8080⟩

/-- Block 1 with a transfer. -/
def recordedBlock : Block := Recorded.block [Recorded.transfer]

/-- Block 2, without transactions. -/
def recordedNext : Block := Recorded.nextBlock [Recorded.transfer]

theorem admissible_recordedNext :
    Admissible recordedEnv [genesisBlock Recorded.crypto, recordedBlock, recordedNext] where
  storable := by
    have hgenesis : Storable recordedEnv (genesisBlock Recorded.crypto) :=
      ⟨by decide +kernel, by decide +kernel⟩
    have hblock : Storable recordedEnv recordedBlock :=
      ⟨Block.parse_oneTransfer, by decide +kernel⟩
    have hnext : Storable recordedEnv recordedNext := ⟨by decide +kernel, by decide +kernel⟩
    exact List.forall_mem_cons.mpr ⟨hgenesis, List.forall_mem_cons.mpr
      ⟨hblock, List.forall_mem_singleton.mpr hnext⟩⟩
  collisionFree := by decide +kernel
  txs := by decide +kernel
  length_le := by decide

theorem admissible_recordedBlock :
    Admissible recordedEnv [genesisBlock Recorded.crypto, recordedBlock] := by
  have h : Admissible recordedEnv
      ([genesisBlock Recorded.crypto, recordedBlock] ++ [recordedNext]) := admissible_recordedNext
  exact h.left

/-- A node pushes block 1 and is restarted. -/
theorem restart_answers_transfer :
    ∃ s₀ s s', load recordedEnv .empty = .ok s₀ ∧
      Machine.run (Event.apply recordedEnv) [.push recordedBlock] s₀ = some s ∧
      Event.apply recordedEnv .restart s = some s' ∧ s'.latest = some recordedBlock ∧
      (s'.getTx recordedEnv (Recorded.transfer.hash Recorded.crypto true)).1 =
        .ok ⟨some Recorded.transfer, recordedBlock.hash Recorded.crypto, 0, 1⟩ := by
  have hlook : ((load recordedEnv .empty).toOption.bind fun s₀ =>
      (Machine.run (Event.apply recordedEnv) [.push recordedBlock] s₀).map fun s =>
        decide (s.latest = some recordedBlock ∧
          (s.getTx recordedEnv (Recorded.transfer.hash Recorded.crypto true)).1 =
            .ok ⟨some Recorded.transfer, recordedBlock.hash Recorded.crypto, 0, 1⟩)) =
      some true := by
    decide +kernel
  obtain ⟨s₀, hs₀, hlook⟩ := Option.bind_eq_some_iff.mp hlook
  obtain ⟨s, hrun, hlook⟩ := Option.map_eq_some_iff.mp hlook
  obtain ⟨hlatest, htx⟩ := of_decide_eq_true hlook
  have hadm : Admissible recordedEnv (genesisBlock recordedEnv.C ::
      Event.pushed [.push recordedBlock]) := admissible_recordedBlock
  obtain ⟨s', hs', hlatest', -, -, htx'⟩ := restart_answers (Except.toOption_eq_some.mp hs₀) hadm hrun
  exact ⟨s₀, s, s', Except.toOption_eq_some.mp hs₀, hrun, hs', hlatest'.trans hlatest,
    (htx' _).trans htx⟩

end OrbiterSdk.BlockStorage
