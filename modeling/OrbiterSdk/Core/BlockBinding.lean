import OrbiterSdk.Core.BlockRoundTrip
import OrbiterSdk.Core.Recorded
import OrbiterSdk.Core.TxCanonical
import OrbiterSdk.Core.TxInjective
import OrbiterSdk.Lib.HashTree
import OrbiterSdk.Utils.BlockFormat

namespace OrbiterSdk

/-!
# What a block hash commits to

The hash of a block covers its header, and the header has the Merkle roots of the two lists of
transactions.  `Merkle::newLayer` sorts the two hashes of a pair, so that `Merkle::verify` needs
no positions: the root says nothing about which child of a node is the left one.

* `CollisionFree` — `sha3` has no collision among given strings and maps none to zero, the root
  of an empty list;
* `Merkle.getRoot_ofHashes` — the root is the value of the hash tree over the list;
* `Block.contents_of_hash` — accepted blocks with the same hash have the same transactions up
  to exchanging the children of Merkle nodes;
* `Block.hash_ignores_order` — two accepted blocks with the same hash and their transactions
  in different orders.
-/

/-- No two of the strings have the same hash, and none has the hash zero. -/
structure CollisionFree (C : Crypto) (strings : List Bytes) : Prop where
  injective : ∀ x ∈ strings, ∀ y ∈ strings, C.sha3 x = C.sha3 y → x = y
  ne_zero : ∀ x ∈ strings, C.sha3 x ≠ FixedStr.zero

theorem CollisionFree.of_nodup {C : Crypto} {strings distinct : List Bytes}
    (hsub : strings ⊆ distinct) (hnodup : (FixedStr.zero :: distinct.map C.sha3).Nodup) :
    CollisionFree C strings := by
  obtain ⟨hzero, hnodup⟩ := List.nodup_cons.mp hnodup
  constructor
  · intro x hx y hy h
    exact List.inj_on_of_nodup_map hnodup (hsub hx) (hsub hy) h
  · intro x hx h
    exact hzero (h ▸ List.mem_map_of_mem (hsub hx))

/-! ### Merkle roots -/

namespace Merkle

variable {α : Type} {C : Crypto} {hash : α → Hash}

/-- The hash at the leaf of an item. -/
def leafValue (C : Crypto) (hash : α → Hash) (x : α) : Hash := C.sha3 (hash x).data

/-- The hash at the root of a tree. -/
def treeRoot (C : Crypto) (hash : α → Hash) (t : HashTree α) : Hash :=
  t.value (leafValue C hash) (parent C)

theorem newLayer_map (layer : List (HashTree α)) :
    newLayer C (layer.map (treeRoot C hash)) = (HashTree.pairUp layer).map (treeRoot C hash) := by
  induction layer using HashTree.pairUp.induct with
  | case1 l r rest ih =>
    simp only [List.map_cons, newLayer, HashTree.pairUp, ih]
    rfl
  | case2 t => rfl
  | case3 => rfl

/-- The loop over the layers builds the trees of the last layer. -/
theorem getLast?_layers (fuel : Nat) (layer : List (HashTree α)) :
    (layers C fuel (layer.map (treeRoot C hash))).getLast? =
      some ((HashTree.reduce fuel layer).map (treeRoot C hash)) := by
  induction fuel generalizing layer with
  | zero => rfl
  | succ fuel ih =>
    unfold layers HashTree.reduce
    rw [List.length_map]
    split
    · rw [newLayer_map, List.getLast?_cons, ih, Option.getD_some]
    · rfl

/-- **The root is the value of the hash tree**, and zero for the empty list. -/
theorem getRoot_ofHashes (items : List α) :
    (ofHashes C (items.map hash)).getRoot =
      ((HashTree.ofList items).map (treeRoot C hash)).getD FixedStr.zero := by
  have hleaves : (items.map hash).map (fun h => C.sha3 h.data) =
      (items.map HashTree.leaf).map (treeRoot C hash) := by
    rw [List.map_map, List.map_map]
    rfl
  unfold getRoot ofHashes
  rw [hleaves, getLast?_layers, List.length_map, Option.getD_some, HashTree.reduce_ofList]
  cases HashTree.ofList items with
  | none => rfl
  | some t => rfl

/-- The strings that are hashed for a tree: the hashes of the items, and a pair at every
    node. -/
def treeStrings (C : Crypto) (hash : α → Hash) (t : HashTree α) : List Bytes :=
  t.leaves.map (fun x => (hash x).data) ++
    (t.pairs (leafValue C hash) (parent C)).map fun p => nodeBytes p.1 p.2

/-- The strings that are hashed for the Merkle tree over a list. -/
def strings (C : Crypto) (hash : α → Hash) (items : List α) : List Bytes :=
  (HashTree.ofList items).elim [] (treeStrings C hash)

theorem treeRoot_eq (t : HashTree α) : ∃ x ∈ treeStrings C hash t, treeRoot C hash t = C.sha3 x := by
  cases t with
  | leaf a => exact ⟨(hash a).data, List.mem_cons_self, rfl⟩
  | node l r =>
    refine ⟨nodeBytes (treeRoot C hash l) (treeRoot C hash r), ?_, parent_eq C _ _⟩
    exact List.mem_append_right _ (List.mem_map_of_mem List.mem_cons_self)

/-- Without collisions the tree binds its items, if their hashes do. -/
theorem binds {S : List Bytes} (hfree : CollisionFree C S) {t t' : HashTree α}
    (ht : treeStrings C hash t ⊆ S) (ht' : treeStrings C hash t' ⊆ S)
    (hitem : ∀ a ∈ t.leaves, ∀ b ∈ t'.leaves, hash a = hash b → a = b) :
    HashTree.Binds (leafValue C hash) (parent C) t t' := by
  have hleaf : ∀ {u : HashTree α}, treeStrings C hash u ⊆ S → ∀ a ∈ u.leaves, (hash a).data ∈ S :=
    fun hu a ha => hu (List.mem_append_left _ (List.mem_map_of_mem ha))
  have hpair : ∀ {u : HashTree α}, treeStrings C hash u ⊆ S →
      ∀ p ∈ u.pairs (leafValue C hash) (parent C), nodeBytes p.1 p.2 ∈ S :=
    fun hu p hp => hu (List.mem_append_right _ (List.mem_map_of_mem hp))
  -- a hash has 32 bytes and a pair has 64
  have hsep : ∀ (a : α) (p : Hash × Hash), (hash a).data ≠ nodeBytes p.1 p.2 := by
    intro a p h
    have hlen := congrArg List.length h
    rw [(hash a).size_eq, length_nodeBytes] at hlen
    cases hlen
  constructor
  · intro a ha b hb h
    exact hitem a ha b hb (FixedStr.ext
      (hfree.injective _ (hleaf ht a ha) _ (hleaf ht' b hb) h))
  · intro a ha q hq h
    rw [parent_eq] at h
    exact hsep a q (hfree.injective _ (hleaf ht a ha) _ (hpair ht' q hq) h)
  · intro p hp b hb h
    rw [parent_eq] at h
    exact hsep b p (hfree.injective _ (hpair ht p hp) _ (hleaf ht' b hb) h).symm
  · intro p hp q hq h
    rw [parent_eq, parent_eq] at h
    exact nodeBytes_inj (hfree.injective _ (hpair ht p hp) _ (hpair ht' q hq) h)

/-- **The Merkle root commits to its list up to exchanges.** -/
theorem swapped_of_getRoot {S : List Bytes} (hfree : CollisionFree C S) {items items' : List α}
    (hitems : strings C hash items ⊆ S) (hitems' : strings C hash items' ⊆ S)
    (hitem : ∀ a ∈ items, ∀ b ∈ items', hash a = hash b → a = b)
    (hroot : (ofHashes C (items.map hash)).getRoot = (ofHashes C (items'.map hash)).getRoot) :
    HashTree.SwappedLists items items' := by
  rw [getRoot_ofHashes, getRoot_ofHashes] at hroot
  have hne : ∀ {t : HashTree α}, treeStrings C hash t ⊆ S → treeRoot C hash t ≠ FixedStr.zero := by
    intro t ht
    obtain ⟨x, hx, hroot⟩ := treeRoot_eq t
    rw [hroot]
    exact hfree.ne_zero x (ht hx)
  unfold strings at hitems hitems'
  unfold HashTree.SwappedLists
  cases htree : HashTree.ofList items with
  | none =>
    cases htree' : HashTree.ofList items' with
    | none => exact .none
    | some t' =>
      rw [htree, htree'] at hroot
      rw [htree'] at hitems'
      exact absurd hroot.symm (hne hitems')
  | some t =>
    rw [htree] at hitems
    cases htree' : HashTree.ofList items' with
    | none =>
      rw [htree, htree'] at hroot
      exact absurd hroot (hne hitems)
    | some t' =>
      rw [htree, htree'] at hroot
      rw [htree'] at hitems'
      rw [← HashTree.leaves_of_ofList htree, ← HashTree.leaves_of_ofList htree'] at hitem
      exact .some (HashTree.swapped_of_value_eq (binds hfree hitems hitems' hitem) hroot)

end Merkle

/-! ### Transactions -/

/-- The encoding of an accepted transaction fixes it: the sender comes from the signature. -/
theorem TxBlock.eq_of_rlpSerialize {C : Crypto} {bytes bytes' : Bytes} {id id' : UInt64}
    {tx tx' : TxBlock} (htx : TxBlock.parse C bytes id = .ok tx)
    (htx' : TxBlock.parse C bytes' id' = .ok tx')
    (h : tx.rlpSerialize true = tx'.rlpSerialize true) : tx = tx' := by
  obtain ⟨hread, -, -, hsender⟩ := TxBlock.parse_eq_ok htx
  obtain ⟨hread', -, -, hsender'⟩ := TxBlock.parse_eq_ok htx'
  obtain ⟨-, -, hv, -, -⟩ := TxBlock.readFields_bounds hread
  obtain ⟨-, -, hv', -, -⟩ := TxBlock.readFields_bounds hread'
  obtain ⟨hmessage, hsame, hr, hs⟩ := TxBlock.same_of_rlpSerialize_true hv hv' h
  have hunsigned : { tx with sender := FixedStr.zero } = { tx' with sender := FixedStr.zero } := by
    rw [TxBlock.mk.injEq]
    exact ⟨hmessage.receiver, rfl, hmessage.data, hmessage.chainId, hmessage.nonce,
      hmessage.value, hmessage.maxPriorityFeePerGas, hmessage.maxFeePerGas, hmessage.gasLimit,
      hsame, hr, hs⟩
  have hkey : tx.senderKey C = tx'.senderKey C := by
    have h := congrArg (TxBlock.senderKey C) hunsigned
    exact h
  have haddress : tx.sender = tx'.sender := by rw [hsender, hsender', hkey]
  calc tx = { { tx with sender := FixedStr.zero } with sender := tx.sender } := rfl
    _ = { { tx' with sender := FixedStr.zero } with sender := tx'.sender } := by
      rw [hunsigned, haddress]
    _ = tx' := rfl

theorem TxValidator.eq_of_rlpSerialize {C : Crypto} {bytes bytes' : Bytes} {id id' : UInt64}
    {tx tx' : TxValidator} (htx : TxValidator.parse C bytes id = .ok tx)
    (htx' : TxValidator.parse C bytes' id' = .ok tx')
    (h : tx.rlpSerialize true = tx'.rlpSerialize true) : tx = tx' := by
  rw [TxValidator.parse_eq] at htx htx'
  obtain ⟨f, -, hf⟩ := Except.bind_eq_ok.mp htx
  obtain ⟨f', -, hf'⟩ := Except.bind_eq_ok.mp htx'
  obtain ⟨-, -, -, -, rfl⟩ := TxValidator.recoverSender_eq_ok.mp hf
  obtain ⟨-, -, -, -, rfl⟩ := TxValidator.recoverSender_eq_ok.mp hf'
  obtain ⟨hdata, hheight, hv, hr, hs⟩ := TxValidator.same_of_rlpSerialize_true h
  have hfields : f = f' := by
    rw [TxValidator.Fields.mk.injEq]
    exact ⟨hdata, hheight, hv, hr, hs⟩
  rw [hfields]

/-! ### Blocks -/

namespace Block

variable {C : Crypto}

/-- The strings a block is hashed through: its header, its transactions and the nodes of its
    two Merkle trees. -/
def strings (C : Crypto) (b : Block) : List Bytes :=
  b.serializeHeader :: (b.txs.map (fun tx => tx.rlpSerialize true) ++
    b.txValidators.map (fun tx => tx.rlpSerialize true) ++
    Merkle.strings C (fun tx : TxBlock => tx.hash C true) b.txs ++
    Merkle.strings C (fun tx : TxValidator => tx.hash C true) b.txValidators)

section

variable {b : Block}

theorem rlpSerialize_tx_mem {tx : TxBlock} (h : tx ∈ b.txs) :
    tx.rlpSerialize true ∈ b.strings C :=
  List.mem_cons_of_mem _ (List.mem_append_left _ (List.mem_append_left _
    (List.mem_append_left _ (List.mem_map_of_mem h))))

theorem rlpSerialize_txValidator_mem {tx : TxValidator} (h : tx ∈ b.txValidators) :
    tx.rlpSerialize true ∈ b.strings C :=
  List.mem_cons_of_mem _ (List.mem_append_left _ (List.mem_append_left _
    (List.mem_append_right _ (List.mem_map_of_mem h))))

theorem txStrings_subset :
    Merkle.strings C (fun tx : TxBlock => tx.hash C true) b.txs ⊆ b.strings C :=
  fun _ hx => List.mem_cons_of_mem _ (List.mem_append_left _ (List.mem_append_right _ hx))

theorem validatorStrings_subset :
    Merkle.strings C (fun tx : TxValidator => tx.hash C true) b.txValidators ⊆ b.strings C :=
  fun _ hx => List.mem_cons_of_mem _ (List.mem_append_right _ hx)

end

/-- The header has the two roots at fixed places. -/
theorem roots_of_serializeHeader {b b' : Block} (h : b.serializeHeader = b'.serializeHeader) :
    b.txMerkleRoot = b'.txMerkleRoot ∧ b.validatorMerkleRoot = b'.validatorMerkleRoot := by
  unfold serializeHeader at h
  simp only [List.append_assoc] at h
  obtain ⟨-, h⟩ := List.append_inj h (by simp only [FixedStr.size_eq])
  obtain ⟨-, h⟩ := List.append_inj h (by simp only [FixedStr.size_eq])
  obtain ⟨hval, h⟩ := List.append_inj h (by simp only [FixedStr.size_eq])
  obtain ⟨htx, -⟩ := List.append_inj h (by simp only [FixedStr.size_eq])
  exact ⟨FixedStr.ext htx, FixedStr.ext hval⟩

/-- **Blocks with the same hash have the same contents, up to the order of siblings.**  The
    order of the two children of a Merkle node is not part of the hash. -/
theorem contents_of_hash {thrNum thrNum' : Nat} {bytes bytes' : Bytes} {id id' : UInt64}
    {b b' : Block} (h : parse C thrNum bytes id = .ok b) (h' : parse C thrNum' bytes' id' = .ok b')
    (hfree : CollisionFree C (b.strings C ++ b'.strings C)) (hhash : b.hash C = b'.hash C) :
    HashTree.SwappedLists b.txs b'.txs ∧
      HashTree.SwappedLists b.txValidators b'.txValidators ∧
      b.txs.Perm b'.txs ∧ b.txValidators.Perm b'.txValidators := by
  have hb := parse_ok h
  have hb' := parse_ok h'
  have hheader : b.serializeHeader = b'.serializeHeader :=
    hfree.injective _ (List.mem_append_left _ List.mem_cons_self) _
      (List.mem_append_right _ List.mem_cons_self) hhash
  obtain ⟨htxRoot, hvalRoot⟩ := roots_of_serializeHeader hheader
  rw [hb.txMerkleRoot, hb'.txMerkleRoot] at htxRoot
  rw [hb.validatorMerkleRoot, hb'.validatorMerkleRoot] at hvalRoot
  have hleft := List.subset_append_left (b.strings C) (b'.strings C)
  have hright := List.subset_append_right (b.strings C) (b'.strings C)
  have htxs : HashTree.SwappedLists b.txs b'.txs := by
    refine Merkle.swapped_of_getRoot hfree (List.Subset.trans txStrings_subset hleft)
      (List.Subset.trans txStrings_subset hright) ?_ htxRoot
    intro tx htx tx' htx' heq
    obtain ⟨bs, id, -, hparse⟩ := hb.txs tx htx
    obtain ⟨bs', id', -, hparse'⟩ := hb'.txs tx' htx'
    exact TxBlock.eq_of_rlpSerialize hparse hparse' (hfree.injective _
      (hleft (rlpSerialize_tx_mem htx)) _ (hright (rlpSerialize_tx_mem htx')) heq)
  have hvals : HashTree.SwappedLists b.txValidators b'.txValidators := by
    refine Merkle.swapped_of_getRoot hfree (List.Subset.trans validatorStrings_subset hleft)
      (List.Subset.trans validatorStrings_subset hright) ?_ hvalRoot
    intro tx htx tx' htx' heq
    obtain ⟨bs, id, -, hparse⟩ := hb.txValidators tx htx
    obtain ⟨bs', id', -, hparse'⟩ := hb'.txValidators tx' htx'
    exact TxValidator.eq_of_rlpSerialize hparse hparse' (hfree.injective _
      (hleft (rlpSerialize_txValidator_mem htx)) _
      (hright (rlpSerialize_txValidator_mem htx')) heq)
  exact ⟨htxs, hvals, htxs.perm, hvals.perm⟩

/-- A transfer and a call in the two orders. -/
def transferFirst : Block := Recorded.block [Recorded.transfer, Recorded.rdPoSCall]

def transferLast : Block := Recorded.block [Recorded.rdPoSCall, Recorded.transfer]

theorem parse_rdPoSCall : TxBlock.parse Recorded.crypto (Recorded.rdPoSCall.rlpSerialize true) 8080 =
    .ok Recorded.rdPoSCall := by
  decide +kernel

theorem parse_transferFirst :
    parse Recorded.crypto 4 transferFirst.serializeBlock 8080 = .ok transferFirst := by
  refine parse_recorded ⟨by decide +kernel, by decide +kernel, by decide +kernel⟩ ?_
    ⟨by decide +kernel, by decide +kernel⟩ 4
  exact List.forall_mem_cons.mpr ⟨Recorded.parse_transfer, List.forall_mem_singleton.mpr
    parse_rdPoSCall⟩

theorem parse_transferLast :
    parse Recorded.crypto 4 transferLast.serializeBlock 8080 = .ok transferLast := by
  refine parse_recorded ⟨by decide +kernel, by decide +kernel, by decide +kernel⟩ ?_
    ⟨by decide +kernel, by decide +kernel⟩ 4
  exact List.forall_mem_cons.mpr ⟨parse_rdPoSCall, List.forall_mem_singleton.mpr
    Recorded.parse_transfer⟩

theorem hash_transferFirst :
    transferFirst.hash Recorded.crypto = transferLast.hash Recorded.crypto := by
  have hheader : transferFirst.serializeHeader = transferLast.serializeHeader := by
    decide +kernel
  exact congrArg Recorded.crypto.sha3 hheader

theorem collisionFree_transferFirst : CollisionFree Recorded.crypto
    (transferFirst.strings Recorded.crypto ++ transferLast.strings Recorded.crypto) := by
  refine CollisionFree.of_nodup (List.subset_dedup _) ?_
  decide +kernel

theorem contents_transferFirst :
    HashTree.SwappedLists transferFirst.txs transferLast.txs ∧
      transferFirst.txs.Perm transferLast.txs := by
  obtain ⟨htxs, -, hperm, -⟩ := contents_of_hash parse_transferFirst parse_transferLast
    collisionFree_transferFirst hash_transferFirst
  exact ⟨htxs, hperm⟩

/-- **The hash does not fix the order.**  Both blocks are accepted and have the same hash, the
    one with the transfer first and the one with the transfer last. -/
theorem hash_ignores_order :
    parse Recorded.crypto 4 transferFirst.serializeBlock 8080 = .ok transferFirst ∧
      parse Recorded.crypto 4 transferLast.serializeBlock 8080 = .ok transferLast ∧
      CollisionFree Recorded.crypto
        (transferFirst.strings Recorded.crypto ++ transferLast.strings Recorded.crypto) ∧
      transferFirst.hash Recorded.crypto = transferLast.hash Recorded.crypto ∧
      transferFirst.txs ≠ transferLast.txs := by
  refine ⟨parse_transferFirst, parse_transferLast, collisionFree_transferFirst,
    hash_transferFirst, ?_⟩
  decide +kernel

end Block

end OrbiterSdk
