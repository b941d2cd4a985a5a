import OrbiterSdk.Utils.Merkle

namespace OrbiterSdk

/-!
# Proofs of Merkle leaves

`Merkle::getProof` collects the siblings of the nodes between a leaf and the root, and
`Merkle::verify` hashes a leaf with them.  A last node without a partner is carried over to the
next layer, but `getProof` reads a sibling for it all the same, one place behind the end of
the layer.

* `newLayer_getElem` — where a pair of siblings goes in the next layer;
* `proofLoop_paired`, `proofLoop_unpaired` — the walk along the layers, with and without a
  sibling at each of them;
* `getProof_exact_iff` — the proof of a leaf is complete and sound exactly if the tree is not
  empty and no node between the leaf and the root is without a sibling.
-/

/-- The place of the other child: `(pos % 2 == 0) ? pos + 1 : pos - 1`. -/
def sibling (pos : Nat) : Nat := if pos % 2 = 0 then pos + 1 else pos - 1

namespace Merkle

/-! ### The code -/

/-- The loop of `getProof` over the layers.  `layer[pos]` is not checked.  (`std::ceil` takes a
    `double`, which is exact below 2⁵³, more nodes than there is memory for.) -/
def proofLoop : List (List Hash) → Nat → Except Fail (List Hash)
  | [], _ => .ok []
  | layer :: rest, pos =>
    if layer.length = 1 then .ok []
    else
      match layer[sibling pos]? with
      | none => .error .oob
      | some hash => do return hash :: (← proofLoop rest (sibling pos / 2))

/-- `Merkle::getLeaves`. -/
def getLeaves (m : Merkle) : List Hash := m.tree.head?.getD []

/-- `Merkle::getProof`.  The last index is computed without a sign, so that of an empty tree is
    2⁶⁴ - 1. -/
def getProof (m : Merkle) (leafIndex : UInt64) : Except Fail (List Hash) :=
  if UInt64.ofNat m.getLeaves.length - 1 < leafIndex then .ok []
  else proofLoop m.tree leafIndex.toNat

/-- `Merkle::verify`. -/
def verify (C : Crypto) (proof : List Hash) (leaf root : Hash) : Bool :=
  decide (proof.foldl (parent C) leaf = root)

/-! ### Pairs of siblings -/

theorem parent_comm (C : Crypto) (a b : Hash) : parent C a b = parent C b a := by
  unfold parent
  by_cases hab : a ≤ b
  · by_cases hba : b ≤ a
    · rw [FixedStr.le_antisymm hab hba]
    · rw [if_pos hab, if_neg hba]
  · rw [if_neg hab, if_pos ((FixedStr.le_total a b).resolve_left hab)]

theorem sibling_div (pos : Nat) : sibling pos / 2 = pos / 2 := by
  unfold sibling
  split
  · omega
  · omega

theorem newLayer_getElem {C : Crypto} {layer : List Hash} {pos : Nat} {a b : Hash}
    (ha : layer[pos]? = some a) (hb : layer[sibling pos]? = some b) :
    (newLayer C layer)[pos / 2]? = some (parent C a b) := by
  induction layer using newLayer.induct generalizing pos with
  | case1 c d rest ih =>
    rcases pos with - | - | pos
    · cases ha
      cases hb
      rfl
    · cases ha
      cases hb
      rw [parent_comm]
      rfl
    · have hsibling : sibling (pos + 2) = sibling pos + 2 := by
        unfold sibling
        split
        · grind
        · grind
      rw [hsibling] at hb
      rw [show (pos + 2) / 2 = pos / 2 + 1 by omega]
      exact ih ha hb
  | case2 c =>
    -- A single node has no sibling.
    cases pos with
    | zero => cases hb
    | succ pos => cases ha
  | case3 => cases ha

/-! ### Which leaves have a proof -/

/-- The number of nodes of the layer `k` above `n` leaves. -/
def layerSize (n k : Nat) : Nat := (fun size => (size + 1) / 2)^[k] n

/-- The node of the leaf `i` has a sibling in every layer below the root. -/
def Paired (n i : Nat) : Prop :=
  ∀ k, 1 < layerSize n k → sibling (i / 2 ^ k) < layerSize n k

theorem layerSize_succ (n k : Nat) : layerSize n (k + 1) = layerSize ((n + 1) / 2) k := rfl

theorem layerSize_le_one {n : Nat} (h : n ≤ 1) (k : Nat) : layerSize n k ≤ 1 := by
  induction k generalizing n with
  | zero => exact h
  | succ k ih =>
    rw [layerSize_succ]
    exact ih (by omega)

theorem paired_root {n : Nat} (h : n ≤ 1) (i : Nat) : Paired n i := by
  intro k hk
  have hle := layerSize_le_one h k
  omega

theorem paired_iff {n : Nat} (h : 1 < n) (i : Nat) :
    Paired n i ↔ sibling i < n ∧ Paired ((n + 1) / 2) (i / 2) := by
  have hshift : ∀ k, i / 2 ^ (k + 1) = i / 2 / 2 ^ k := by
    intro k
    rw [Nat.div_div_eq_div_mul, pow_succ, Nat.mul_comm]
  constructor
  · intro hpaired
    refine ⟨by simpa [layerSize] using hpaired 0 h, ?_⟩
    intro k hk
    rw [← hshift]
    exact hpaired (k + 1) hk
  · rintro ⟨hzero, hsucc⟩ k hk
    cases k with
    | zero => simpa [layerSize] using hzero
    | succ k =>
      rw [hshift]
      exact hsucc k hk

/-! ### The walk along the layers -/

/-- `sha3` has no second preimage for the pairs of the nodes: whatever `verify` hashes with a
    node of the layer has the hash of two nodes only if it is the same string. -/
def BindsLayer (C : Crypto) (layer : List Hash) : Prop :=
  ∀ a ∈ layer, ∀ b ∈ layer, ∀ x,
    C.sha3 (nodeBytes x b) = C.sha3 (nodeBytes a b) → nodeBytes x b = nodeBytes a b

variable {C : Crypto}

theorem parent_cancel {layer : List Hash} (hbinds : BindsLayer C layer) {a b : Hash}
    (ha : a ∈ layer) (hb : b ∈ layer) (x : Hash) : parent C x b = parent C a b ↔ x = a := by
  constructor
  · intro h
    rw [parent_eq, parent_eq] at h
    rcases nodeBytes_inj (hbinds a ha b hb x h) with heq | heq
    · exact (Prod.mk.inj heq).1
    · obtain ⟨hxb, hba⟩ := Prod.mk.inj heq
      exact hxb.trans hba
  · rintro rfl
    rfl

theorem layers_of_le {layer : List Hash} (h : layer.length ≤ 1) (fuel : Nat) :
    layers C fuel layer = [layer] := by
  cases fuel with
  | zero => rfl
  | succ fuel => exact if_neg (not_lt.mpr h)

theorem layers_of_lt {layer : List Hash} (h : 1 < layer.length) (fuel : Nat) :
    layers C (fuel + 1) layer = layer :: layers C fuel (newLayer C layer) := if_pos h

theorem layers_ne_nil (fuel : Nat) (layer : List Hash) : layers C fuel layer ≠ [] := by
  cases fuel with
  | zero => exact List.cons_ne_nil _ _
  | succ fuel =>
    unfold layers
    split
    · exact List.cons_ne_nil _ _
    · exact List.cons_ne_nil _ _

theorem getRoot_cons (layer : List Hash) {rest : List (List Hash)} (h : rest ≠ []) :
    getRoot ⟨layer :: rest⟩ = getRoot ⟨rest⟩ := by
  unfold getRoot
  rw [List.getLast?_cons_of_ne_nil h]

theorem proofLoop_cons {layer : List Hash} (h : layer.length ≠ 1) {pos : Nat} {b : Hash}
    (hb : layer[sibling pos]? = some b) {rest : List (List Hash)} :
    proofLoop (layer :: rest) pos = do return b :: (← proofLoop rest (pos / 2)) := by
  rw [proofLoop, if_neg h, sibling_div]
  rw [hb]

theorem proofLoop_root {layer : List Hash} (h : layer.length ≤ 1) {pos : Nat} {a : Hash}
    (ha : layer[pos]? = some a) (fuel : Nat) :
    proofLoop (layers C fuel layer) pos = .ok [] ∧ getRoot ⟨layers C fuel layer⟩ = a := by
  have hpos : pos < layer.length := (List.getElem?_eq_some_iff.mp ha).1
  obtain ⟨b, rfl⟩ := List.length_eq_one_iff.mp (show layer.length = 1 by omega)
  have hzero : pos = 0 := by
    rw [List.length_singleton] at hpos
    omega
  subst hzero
  cases ha
  rw [layers_of_le h]
  exact ⟨rfl, rfl⟩

/-- **A leaf with siblings.**  The loop finds them all, and hashed with them a value gives the
    root exactly if it is the leaf. -/
theorem proofLoop_paired {fuel pos : Nat} {layer : List Hash} {a : Hash}
    (hfuel : layer.length ≤ fuel + 1) (hbinds : ∀ l ∈ layers C fuel layer, BindsLayer C l)
    (ha : layer[pos]? = some a) (hpaired : Paired layer.length pos) :
    ∃ proof, proofLoop (layers C fuel layer) pos = .ok proof ∧
      ∀ x, proof.foldl (parent C) x = getRoot ⟨layers C fuel layer⟩ ↔ x = a := by
  -- The induction is on the layers; a step climbs from a node to the hash of it and its sibling.
  induction fuel generalizing layer pos a with
  | zero =>
    obtain ⟨hloop, hroot⟩ := proofLoop_root (C := C) hfuel ha 0
    exact ⟨[], hloop, fun x => by rw [hroot]; rfl⟩
  | succ fuel ih =>
    rcases Nat.lt_or_ge 1 layer.length with hlt | hle
    · rw [layers_of_lt hlt] at hbinds ⊢
      obtain ⟨hsibling, hpaired⟩ := (paired_iff hlt pos).mp hpaired
      have hb : layer[sibling pos]? = some layer[sibling pos] := List.getElem?_eq_getElem hsibling
      have hlength := length_newLayer C layer
      rw [← hlength] at hpaired
      obtain ⟨proof, hloop, hproof⟩ := ih (by omega)
        (fun l hl => hbinds l (List.mem_cons_of_mem _ hl)) (newLayer_getElem ha hb) hpaired
      refine ⟨layer[sibling pos] :: proof, ?_, ?_⟩
      · rw [proofLoop_cons (by omega) hb, hloop]
        rfl
      · intro x
        rw [getRoot_cons layer (layers_ne_nil fuel _), List.foldl_cons, hproof]
        exact parent_cancel (hbinds layer List.mem_cons_self) (List.mem_of_getElem? ha)
          (List.getElem_mem hsibling) x
    · obtain ⟨hloop, hroot⟩ := proofLoop_root (C := C) hle ha (fuel + 1)
      exact ⟨[], hloop, fun x => by rw [hroot]; rfl⟩

/-- **A leaf without a sibling somewhere.**  The loop reads behind the end of that layer. -/
theorem proofLoop_unpaired {fuel pos : Nat} {layer : List Hash}
    (hfuel : layer.length ≤ fuel + 1) (hpos : pos < layer.length)
    (hunpaired : ¬ Paired layer.length pos) :
    proofLoop (layers C fuel layer) pos = .error .oob := by
  have hlt : 1 < layer.length := by
    by_contra hle
    exact hunpaired (paired_root (not_lt.mp hle) pos)
  induction fuel generalizing layer pos with
  | zero => omega
  | succ fuel ih =>
    rw [layers_of_lt hlt]
    rw [paired_iff hlt] at hunpaired
    by_cases hsibling : sibling pos < layer.length
    · -- There is one in this layer, so the walk breaks off further up.
      have habove : ¬ Paired ((layer.length + 1) / 2) (pos / 2) :=
        fun h => hunpaired ⟨hsibling, h⟩
      rw [← length_newLayer C] at habove
      have hlength := length_newLayer C layer
      have hmore : 1 < (newLayer C layer).length := by
        by_contra hle
        exact habove (paired_root (not_lt.mp hle) _)
      rw [proofLoop_cons (by omega) (List.getElem?_eq_getElem hsibling),
        ih (by omega) (by omega) habove hmore]
      rfl
    · rw [proofLoop, if_neg (by omega), List.getElem?_eq_none (not_lt.mp hsibling)]

/-! ### Proofs of leaves -/

/-- What `getProof` is for: the proof of a leaf is verified for this leaf and nothing else, and
    there is no proof behind the last leaf. -/
structure Exact (C : Crypto) (m : Merkle) (i : UInt64) : Prop where
  leaf : ∀ a, m.getLeaves[i.toNat]? = some a →
    ∃ proof, m.getProof i = .ok proof ∧ ∀ x, verify C proof x m.getRoot = true ↔ x = a
  beyond : m.getLeaves.length ≤ i.toNat → m.getProof i = .ok []

theorem getLeaves_layers (fuel : Nat) (layer : List Hash) :
    getLeaves ⟨layers C fuel layer⟩ = layer := by
  cases fuel with
  | zero => rfl
  | succ fuel =>
    unfold getLeaves layers
    split
    · rfl
    · rfl

theorem index_check {n : Nat} (hpos : 0 < n) (hsize : n < 2 ^ 64) (i : UInt64) :
    UInt64.ofNat n - 1 < i ↔ n ≤ i.toNat := by
  have hone : (1 : UInt64) ≤ UInt64.ofNat n := by
    rw [UInt64.le_iff_toNat_le, UInt64.toNat_ofNat_of_lt' hsize]
    exact hpos
  rw [UInt64.lt_iff_toNat_lt, UInt64.toNat_sub_of_le _ _ hone, UInt64.toNat_ofNat_of_lt' hsize]
  show n - 1 < i.toNat ↔ n ≤ i.toNat
  omega

theorem length_getLeaves (C : Crypto) (hashes : List Hash) :
    (ofHashes C hashes).getLeaves.length = hashes.length := by
  rw [ofHashes, getLeaves_layers, List.length_map]

/-- Without leaves every index passes the check, and the loop reads from the empty layer. -/
theorem getProof_empty (i : UInt64) : (ofHashes C []).getProof i = .error .oob := by
  have hlast : ¬ UInt64.ofNat 0 - 1 < i := by
    rw [UInt64.lt_iff_toNat_lt]
    exact not_lt.mpr (Nat.le_of_lt_succ i.toNat_lt)
  exact if_neg hlast

section Leaves

variable {hashes : List Hash} (hsize : hashes.length < 2 ^ 64) {i : UInt64}

include hsize

theorem getProof_of_le (hpos : 0 < hashes.length) (h : hashes.length ≤ i.toNat) :
    (ofHashes C hashes).getProof i = .ok [] := by
  rw [← length_getLeaves C] at hsize hpos h
  exact if_pos ((index_check hpos hsize i).mpr h)

theorem getProof_of_lt (h : i.toNat < hashes.length) :
    (ofHashes C hashes).getProof i =
      proofLoop (layers C hashes.length (hashes.map fun h => C.sha3 h.data)) i.toNat := by
  have hpos : 0 < hashes.length := by omega
  rw [← length_getLeaves C] at hsize hpos h
  exact if_neg fun hlt => not_le.mpr h ((index_check hpos hsize i).mp hlt)

end Leaves

/-- **Merkle proofs.**  Where `sha3` has no second preimages for the nodes of the tree,
    `getProof` and `verify` do what they are for exactly if there are leaves and the nodes
    between the leaf, if there is one, and the root have siblings. -/
theorem getProof_exact_iff {hashes : List Hash} {i : UInt64} (hsize : hashes.length < 2 ^ 64)
    (hbinds : ∀ layer ∈ (ofHashes C hashes).tree, BindsLayer C layer) :
    Exact C (ofHashes C hashes) i ↔
      hashes ≠ [] ∧ (i.toNat < hashes.length → Paired hashes.length i.toNat) := by
  have hmap : (hashes.map fun h => C.sha3 h.data).length = hashes.length := List.length_map _
  have hleaves : (ofHashes C hashes).getLeaves = hashes.map fun h => C.sha3 h.data :=
    getLeaves_layers _ _
  constructor
  · intro hexact
    constructor
    · rintro rfl
      have hproof := hexact.beyond (Nat.zero_le _)
      rw [getProof_empty] at hproof
      cases hproof
    · intro hi
      by_contra hunpaired
      rw [← hmap] at hunpaired
      have hleaf : i.toNat < (ofHashes C hashes).getLeaves.length := by
        rw [length_getLeaves]
        exact hi
      obtain ⟨proof, hproof, -⟩ := hexact.leaf _ (List.getElem?_eq_getElem hleaf)
      rw [getProof_of_lt hsize hi, proofLoop_unpaired (by omega) (by omega) hunpaired] at hproof
      cases hproof
  · rintro ⟨hne, hpaired⟩
    constructor
    · intro a ha
      rw [hleaves] at ha
      have hi : i.toNat < hashes.length := hmap ▸ (List.getElem?_eq_some_iff.mp ha).1
      have hpaired := hpaired hi
      rw [← hmap] at hpaired
      obtain ⟨proof, hloop, hproof⟩ := proofLoop_paired (by omega) hbinds ha hpaired
      refine ⟨proof, (getProof_of_lt hsize hi).trans hloop, ?_⟩
      intro x
      rw [verify, decide_eq_true_iff]
      exact hproof x
    · intro h
      rw [length_getLeaves] at h
      exact getProof_of_le hsize (List.length_pos_of_ne_nil hne) h

/-! ### A hash without second preimages -/

/-- A hash that adds up the first 32 bytes and the rest, byte by byte and without carries. -/
def xorHash : Crypto where
  sha3 bs := FixedStr.ofBytes
    (List.zipWith (· ^^^ ·) (bs.take 32) (bs.drop 32 ++ List.replicate 32 0))
  ecdsaRecover _ _ := none
  ecPubkeyCreate _ := none
  ecdsaSignRecoverable _ _ := none

theorem zipWith_xor_cancel {xs ys zs : Bytes} (hx : xs.length = zs.length)
    (hy : ys.length = zs.length)
    (h : List.zipWith (· ^^^ ·) xs zs = List.zipWith (· ^^^ ·) ys zs) : xs = ys := by
  induction zs generalizing xs ys with
  | nil => rw [List.length_eq_zero_iff.mp hx, List.length_eq_zero_iff.mp hy]
  | cons z zs ih =>
    obtain ⟨x, xs, rfl⟩ := List.exists_cons_of_length_eq_add_one hx
    obtain ⟨y, ys, rfl⟩ := List.exists_cons_of_length_eq_add_one hy
    obtain ⟨hhead, htail⟩ := List.cons.inj h
    rw [(UInt8.xor_left_inj z).mp hhead, ih (Nat.succ.inj hx) (Nat.succ.inj hy) htail]

theorem xorHash_parent (a b : Hash) :
    (parent xorHash a b).data = List.zipWith (· ^^^ ·) a.data b.data := by
  have hpair : ∀ c d : Hash, (xorHash.sha3 (c.data ++ d.data)).data =
      List.zipWith (· ^^^ ·) c.data d.data := by
    intro c d
    show (List.zipWith (· ^^^ ·) ((c.data ++ d.data).take 32)
      ((c.data ++ d.data).drop 32 ++ List.replicate 32 0) ++ List.replicate 32 0).take 32 = _
    have hlen : c.data.length = d.data.length := by rw [c.size_eq, d.size_eq]
    rw [List.take_left' c.size_eq, List.drop_left' c.size_eq, ← List.append_nil c.data,
      List.zipWith_append hlen, List.zipWith_nil_left, List.append_nil, List.append_nil]
    refine List.take_left' ?_
    rw [List.length_zipWith, c.size_eq, d.size_eq]
    rfl
  unfold parent
  split
  · exact hpair a b
  · rw [hpair b a]
    exact List.zipWith_comm_of_comm UInt8.xor_comm

theorem xorHash_binds (layer : List Hash) : BindsLayer xorHash layer := by
  intro a _ b _ x h
  rw [← parent_eq, ← parent_eq] at h
  have hdata := congrArg FixedStr.data h
  rw [xorHash_parent, xorHash_parent] at hdata
  have hxa : x = a := FixedStr.ext (zipWith_xor_cancel (by rw [x.size_eq, b.size_eq])
    (by rw [a.size_eq, b.size_eq]) hdata)
  rw [hxa]

/-- `n` leaves that are numbered. -/
def numbered (n : Nat) : List Hash := (List.range n).map (FixedStr.ofNat 32)

/-- The fourth of six leaves has siblings up to the root, so it has a proof. -/
theorem getProof_exact_iff_six : Exact xorHash (ofHashes xorHash (numbered 6)) 3 := by
  refine (getProof_exact_iff (by decide) fun layer _ => xorHash_binds layer).mpr ⟨by decide, ?_⟩
  intro _
  have hbase : Paired 1 0 := paired_root le_rfl 0
  have htop : Paired 2 0 := (paired_iff (by decide) 0).mpr ⟨by decide, hbase⟩
  have hmiddle : Paired 3 1 := (paired_iff (by decide) 1).mpr ⟨by decide, htop⟩
  exact (paired_iff (by decide) 3).mpr ⟨by decide, hmiddle⟩

/-- The last of three leaves has none, and neither has an empty tree: `getProof` reads outside
    its layer. -/
theorem getProof_outside :
    (∀ layer ∈ (ofHashes xorHash (numbered 3)).tree, BindsLayer xorHash layer) ∧
      (ofHashes xorHash (numbered 3)).getProof 2 = .error .oob ∧
      (ofHashes xorHash []).getProof 0 = .error .oob :=
  ⟨fun layer _ => xorHash_binds layer, by decide +kernel, by decide +kernel⟩

end Merkle

end OrbiterSdk
