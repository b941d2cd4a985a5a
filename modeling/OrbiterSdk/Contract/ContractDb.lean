import OrbiterSdk.Contract.Wrapper
import OrbiterSdk.Utils.Block
import OrbiterSdk.Utils.Db

namespace OrbiterSdk

/-!
# Contracts in the database

The destructors of `ERC20`, `NativeWrapper` and `ERC20Wrapper` write the committed variables
under `DBPrefix::contracts`, the contract's address and a name; the constructors from a
database read them.  A map to maps is written as one entry per pair, but under the outer key
alone, so a later pair replaces an earlier one.

* `Iteration` — the order in which an unordered map is gone through;
* `saveToken`, `loadToken`, `ERC20Wrapper.save`, `ERC20Wrapper.load` — the code;
* `area_saveAll_of_mem` — what a destructor leaves under each name;
* `plain_records`, `nested_records` — the entries a constructor then finds for a map.
-/

/-! ### Keys -/

/-- `"contractName"`. -/
def contractNameKey : Bytes :=
  [0x63, 0x6f, 0x6e, 0x74, 0x72, 0x61, 0x63, 0x74, 0x4e, 0x61, 0x6d, 0x65]

/-- `"contractAddress"`. -/
def contractAddressKey : Bytes :=
  [0x63, 0x6f, 0x6e, 0x74, 0x72, 0x61, 0x63, 0x74, 0x41, 0x64, 0x64, 0x72, 0x65, 0x73, 0x73]

/-- `"contractCreator"`. -/
def contractCreatorKey : Bytes :=
  [0x63, 0x6f, 0x6e, 0x74, 0x72, 0x61, 0x63, 0x74, 0x43, 0x72, 0x65, 0x61, 0x74, 0x6f, 0x72]

/-- `"contractChainId"`. -/
def contractChainIdKey : Bytes :=
  [0x63, 0x6f, 0x6e, 0x74, 0x72, 0x61, 0x63, 0x74, 0x43, 0x68, 0x61, 0x69, 0x6e, 0x49, 0x64]

/-- `"_name"`. -/
def nameKey : Bytes := [0x5f, 0x6e, 0x61, 0x6d, 0x65]

/-- `"_symbol"`. -/
def symbolKey : Bytes := [0x5f, 0x73, 0x79, 0x6d, 0x62, 0x6f, 0x6c]

/-- `"_decimals"`. -/
def decimalsKey : Bytes := [0x5f, 0x64, 0x65, 0x63, 0x69, 0x6d, 0x61, 0x6c, 0x73]

/-- `"_totalSupply"`. -/
def totalSupplyKey : Bytes :=
  [0x5f, 0x74, 0x6f, 0x74, 0x61, 0x6c, 0x53, 0x75, 0x70, 0x70, 0x6c, 0x79]

/-- `"_balances"`. -/
def balancesKey : Bytes := [0x5f, 0x62, 0x61, 0x6c, 0x61, 0x6e, 0x63, 0x65, 0x73]

/-- `"_allowed"`. -/
def allowedKey : Bytes := [0x5f, 0x61, 0x6c, 0x6c, 0x6f, 0x77, 0x65, 0x64]

/-- `"_tokensAndBalances"`. -/
def tokensAndBalancesKey : Bytes :=
  [0x5f, 0x74, 0x6f, 0x6b, 0x65, 0x6e, 0x73, 0x41, 0x6e, 0x64, 0x42, 0x61, 0x6c, 0x61, 0x6e,
    0x63, 0x65, 0x73]

/-- The prefix of a contract's entries with a name. -/
def contractKey (self : Address) (name : Bytes) : Bytes := self.data ++ name

/-- The names one contract uses differ in their first two bytes. -/
theorem contractKey_apart {self : Address} {name name' : Bytes} (hlen : 2 ≤ name.length)
    (hlen' : 2 ≤ name'.length) (h : name.take 2 ≠ name'.take 2) (k k' : Bytes) :
    contractKey self name ++ k ≠ contractKey self name' ++ k' := by
  intro heq
  rw [contractKey, contractKey, List.append_assoc, List.append_assoc] at heq
  have htake := congrArg (List.take 2) (List.append_cancel_left heq)
  rw [List.take_append_of_le_length hlen, List.take_append_of_le_length hlen'] at htake
  exact h htake

/-! ### Iteration -/

/-- The order in which the entries of an unordered map are visited. -/
structure Iteration where
  order : {V : Type} → AssocMap Address V → List (Address × V)
  perm : ∀ {V : Type} (m : AssocMap Address V), (order m).Perm (m.entries.map fun e => (e.1, e.2))

namespace Iteration

variable {it : Iteration} {V : Type} {m : AssocMap Address V}

theorem mem_order {a : Address} {v : V} : (a, v) ∈ it.order m ↔ m.lookup a = some v := by
  rw [(it.perm m).mem_iff, ← Option.mem_def, AList.mem_lookup_iff, List.mem_map]
  constructor
  · rintro ⟨e, he, heq⟩
    cases heq
    exact he
  · intro h
    exact ⟨⟨a, v⟩, h, rfl⟩

theorem nodup_order : ((it.order m).map Prod.fst).Nodup := by
  have hperm := (it.perm m).map Prod.fst
  rw [hperm.nodup_iff, List.map_map]
  exact m.nodupKeys

/-- The order of the entries of the list. -/
def ofEntries : Iteration where
  order m := m.entries.map fun e => (e.1, e.2)
  perm _ := List.Perm.refl _

end Iteration

/-! ### The base class -/

namespace BaseContract

/-- What the constructor of a new contract writes. -/
def register (self : Address) (contractName : Bytes) (creator : Address) (chainId : UInt64)
    (db : DB) : DB :=
  let db := db.put (contractKey self contractNameKey) contractName .contracts
  let db := db.put (contractKey self contractAddressKey) self.data .contracts
  let db := db.put (contractKey self contractCreatorKey) creator.data .contracts
  db.put (contractKey self contractChainIdKey) (BigEndian.fixed 8 chainId.toNat) .contracts

/-- `BaseContract(address, db)`, of which only the checks matter here. -/
def load (self : Address) (db : DB) : Except Exn Unit := do
  let _ ← addressOfBytes (db.get (contractKey self contractCreatorKey) .contracts)
  let _ ← Block.bytesToUint64 (db.get (contractKey self contractChainIdKey) .contracts)
  return ()

end BaseContract

/-! ### Saving -/

/-- The entry of a holder. -/
def balanceEntry (r : Address × Uint256) : Bytes × Bytes := (r.1.data, uintToBytes r.2.val)

/-- The entry of a pair of a map to maps: the outer address is the key, the inner one is part
    of the value. -/
def nestedEntry (r : Address × Address × Uint256) : Bytes × Bytes :=
  (r.1.data, r.2.1.data ++ uintToBytes r.2.2.val)

/-- The batch of a map to numbers. -/
def plainBatch (it : Iteration) (m : AssocMap Address Val) : List (Bytes × Bytes) :=
  (it.order m).map fun e => balanceEntry (e.1, e.2.toUint)

/-- The batch of a map to maps. -/
def nestedBatch (it : Iteration) (m : AssocMap Address Val) : List (Bytes × Bytes) :=
  (it.order m).flatMap fun e => (it.order e.2.toMap).map fun f => nestedEntry (e.1, f.1, f.2)

/-- The destructor of the two token contracts. -/
def saveToken (it : Iteration) (self : Address) (s : Store) (db : DB) : DB :=
  let db := db.put (contractKey self nameKey) (s.scalars nameVar).cur.toStr .contracts
  let db := db.put (contractKey self symbolKey) (s.scalars symbolVar).cur.toStr .contracts
  let db := db.put (contractKey self decimalsKey)
    [UInt8.ofNat (s.scalars decimalsVar).cur.toUint.val] .contracts
  let db := db.put (contractKey self totalSupplyKey)
    (BigEndian.fixed 32 (s.scalars totalSupplyVar).cur.toUint.val) .contracts
  let db := db.putBatch (DB.under (contractKey self balancesKey)
    (plainBatch it (s.maps balancesVar).map)) .contracts
  db.putBatch (DB.under (contractKey self allowedKey)
    (nestedBatch it (s.maps allowedVar).map)) .contracts

/-- `ERC20::~ERC20`. -/
def ERC20.save := saveToken

/-- `NativeWrapper::~NativeWrapper`. -/
def NativeWrapper.save := saveToken

/-- `ERC20Wrapper::~ERC20Wrapper`. -/
def ERC20Wrapper.save (it : Iteration) (self : Address) (s : Store) (db : DB) : DB :=
  db.putBatch (DB.under (contractKey self tokensAndBalancesKey)
    (nestedBatch it (s.maps tokensAndBalancesVar).map)) .contracts

/-! ### Loading -/

/-- `Utils::bytesToUint8`. -/
def bytesToUint8 (bs : Bytes) : Except Exn Uint256 :=
  match bs with
  | [b] => .ok ⟨b.toNat, lt_trans b.toNat_lt (by decide)⟩
  | _ => .error (.runtimeError
      ("bytesToUint8: Invalid bytes size - expected 1, got " ++ toString bs.length))

/-- `Utils::bytesToUint256`. -/
def bytesToUint256 (bs : Bytes) : Except Exn Uint256 :=
  if bs.length ≠ 32 then
    .error (.runtimeError
      ("bytesToUint256: Invalid bytes size - expected 32, got " ++ toString bs.length))
  else .ok (Fin.ofNat (2 ^ 256) (BigEndian.decode bs))

/-- An entry of `_balances`. -/
def readBalance (e : Bytes × Bytes) : Except Exn (Address × Uint256) := do
  let x ← fromBigEndian256 e.2
  return (← addressOfBytes e.1, x)

/-- An entry of a map to maps. -/
def readNested (e : Bytes × Bytes) : Except Exn (Address × Address × Uint256) := do
  let x ← fromBigEndian256 (← substrFrom e.2 20)
  let a ← addressOfBytes e.1
  let b ← addressOfBytes (← substr e.2 0 20)
  return (a, b, x)

/-- `_balances[a] = x`. -/
def Store.setPlain (s : Store) (r : Address × Uint256) : Store :=
  (s.index balancesVar r.1).2.assign balancesVar r.1 (.uint r.2)

/-- `m[a][b] = x`. -/
def Store.setNested (m : MapVar) (s : Store) (r : Address × Address × Uint256) : Store :=
  (s.index m r.1).2.assign m r.1
    (.addrMap (((s.index m r.1).1.toMap.emplace r.2.1 0).insert r.2.1 r.2.2))

/-- The loop over the balances. -/
def loadPlain (entries : List (Bytes × Bytes)) (s : Store) : Except Exn Store :=
  entries.foldlM (fun s e => do return s.setPlain (← readBalance e)) s

/-- The loop over the entries of a map to maps. -/
def loadNested (m : MapVar) (entries : List (Bytes × Bytes)) (s : Store) : Except Exn Store :=
  entries.foldlM (fun s e => do return Store.setNested m s (← readNested e)) s

/-- The constructor of the two token contracts from a database. -/
def loadToken (self : Address) (db : DB) : Except Exn Store := do
  BaseContract.load self db
  let s := Store.init.set nameVar (.str (db.get (contractKey self nameKey) .contracts))
  let s := s.set symbolVar (.str (db.get (contractKey self symbolKey) .contracts))
  let s := s.set decimalsVar
    (.uint (← bytesToUint8 (db.get (contractKey self decimalsKey) .contracts)))
  let s := s.set totalSupplyVar
    (.uint (← bytesToUint256 (db.get (contractKey self totalSupplyKey) .contracts)))
  let s ← loadPlain (db.getBatchAt .contracts (contractKey self balancesKey)) s
  let s ← loadNested allowedVar (db.getBatchAt .contracts (contractKey self allowedKey)) s
  return s.updateState true

/-- `ERC20::ERC20(interface, address, db)`. -/
def ERC20.load := loadToken

/-- `NativeWrapper::NativeWrapper(interface, address, db)`. -/
def NativeWrapper.load := loadToken

/-- `ERC20Wrapper::ERC20Wrapper(interface, address, db)`. -/
def ERC20Wrapper.load (self : Address) (db : DB) : Except Exn Store := do
  BaseContract.load self db
  let s ← loadNested tokensAndBalancesVar
    (db.getBatchAt .contracts (contractKey self tokensAndBalancesKey)) Store.init
  return s.updateState true

/-! ### The areas of a contract -/

/-- A destructor as a list of batches, one per name. -/
def saveAll (self : Address) (writes : List (Bytes × List (Bytes × Bytes))) (db : DB) : DB :=
  writes.foldl (fun db w => db.putBatch (DB.under (contractKey self w.1) w.2) .contracts) db

/-- Names that can be told apart by their first two bytes. -/
structure Names (writes : List (Bytes × List (Bytes × Bytes))) : Prop where
  length : ∀ w ∈ writes, 2 ≤ w.1.length
  nodup : (writes.map fun w => w.1.take 2).Nodup

theorem area_saveAll_of_apart {self : Address} {writes : List (Bytes × List (Bytes × Bytes))}
    {db : DB} {name : Bytes} (hlen : 2 ≤ name.length) (hlens : ∀ w ∈ writes, 2 ≤ w.1.length)
    (h : ∀ w ∈ writes, name.take 2 ≠ w.1.take 2) :
    (saveAll self writes db).area .contracts (contractKey self name) =
      db.area .contracts (contractKey self name) := by
  induction writes generalizing db with
  | nil => rfl
  | cons w writes ih =>
    have hrest := @ih (db.putBatch (DB.under (contractKey self w.1) w.2) .contracts)
      (fun w' hw' => hlens w' (by simp [hw'])) (fun w' hw' => h w' (by simp [hw']))
    refine hrest.trans (DB.area_putBatch_of_apart ?_)
    exact contractKey_apart hlen (hlens w (by simp)) (h w (by simp))

/-- Every batch decides what is under its name. -/
theorem area_saveAll_of_mem {self : Address} {writes : List (Bytes × List (Bytes × Bytes))}
    {db : DB} (hnames : Names writes) {name : Bytes} {puts : List (Bytes × Bytes)}
    (hw : (name, puts) ∈ writes) (hfits : ∀ e ∈ puts, e.2.length < 2 ^ 32) :
    (saveAll self writes db).area .contracts (contractKey self name) =
      Function.updateAll Prod.fst (fun e => some e.2)
        (db.area .contracts (contractKey self name)) puts := by
  induction writes generalizing db with
  | nil => cases hw
  | cons w writes ih =>
    obtain ⟨hfresh, hnodup⟩ := List.nodup_cons.mp hnames.nodup
    have hlens : ∀ w' ∈ writes, 2 ≤ w'.1.length := fun w' hw' => hnames.length w' (by simp [hw'])
    have hapart : ∀ w' ∈ writes, w.1.take 2 ≠ w'.1.take 2 := fun w' hw' heq =>
      hfresh (List.mem_map.mpr ⟨w', hw', heq.symm⟩)
    rcases List.mem_cons.mp hw with rfl | hw
    · -- the later batches have other names
      refine (area_saveAll_of_apart (hnames.length _ (by simp)) hlens hapart).trans ?_
      exact DB.area_putBatch hfits
    · refine (ih ⟨hlens, hnodup⟩ hw).trans ?_
      rw [DB.area_putBatch_of_apart]
      exact contractKey_apart (hlens _ hw) (hnames.length w (by simp)) (hapart _ hw).symm

/-- The batches of a token contract. -/
def tokenWrites (it : Iteration) (s : Store) : List (Bytes × List (Bytes × Bytes)) :=
  [(nameKey, [([], (s.scalars nameVar).cur.toStr)]),
    (symbolKey, [([], (s.scalars symbolVar).cur.toStr)]),
    (decimalsKey, [([], [UInt8.ofNat (s.scalars decimalsVar).cur.toUint.val])]),
    (totalSupplyKey, [([], BigEndian.fixed 32 (s.scalars totalSupplyVar).cur.toUint.val)]),
    (balancesKey, plainBatch it (s.maps balancesVar).map),
    (allowedKey, nestedBatch it (s.maps allowedVar).map)]

theorem saveToken_eq (it : Iteration) (self : Address) (s : Store) (db : DB) :
    saveToken it self s db = saveAll self (tokenWrites it s) db := by
  simp [saveToken, saveAll, tokenWrites, DB.putBatch, DB.under]

theorem tokenWrites_names (it : Iteration) (s : Store) : Names (tokenWrites it s) where
  length := by simp [tokenWrites, nameKey, symbolKey, decimalsKey, totalSupplyKey, balancesKey,
    allowedKey]
  nodup := by simp [tokenWrites, nameKey, symbolKey, decimalsKey, totalSupplyKey, balancesKey,
    allowedKey]

/-! ### Entries are read as they were written -/

theorem readBalance_balanceEntry (r : Address × Uint256) : readBalance (balanceEntry r) = .ok r := by
  rw [readBalance, balanceEntry, fromBigEndian256_uintToBytes, addressOfBytes_data]
  rfl

theorem readNested_nestedEntry (r : Address × Address × Uint256) :
    readNested (nestedEntry r) = .ok r := by
  obtain ⟨a, b, x⟩ := r
  have hfrom : substrFrom (b.data ++ uintToBytes x.val) 20 = .ok (uintToBytes x.val) := by
    rw [substrFrom, if_neg (by simp [b.size_eq]), List.drop_left' b.size_eq]
  have hsub : substr (b.data ++ uintToBytes x.val) 0 20 = .ok b.data := by
    rw [substr, if_neg (by simp), List.drop_zero, List.take_left' b.size_eq]
  rw [readNested, nestedEntry]
  dsimp only
  rw [hfrom, hsub]
  show (fromBigEndian256 (uintToBytes x.val) >>= _) = _
  rw [fromBigEndian256_uintToBytes, addressOfBytes_data]
  show (addressOfBytes b.data >>= _) = _
  rw [addressOfBytes_data]
  rfl

theorem balanceEntry_injective : Function.Injective balanceEntry := by
  intro r r' h
  have hread := readBalance_balanceEntry r
  rw [h, readBalance_balanceEntry] at hread
  exact (Except.ok.inj hread).symm

theorem nestedEntry_injective : Function.Injective nestedEntry := by
  intro r r' h
  have hread := readNested_nestedEntry r
  rw [h, readNested_nestedEntry] at hread
  exact (Except.ok.inj hread).symm

theorem foldlM_records {R : Type} {enc : R → Bytes × Bytes} {read : Bytes × Bytes → Except Exn R}
    (hread : ∀ r, read (enc r) = .ok r) (w : Store → R → Store) (rs : List R) (s : Store) :
    (rs.map enc).foldlM (fun s e => do return w s (← read e)) s = .ok (rs.foldl w s) := by
  induction rs generalizing s with
  | nil => rfl
  | cons r rs ih =>
    rw [List.map_cons, List.foldlM_cons, hread]
    exact ih (w s r)

/-! ### What is under the names of the maps -/

/-- Everything under a name is overwritten by the batch. -/
def Overwritten (db : DB) (sub : Bytes) (puts : List (Bytes × Bytes)) : Prop :=
  ∀ key value, db.area .contracts sub key = some value → key ∈ puts.map Prod.fst

theorem Overwritten.area_none {db : DB} {sub : Bytes} {puts : List (Bytes × Bytes)}
    (h : Overwritten db sub puts) {key : Bytes} (hkey : ∀ e ∈ puts, e.1 ≠ key) :
    db.area .contracts sub key = none := by
  cases harea : db.area .contracts sub key with
  | none => rfl
  | some value =>
    obtain ⟨e, he, heq⟩ := List.mem_map.mp (h key value harea)
    exact absurd heq (hkey e he)

/-- A written batch holds, for each key, the last put. -/
theorem Overwritten.updateAll_eq_some {db : DB} {sub : Bytes} {puts : List (Bytes × Bytes)}
    (h : Overwritten db sub puts) {key value : Bytes} :
    Function.updateAll Prod.fst (fun e => some e.2) (db.area .contracts sub) puts key =
        some value ↔
      ∃ e, (puts.filter fun e => e.1 = key).getLast? = some e ∧ e.2 = value := by
  rw [Function.updateAll_apply]
  cases hlast : (puts.filter fun e => e.1 = key).getLast? with
  | some e => simp
  | none =>
    have hnone : db.area .contracts sub key = none := by
      refine h.area_none fun e he heq => ?_
      have hmem : e ∈ puts.filter fun e => e.1 = key :=
        List.mem_filter.mpr ⟨he, decide_eq_true heq⟩
      rw [List.getLast?_eq_none_iff.mp hlast] at hmem
      cases hmem
    simp [hnone]

/-- In a list with distinct keys, the elements that come from one key. -/
theorem filter_flatMap_of_nodup {V : Type} {l : List (Address × V)} (hnd : (l.map Prod.fst).Nodup)
    (g : Address × V → List (Bytes × Bytes)) (hg : ∀ e ∈ l, ∀ p ∈ g e, p.1 = e.1.data)
    {a : Address} {v : V} (h : (a, v) ∈ l) :
    (l.flatMap g).filter (fun p => p.1 = a.data) = g (a, v) := by
  induction l with
  | nil => cases h
  | cons e l ih =>
    obtain ⟨hfresh, hnd⟩ := List.nodup_cons.mp hnd
    have hg' : ∀ e' ∈ l, ∀ p ∈ g e', p.1 = e'.1.data := fun e' he' => hg e' (by simp [he'])
    rw [List.flatMap_cons, List.filter_append]
    rcases List.mem_cons.mp h with heq | h
    · -- all of this block, and nothing of the others
      have hself : (g e).filter (fun p => p.1 = a.data) = g e := by
        rw [List.filter_eq_self]
        intro p hp
        rw [hg e (by simp) p hp, ← heq]
        exact decide_eq_true rfl
      have hothers : (l.flatMap g).filter (fun p => p.1 = a.data) = [] := by
        rw [List.filter_eq_nil_iff]
        intro p hp heq'
        obtain ⟨e', he', hp⟩ := List.mem_flatMap.mp hp
        have hkey := (hg' e' he' p hp).symm.trans (of_decide_eq_true heq')
        refine hfresh (List.mem_map.mpr ⟨e', he', ?_⟩)
        rw [FixedStr.ext hkey, ← heq]
      rw [hself, hothers, List.append_nil, heq]
    · have hne : (g e).filter (fun p => p.1 = a.data) = [] := by
        rw [List.filter_eq_nil_iff]
        intro p hp heq'
        have hkey := (hg e (by simp) p hp).symm.trans (of_decide_eq_true heq')
        refine hfresh (List.mem_map.mpr ⟨(a, v), h, ?_⟩)
        exact (FixedStr.ext hkey).symm
      rw [hne, List.nil_append]
      exact ih hnd hg' h

theorem filter_plainBatch {it : Iteration} {m : AssocMap Address Val} {a : Address} {v : Val}
    (h : m.lookup a = some v) :
    (plainBatch it m).filter (fun p => p.1 = a.data) = [balanceEntry (a, v.toUint)] := by
  have hflat : plainBatch it m = (it.order m).flatMap fun e => [balanceEntry (e.1, e.2.toUint)] :=
    List.map_eq_flatMap
  rw [hflat]
  refine filter_flatMap_of_nodup Iteration.nodup_order _ ?_ (Iteration.mem_order.mpr h)
  intro e _ p hp
  rw [List.mem_singleton.mp hp]
  rfl

/-- The puts of a map to maps under one key. -/
theorem filter_nestedBatch {it : Iteration} {m : AssocMap Address Val} {a : Address} {v : Val}
    (h : m.lookup a = some v) :
    (nestedBatch it m).filter (fun p => p.1 = a.data) =
      (it.order v.toMap).map fun f => nestedEntry (a, f.1, f.2) := by
  refine filter_flatMap_of_nodup Iteration.nodup_order _ ?_ (Iteration.mem_order.mpr h)
  intro e _ p hp
  obtain ⟨f, -, rfl⟩ := List.mem_map.mp hp
  rfl

theorem key_of_mem_plainBatch {it : Iteration} {m : AssocMap Address Val} {p : Bytes × Bytes}
    (h : p ∈ plainBatch it m) : ∃ a v, m.lookup a = some v ∧ p.1 = a.data := by
  obtain ⟨e, he, rfl⟩ := List.mem_map.mp h
  exact ⟨e.1, e.2, Iteration.mem_order.mp he, rfl⟩

theorem key_of_mem_nestedBatch {it : Iteration} {m : AssocMap Address Val} {p : Bytes × Bytes}
    (h : p ∈ nestedBatch it m) : ∃ a v, m.lookup a = some v ∧ p.1 = a.data := by
  obtain ⟨e, he, hp⟩ := List.mem_flatMap.mp h
  obtain ⟨f, -, rfl⟩ := List.mem_map.mp hp
  exact ⟨e.1, e.2, Iteration.mem_order.mp he, rfl⟩

/-- **The loaded balances**: every entry of the map. -/
theorem plain_records {it : Iteration} {m : AssocMap Address Val} {db db' : DB} {sub : Bytes}
    (hover : Overwritten db sub (plainBatch it m))
    (harea : db'.area .contracts sub = Function.updateAll Prod.fst (fun e => some e.2)
      (db.area .contracts sub) (plainBatch it m)) :
    ∃ rs : List (Address × Uint256), rs.map balanceEntry = db'.getBatchAt .contracts sub ∧
      ∀ a x, (a, x) ∈ rs ↔ ∃ v, m.lookup a = some v ∧ x = v.toUint := by
  have hmem : ∀ key value, (key, value) ∈ db'.getBatchAt .contracts sub ↔
      ∃ a v, m.lookup a = some v ∧ balanceEntry (a, v.toUint) = (key, value) := by
    intro key value
    rw [DB.mem_getBatchAt, harea, hover.updateAll_eq_some]
    constructor
    · rintro ⟨e, hlast, rfl⟩
      have he := List.mem_filter.mp (List.mem_of_getLast? hlast)
      obtain ⟨a, v, ha, hkey⟩ := key_of_mem_plainBatch he.1
      have hkey' : e.1 = key := of_decide_eq_true he.2
      rw [← hkey', hkey, filter_plainBatch ha] at hlast
      refine ⟨a, v, ha, ?_⟩
      rw [← hkey']
      exact Option.some.inj hlast
    · rintro ⟨a, v, ha, heq⟩
      cases heq
      rw [filter_plainBatch ha]
      exact ⟨_, rfl, rfl⟩
  obtain ⟨rs, hrs, hiff⟩ := DB.exists_records balanceEntry_injective
    (db'.getBatchAt .contracts sub) (by
      rintro ⟨key, value⟩ he
      obtain ⟨a, v, -, heq⟩ := (hmem key value).mp he
      exact ⟨_, heq⟩)
  refine ⟨rs, hrs, fun a x => (hiff (a, x)).trans ((hmem _ _).trans ?_)⟩
  constructor
  · rintro ⟨a', v, ha, heq⟩
    cases @balanceEntry_injective (a', v.toUint) (a, x) heq
    exact ⟨v, ha, rfl⟩
  · rintro ⟨v, ha, rfl⟩
    exact ⟨a, v, ha, rfl⟩

/-- **The loaded pairs**: of every inner map the last one. -/
theorem nested_records {it : Iteration} {m : AssocMap Address Val} {db db' : DB} {sub : Bytes}
    (hover : Overwritten db sub (nestedBatch it m))
    (harea : db'.area .contracts sub = Function.updateAll Prod.fst (fun e => some e.2)
      (db.area .contracts sub) (nestedBatch it m)) :
    ∃ rs : List (Address × Address × Uint256), rs.map nestedEntry = db'.getBatchAt .contracts sub ∧
      ∀ a b x, (a, b, x) ∈ rs ↔
        ∃ v, m.lookup a = some v ∧ (it.order v.toMap).getLast? = some (b, x) := by
  have hmem : ∀ key value, (key, value) ∈ db'.getBatchAt .contracts sub ↔
      ∃ a v f, m.lookup a = some v ∧ (it.order v.toMap).getLast? = some f ∧
        nestedEntry (a, f.1, f.2) = (key, value) := by
    intro key value
    rw [DB.mem_getBatchAt, harea, hover.updateAll_eq_some]
    constructor
    · rintro ⟨e, hlast, rfl⟩
      have he := List.mem_filter.mp (List.mem_of_getLast? hlast)
      obtain ⟨a, v, ha, hkey⟩ := key_of_mem_nestedBatch he.1
      have hkey' : e.1 = key := of_decide_eq_true he.2
      rw [← hkey', hkey, filter_nestedBatch ha, List.getLast?_map] at hlast
      obtain ⟨f, hf, heq⟩ := Option.map_eq_some_iff.mp hlast
      refine ⟨a, v, f, ha, hf, ?_⟩
      rw [heq, ← hkey']
    · rintro ⟨a, v, f, ha, hf, heq⟩
      cases heq
      refine ⟨nestedEntry (a, f.1, f.2), ?_, rfl⟩
      rw [filter_nestedBatch ha, List.getLast?_map, hf]
      rfl
  obtain ⟨rs, hrs, hiff⟩ := DB.exists_records nestedEntry_injective
    (db'.getBatchAt .contracts sub) (by
      rintro ⟨key, value⟩ he
      obtain ⟨a, v, f, -, -, heq⟩ := (hmem key value).mp he
      exact ⟨_, heq⟩)
  refine ⟨rs, hrs, fun a b x => (hiff (a, b, x)).trans ((hmem _ _).trans ?_)⟩
  constructor
  · rintro ⟨a', v, f, ha, hf, heq⟩
    cases @nestedEntry_injective (a', f.1, f.2) (a, b, x) heq
    exact ⟨v, ha, hf⟩
  · rintro ⟨v, ha, hf⟩
    exact ⟨a, v, (b, x), ha, hf, rfl⟩

end OrbiterSdk
