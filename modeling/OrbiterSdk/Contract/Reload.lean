import OrbiterSdk.Contract.ContractDb

namespace OrbiterSdk

/-!
# Contracts after a restart

What a contract shows that was destroyed and loaded again:

* `tokenData`, `nestedOf` — what can be observed of it;
* `kept` — what is left of a map to maps;
* `loadToken_saveToken`, `ERC20Wrapper.load_save` — what is loaded after a save;
* `reload_iff` — everything is loaded exactly if every inner map holds nothing but zeros in
  front of its last entry.
-/

/-! ### What can be observed -/

/-- The number a view has for a pair of a map to maps. -/
def nestedOf (m : MapVar) (f : View) (a b : Address) : Uint256 :=
  (((f (.entry m a)).getD m.dflt).toMap.lookup b).getD 0

/-- The balance a view has for an address. -/
def plainOf (f : View) (a : Address) : Uint256 :=
  ((f (.entry balancesVar a)).getD balancesVar.dflt).toUint

/-- What the view functions of a token show. -/
structure TokenData where
  name : Bytes
  symbol : Bytes
  decimals : Uint256
  totalSupply : Uint256
  balance : Address → Uint256
  allowance : Address → Address → Uint256

/-- The token of a view of the variables. -/
def tokenData (f : View) : TokenData where
  name := ((f (.scalar nameVar)).getD nameVar.dflt).toStr
  symbol := ((f (.scalar symbolVar)).getD symbolVar.dflt).toStr
  decimals := ((f (.scalar decimalsVar)).getD decimalsVar.dflt).toUint
  totalSupply := ((f (.scalar totalSupplyVar)).getD totalSupplyVar.dflt).toUint
  balance := plainOf f
  allowance := nestedOf allowedVar f

/-- What is left of a map to maps: the last pair of every inner map. -/
def kept (it : Iteration) (m : AssocMap Address Val) (a b : Address) : Uint256 :=
  ((m.lookup a).bind fun v => (it.order v.toMap).getLast?).elim 0 fun e =>
    if e.1 = b then e.2 else 0

/-! ### The loops of the constructors -/

namespace Store

theorem setPlain_spec {s : Store} (h : s.WF) (r : Address × Uint256) :
    (s.setPlain r).WF ∧
      (s.setPlain r).cur = Function.update s.cur (.entry balancesVar r.1) (some (.uint r.2)) := by
  obtain ⟨-, hindex⟩ := index_spec h balancesVar r.1
  have hassign := assign_spec hindex.wf balancesVar r.1 (.uint r.2)
  refine ⟨hassign.wf, hassign.cur.trans ?_⟩
  dsimp only
  rw [hindex.cur]
  exact Function.update_idem _ _ _

theorem setNested_spec {s : Store} (h : s.WF) (m : MapVar) (r : Address × Address × Uint256) :
    (setNested m s r).WF ∧
      (setNested m s r).cur = Function.update s.cur (.entry m r.1) (some (.addrMap
        ((((s.cur (.entry m r.1)).getD m.dflt).toMap.emplace r.2.1 0).insert r.2.1 r.2.2))) := by
  obtain ⟨hval, hindex⟩ := index_spec h m r.1
  have hassign := assign_spec hindex.wf m r.1
    (.addrMap (((s.index m r.1).1.toMap.emplace r.2.1 0).insert r.2.1 r.2.2))
  refine ⟨hassign.wf, hassign.cur.trans ?_⟩
  dsimp only
  rw [hindex.cur, hval]
  exact Function.update_idem _ _ _

/-- The loop over the balances changes nothing but them: induction over its steps. -/
theorem foldl_setPlain {s : Store} (h : s.WF) (rs : List (Address × Uint256)) :
    (rs.foldl setPlain s).WF ∧
      (∀ l : Loc, l.var ≠ .map balancesVar → (rs.foldl setPlain s).cur l = s.cur l) ∧
      plainOf (rs.foldl setPlain s).cur =
        Function.updateAll Prod.fst Prod.snd (plainOf s.cur) rs := by
  induction rs generalizing s with
  | nil => exact ⟨h, fun _ _ => rfl, rfl⟩
  | cons r rs ih =>
    obtain ⟨hwf, hcur⟩ := setPlain_spec h r
    obtain ⟨hwf', hother, hplain⟩ := ih hwf
    refine ⟨hwf', fun l hl => ?_, ?_⟩
    · rw [List.foldl_cons, hother l hl, hcur, Function.update_of_ne]
      rintro rfl
      exact hl rfl
    · rw [List.foldl_cons, hplain, Function.updateAll_cons]
      congr 1
      funext a
      rw [plainOf, hcur, Function.update_apply, Function.update_apply]
      by_cases ha : a = r.1
      · rw [if_pos (by rw [ha]), if_pos ha]
        rfl
      · rw [if_neg (by simpa using ha), if_neg ha]
        rfl

theorem foldl_setNested {s : Store} (h : s.WF) (m : MapVar)
    (rs : List (Address × Address × Uint256)) :
    (rs.foldl (setNested m) s).WF ∧
      (∀ l : Loc, l.var ≠ .map m → (rs.foldl (setNested m) s).cur l = s.cur l) ∧
      ∀ a b, nestedOf m (rs.foldl (setNested m) s).cur a b =
        Function.updateAll (fun r => (r.1, r.2.1)) (fun r => r.2.2)
          (fun p => nestedOf m s.cur p.1 p.2) rs (a, b) := by
  induction rs generalizing s with
  | nil => exact ⟨h, fun _ _ => rfl, fun _ _ => rfl⟩
  | cons r rs ih =>
    obtain ⟨hwf, hcur⟩ := setNested_spec h m r
    obtain ⟨hwf', hother, hnested⟩ := ih hwf
    refine ⟨hwf', fun l hl => ?_, fun a b => ?_⟩
    · rw [List.foldl_cons, hother l hl, hcur, Function.update_of_ne]
      rintro rfl
      exact hl rfl
    · rw [List.foldl_cons, hnested, Function.updateAll_cons]
      refine congrFun (congrArg (fun f => Function.updateAll _ _ f rs) (funext fun p => ?_)) _
      obtain ⟨a', b'⟩ := p
      rw [nestedOf, hcur, Function.update_apply, Function.update_apply]
      by_cases ha : a' = r.1
      · subst ha
        rw [if_pos rfl]
        show (AList.lookup b' ((AssocMap.emplace _ r.2.1 0).insert r.2.1 r.2.2)).getD 0 = _
        by_cases hb : b' = r.2.1
        · rw [if_pos (by rw [hb]), hb, AList.lookup_insert]
          rfl
        · rw [if_neg (fun he => hb (Prod.ext_iff.mp he).2), AList.lookup_insert_ne hb,
            AssocMap.lookup_emplace_ne _ hb]
          rfl
      · rw [if_neg (fun he => ha (Loc.entry.inj he).2), if_neg (fun he => ha (Prod.ext_iff.mp he).1)]
        rfl

end Store

/-! ### What is loaded after a save -/

/-- The entries `BaseContract` needs are there. -/
structure Registered (addr : Address) (db : DB) : Prop where
  creator : (db.get (contractKey addr contractCreatorKey) .contracts).length = 20
  chainId : (db.get (contractKey addr contractChainIdKey) .contracts).length = 8

theorem Registered.load {self : Address} {db : DB} (h : Registered self db) :
    BaseContract.load self db = .ok () := by
  have haddress : addressOfBytes (db.get (contractKey self contractCreatorKey) .contracts) =
      .ok ⟨_, h.creator⟩ := dif_pos h.creator
  have hchainId : Block.bytesToUint64 (db.get (contractKey self contractChainIdKey) .contracts) =
      .ok _ := if_neg (not_not.mpr h.chainId)
  rw [BaseContract.load, haddress]
  show (Block.bytesToUint64 _ >>= _) = _
  rw [hchainId]
  rfl

theorem get_eq_area (db : DB) (sub : Bytes) :
    db.get sub .contracts = (db.area .contracts sub []).getD [] := by
  rw [DB.get, DB.area, List.append_nil]

theorem Registered.saveAll {self : Address} {db : DB} (h : Registered self db)
    {writes : List (Bytes × List (Bytes × Bytes))} (hlens : ∀ w ∈ writes, 2 ≤ w.1.length)
    (hnames : ∀ w ∈ writes, [0x63, 0x6f] ≠ w.1.take 2) :
    Registered self (saveAll self writes db) := by
  have hsame : ∀ name, name.take 2 = [0x63, 0x6f] → 2 ≤ name.length →
      (OrbiterSdk.saveAll self writes db).get (contractKey self name) .contracts =
        db.get (contractKey self name) .contracts := by
    intro name htake hlen
    rw [get_eq_area, get_eq_area, area_saveAll_of_apart hlen hlens (by rwa [htake])]
  constructor
  · rw [hsame contractCreatorKey rfl (by decide)]
    exact h.creator
  · rw [hsame contractChainIdKey rfl (by decide)]
    exact h.chainId

/-- **Loading a map to maps** gives the last pair of every inner map. -/
theorem loadNested_batch {it : Iteration} {m : AssocMap Address Val} {db db' : DB} {sub : Bytes}
    (hover : Overwritten db sub (nestedBatch it m))
    (harea : db'.area .contracts sub = Function.updateAll Prod.fst (fun e => some e.2)
      (db.area .contracts sub) (nestedBatch it m))
    {s : Store} (h : s.WF) (mv : MapVar) (hempty : ∀ a, s.cur (.entry mv a) = none) :
    ∃ s', loadNested mv (db'.getBatchAt .contracts sub) s = .ok s' ∧ s'.WF ∧
      (∀ l : Loc, l.var ≠ .map mv → s'.cur l = s.cur l) ∧ nestedOf mv s'.cur = kept it m := by
  obtain ⟨rs, hrs, hmem⟩ := nested_records hover harea
  obtain ⟨hwf, hother, hnested⟩ := Store.foldl_setNested h mv rs
  refine ⟨_, ?_, hwf, hother, funext fun a => funext fun b => ?_⟩
  · rw [loadNested, ← hrs]
    exact foldlM_records readNested_nestedEntry _ rs s
  · have hzero : nestedOf mv s.cur a b = 0 := by
      rw [nestedOf, hempty]
      unfold MapVar.dflt
      split <;> rfl
    rw [hnested, kept]
    cases hlast : (m.lookup a).bind fun v => (it.order v.toMap).getLast? with
    | none =>
      refine (Function.updateAll_of_notMem ?_).trans hzero
      rintro ⟨a', b', x⟩ hr heq
      obtain ⟨rfl, rfl⟩ := Prod.mk.inj heq
      obtain ⟨v, hv, hf⟩ := (hmem a' b' x).mp hr
      rw [hv, Option.bind_some, hf] at hlast
      cases hlast
    | some f =>
      obtain ⟨v, hv, hf⟩ := Option.bind_eq_some_iff.mp hlast
      -- the only pair that was loaded for `a`
      have honly : ∀ b' x, (a, b', x) ∈ rs ↔ (b', x) = f := by
        intro b' x
        rw [hmem, hv]
        simp [hf, eq_comm]
      rw [Option.elim_some]
      split
      · rename_i hb
        exact Function.updateAll_of_mem (x := (a, f)) ((honly f.1 f.2).mpr rfl)
          (by rw [hb]) (by
            rintro ⟨a', b', x⟩ hr heq
            obtain ⟨rfl, rfl⟩ := Prod.mk.inj heq
            rw [← (honly b' x).mp hr])
      · rename_i hb
        refine (Function.updateAll_of_notMem ?_).trans hzero
        rintro ⟨a', b', x⟩ hr heq
        obtain ⟨rfl, rfl⟩ := Prod.mk.inj heq
        exact hb (by rw [← (honly b' x).mp hr])

/-- **Loading the balances** gives all of them. -/
theorem loadPlain_batch {it : Iteration} {m : AssocMap Address Val} {db db' : DB} {sub : Bytes}
    (hover : Overwritten db sub (plainBatch it m))
    (harea : db'.area .contracts sub = Function.updateAll Prod.fst (fun e => some e.2)
      (db.area .contracts sub) (plainBatch it m))
    {s : Store} (h : s.WF) (hempty : ∀ a, s.cur (.entry balancesVar a) = none) :
    ∃ s', loadPlain (db'.getBatchAt .contracts sub) s = .ok s' ∧ s'.WF ∧
      (∀ l : Loc, l.var ≠ .map balancesVar → s'.cur l = s.cur l) ∧
      ∀ a, plainOf s'.cur a = ((m.lookup a).getD balancesVar.dflt).toUint := by
  obtain ⟨rs, hrs, hmem⟩ := plain_records hover harea
  obtain ⟨hwf, hother, hplain⟩ := Store.foldl_setPlain h rs
  refine ⟨_, ?_, hwf, hother, fun a => ?_⟩
  · rw [loadPlain, ← hrs]
    exact foldlM_records readBalance_balanceEntry _ rs s
  · rw [hplain]
    cases hv : m.lookup a with
    | none =>
      have hzero : plainOf s.cur a = 0 := by rw [plainOf, hempty]; rfl
      refine (Function.updateAll_of_notMem ?_).trans hzero
      rintro ⟨a', x⟩ hr rfl
      obtain ⟨v, hv', -⟩ := (hmem a' x).mp hr
      rw [hv] at hv'
      cases hv'
    | some v =>
      refine Function.updateAll_of_mem (x := (a, v.toUint)) ((hmem a _).mpr ⟨v, hv, rfl⟩) rfl ?_
      rintro ⟨a', x⟩ hr rfl
      obtain ⟨v', hv', rfl⟩ := (hmem a' x).mp hr
      rw [hv] at hv'
      cases hv'
      rfl

theorem Store.Quiet.scalar_cur {s : Store} (h : s.Quiet) (x : ScalarVar) :
    (s.scalars x).cur = (s.scalars x).value := by
  have hreg : s.registered (.scalar x) = false := by
    rw [← Bool.not_eq_true, h.1.used, h.2]
    exact List.not_mem_nil
  exact Option.some.inj (h.1.quiet (.scalar x) hreg)

/-- A token contract at rest, of the types its members have, and the database it was created
    or loaded with: whatever is there under the names of its maps is about to be replaced. -/
structure TokenReady (it : Iteration) (addr : Address) (s : Store) (db : DB) : Prop where
  quiet : s.Quiet
  decimals : (tokenData s.com).decimals.val < 2 ^ 8
  name : (tokenData s.com).name.length < 2 ^ 32
  symbol : (tokenData s.com).symbol.length < 2 ^ 32
  registered : Registered addr db
  balances : Overwritten db (contractKey addr balancesKey) (plainBatch it (s.maps balancesVar).map)
  allowed : Overwritten db (contractKey addr allowedKey) (nestedBatch it (s.maps allowedVar).map)

theorem bytesToUint8_singleton {x : Uint256} (h : x.val < 2 ^ 8) :
    bytesToUint8 [UInt8.ofNat x.val] = .ok x := by
  have hval : (UInt8.ofNat x.val).toNat = x.val := UInt8.toNat_ofNat_of_lt' h
  exact congrArg Except.ok (Fin.ext hval)

theorem bytesToUint256_fixed (x : Uint256) : bytesToUint256 (BigEndian.fixed 32 x.val) = .ok x := by
  have hval : BigEndian.decode (BigEndian.fixed 32 x.val) = x.val := by
    rw [BigEndian.decode_fixed]
    exact Nat.mod_eq_of_lt x.isLt
  rw [bytesToUint256, if_neg (by simp), hval]
  exact congrArg Except.ok (Fin.ext (Nat.mod_eq_of_lt x.isLt))

theorem length_plainBatch_lt {it : Iteration} {m : AssocMap Address Val} :
    ∀ e ∈ plainBatch it m, e.2.length < 2 ^ 32 := by
  intro e he
  obtain ⟨f, -, rfl⟩ := List.mem_map.mp he
  have hle : (uintToBytes f.2.toUint.val).length ≤ 32 :=
    BigEndian.length_minimal_le f.2.toUint.isLt
  exact lt_of_le_of_lt hle (by decide)

theorem length_nestedBatch_lt {it : Iteration} {m : AssocMap Address Val} :
    ∀ e ∈ nestedBatch it m, e.2.length < 2 ^ 32 := by
  intro e he
  obtain ⟨f, -, he⟩ := List.mem_flatMap.mp he
  obtain ⟨g, -, rfl⟩ := List.mem_map.mp he
  have hle : (uintToBytes g.2.val).length ≤ 32 := BigEndian.length_minimal_le g.2.isLt
  have hlen : (nestedEntry (f.1, g.1, g.2)).2.length = 20 + (uintToBytes g.2.val).length := by
    rw [nestedEntry, List.length_append, g.1.size_eq]
  rw [hlen]
  omega

theorem get_saveAll {self : Address} {writes : List (Bytes × List (Bytes × Bytes))} {db : DB}
    (hnames : Names writes) {name value : Bytes} (hw : (name, [([], value)]) ∈ writes)
    (hfits : value.length < 2 ^ 32) :
    (saveAll self writes db).get (contractKey self name) .contracts = value := by
  rw [get_eq_area, area_saveAll_of_mem hnames hw (by simpa using hfits), Function.updateAll_cons]
  simp [Function.updateAll]

/-- What a saved token contract has in the database. -/
structure TokenSaved (it : Iteration) (addr : Address) (s : Store) (db saved : DB) : Prop where
  registered : Registered addr saved
  name : saved.get (contractKey addr nameKey) .contracts = (s.scalars nameVar).value.toStr
  symbol : saved.get (contractKey addr symbolKey) .contracts = (s.scalars symbolVar).value.toStr
  decimals : bytesToUint8 (saved.get (contractKey addr decimalsKey) .contracts) =
    .ok (s.scalars decimalsVar).value.toUint
  totalSupply : bytesToUint256 (saved.get (contractKey addr totalSupplyKey) .contracts) =
    .ok (s.scalars totalSupplyVar).value.toUint
  balances : saved.area .contracts (contractKey addr balancesKey) =
    Function.updateAll Prod.fst (fun e => some e.2)
      (db.area .contracts (contractKey addr balancesKey)) (plainBatch it (s.maps balancesVar).map)
  allowed : saved.area .contracts (contractKey addr allowedKey) =
    Function.updateAll Prod.fst (fun e => some e.2)
      (db.area .contracts (contractKey addr allowedKey)) (nestedBatch it (s.maps allowedVar).map)

theorem TokenReady.saved {it : Iteration} {self : Address} {s : Store} {db : DB}
    (h : TokenReady it self s db) : TokenSaved it self s db (saveToken it self s db) := by
  have hnames := tokenWrites_names it s
  have hcur := h.quiet.scalar_cur
  rw [saveToken_eq]
  constructor
  · refine h.registered.saveAll hnames.length ?_
    simp [tokenWrites, nameKey, symbolKey, decimalsKey, totalSupplyKey, balancesKey, allowedKey]
  · rw [← hcur]
    exact get_saveAll hnames (by simp [tokenWrites]) (by rw [hcur]; exact h.name)
  · rw [← hcur]
    exact get_saveAll hnames (by simp [tokenWrites]) (by rw [hcur]; exact h.symbol)
  · have hmem : (decimalsKey, [([], [UInt8.ofNat (s.scalars decimalsVar).cur.toUint.val])]) ∈
        tokenWrites it s := by simp [tokenWrites]
    rw [get_saveAll hnames hmem (by simp), hcur]
    exact bytesToUint8_singleton h.decimals
  · have hmem : (totalSupplyKey, [([], BigEndian.fixed 32
        (s.scalars totalSupplyVar).cur.toUint.val)]) ∈ tokenWrites it s := by simp [tokenWrites]
    rw [get_saveAll hnames hmem (by simp), hcur]
    exact bytesToUint256_fixed _
  · exact area_saveAll_of_mem hnames (by simp [tokenWrites]) length_plainBatch_lt
  · exact area_saveAll_of_mem hnames (by simp [tokenWrites]) length_nestedBatch_lt

/-- **A token contract after a save and a load**: everything is as it was, except that of the
    spenders of an owner only the last one is left. -/
theorem loadToken_saveToken {it : Iteration} {self : Address} {s : Store} {db : DB}
    (h : TokenReady it self s db) :
    ∃ s', loadToken self (saveToken it self s db) = .ok s' ∧
      tokenData s'.com =
        { tokenData s.com with allowance := kept it (s.maps allowedVar).map } := by
  have hsaved := h.saved
  -- The scalars are set before the loops.
  let s₀ := (((Store.init.set nameVar (.str (s.scalars nameVar).value.toStr)).set symbolVar
    (.str (s.scalars symbolVar).value.toStr)).set decimalsVar
    (.uint (s.scalars decimalsVar).value.toUint)).set totalSupplyVar
    (.uint (s.scalars totalSupplyVar).value.toUint)
  have hwf : s₀.WF := (Store.set_spec (Store.set_spec (Store.set_spec (Store.set_spec
    Store.init_wf _ _).wf _ _).wf _ _).wf _ _).wf
  obtain ⟨s₁, hs₁, hwf₁, hother₁, hplain⟩ := loadPlain_batch h.balances hsaved.balances hwf
    fun _ => rfl
  obtain ⟨s₂, hs₂, hwf₂, hother₂, hnested⟩ := loadNested_batch h.allowed hsaved.allowed hwf₁
    allowedVar fun a => hother₁ _ (by simp [Loc.var, allowedVar, balancesVar])
  refine ⟨s₂.updateState true, ?_, ?_⟩
  · rw [loadToken, hsaved.registered.load, hsaved.name, hsaved.symbol, hsaved.decimals,
      hsaved.totalSupply]
    show (loadPlain _ s₀ >>= _) = _
    rw [hs₁]
    show (loadNested _ _ s₁ >>= _) = _
    rw [hs₂]
    rfl
  · obtain ⟨-, hcom, -⟩ := Store.updateState_spec hwf₂ true
    have hscalar : ∀ x, s₂.cur (.scalar x) = s₀.cur (.scalar x) := fun x =>
      (hother₂ _ (by simp [Loc.var])).trans (hother₁ _ (by simp [Loc.var]))
    have hbalance : plainOf s₂.cur = plainOf s.com := by
      funext a
      have hentry : s₂.cur (.entry balancesVar a) = s₁.cur (.entry balancesVar a) :=
        hother₂ _ (by simp [Loc.var, allowedVar, balancesVar])
      rw [plainOf, hentry]
      exact hplain a
    rw [hcom, if_pos rfl, tokenData, hscalar, hscalar, hscalar, hscalar, hbalance, hnested]
    rfl

/-- **An `ERC20Wrapper` after a save and a load**: of the users of a token only the last one is
    left. -/
theorem ERC20Wrapper.load_save {it : Iteration} {self : Address} {s : Store} {db : DB}
    (hregistered : Registered self db)
    (hover : Overwritten db (contractKey self tokensAndBalancesKey)
      (nestedBatch it (s.maps tokensAndBalancesVar).map)) :
    ∃ s', ERC20Wrapper.load self (ERC20Wrapper.save it self s db) = .ok s' ∧
      nestedOf tokensAndBalancesVar s'.com = kept it (s.maps tokensAndBalancesVar).map := by
  have hsave : ERC20Wrapper.save it self s db = saveAll self
      [(tokensAndBalancesKey, nestedBatch it (s.maps tokensAndBalancesVar).map)] db := rfl
  have hnames : Names [(tokensAndBalancesKey, nestedBatch it (s.maps tokensAndBalancesVar).map)] :=
    ⟨by simp [tokensAndBalancesKey], by simp⟩
  have hbase := (hregistered.saveAll hnames.length (by simp [tokensAndBalancesKey])).load
  have harea : (saveAll self [(tokensAndBalancesKey,
      nestedBatch it (s.maps tokensAndBalancesVar).map)] db).area .contracts
        (contractKey self tokensAndBalancesKey) = _ :=
    area_saveAll_of_mem hnames (List.mem_singleton.mpr rfl) length_nestedBatch_lt
  obtain ⟨s₁, hs₁, hwf₁, -, hnested⟩ := loadNested_batch hover harea Store.init_wf
    tokensAndBalancesVar fun _ => rfl
  refine ⟨s₁.updateState true, ?_, ?_⟩
  · rw [hsave, ERC20Wrapper.load, hbase]
    show (loadNested _ _ _ >>= _) = _
    rw [hs₁]
    rfl
  · obtain ⟨-, hcom, -⟩ := Store.updateState_spec hwf₁ true
    rw [hcom, if_pos rfl, hnested]

/-! ### When nothing is lost -/

/-- In every inner map the entries in front of the last one are zero. -/
def LastOnly (it : Iteration) (m : AssocMap Address Val) : Prop :=
  ∀ a v, m.lookup a = some v → ∀ e ∈ (it.order v.toMap).dropLast, e.2 = 0

/-- The pairs of one inner map survive exactly if the last entry is the only one that counts. -/
theorem last_eq_lookup_iff {it : Iteration} {inner : AssocMap Address Uint256} :
    (∀ b, ((it.order inner).getLast?.elim 0 fun e => if e.1 = b then e.2 else 0) =
        (inner.lookup b).getD 0) ↔
      ∀ e ∈ (it.order inner).dropLast, e.2 = 0 := by
  cases hlast : (it.order inner).getLast? with
  | none =>
    have hnil := List.getLast?_eq_none_iff.mp hlast
    refine iff_of_true (fun b => ?_) (by simp [hnil])
    cases hb : inner.lookup b with
    | none => rfl
    | some x =>
      have hmem : (b, x) ∈ it.order inner := Iteration.mem_order.mpr hb
      rw [hnil] at hmem
      cases hmem
  | some f =>
    have hsplit : (it.order inner).dropLast ++ [f] = it.order inner :=
      List.dropLast_append_getLast? f hlast
    have hnodup : ((it.order inner).map Prod.fst).Nodup := Iteration.nodup_order
    rw [← hsplit, List.map_append, List.nodup_append] at hnodup
    have hfresh : ∀ e ∈ (it.order inner).dropLast, e.1 ≠ f.1 := fun e he =>
      hnodup.2.2 e.1 (List.mem_map_of_mem he) f.1 (by simp)
    have hlookup : inner.lookup f.1 = some f.2 :=
      Iteration.mem_order.mp (List.mem_of_getLast? hlast)
    constructor
    · intro h e he
      have hb := h e.1
      have hmem : (e.1, e.2) ∈ it.order inner := List.mem_of_mem_dropLast he
      rw [Iteration.mem_order.mp hmem, Option.elim_some, if_neg (hfresh e he).symm] at hb
      exact hb.symm
    · intro h b
      rw [Option.elim_some]
      by_cases hb : f.1 = b
      · rw [if_pos hb, ← hb, hlookup]
        rfl
      · rw [if_neg hb]
        cases hx : inner.lookup b with
        | none => rfl
        | some x =>
          have hmem : (b, x) ∈ it.order inner := Iteration.mem_order.mpr hx
          rw [← hsplit, List.mem_append, List.mem_singleton] at hmem
          rcases hmem with hmem | rfl
          · exact (h (b, x) hmem).symm
          · exact absurd rfl hb

/-- **A map to maps survives a save and a load** exactly if the last entry of every inner map is
    the only one that counts. -/
theorem kept_eq_iff {it : Iteration} {s : Store} {mv : MapVar} :
    kept it (s.maps mv).map = nestedOf mv s.com ↔ LastOnly it (s.maps mv).map := by
  have hinner : ∀ a v, (s.maps mv).map.lookup a = some v →
      ((∀ b, kept it (s.maps mv).map a b = nestedOf mv s.com a b) ↔
        ∀ e ∈ (it.order v.toMap).dropLast, e.2 = 0) := by
    intro a v hv
    rw [← last_eq_lookup_iff]
    refine forall_congr' fun b => ?_
    have hcom : s.com (.entry mv a) = some v := hv
    rw [kept, nestedOf, hcom, hv]
    rfl
  constructor
  · intro h a v hv
    exact (hinner a v hv).mp fun b => congrFun (congrFun h a) b
  · intro h
    funext a b
    cases hv : (s.maps mv).map.lookup a with
    | some v => exact (hinner a v hv).mpr (h a v hv) b
    | none =>
      have hcom : s.com (.entry mv a) = none := hv
      rw [kept, nestedOf, hcom, hv]
      unfold MapVar.dflt
      split <;> rfl

theorem reload_token_iff {it : Iteration} {self : Address} {s : Store} {db : DB}
    (h : TokenReady it self s db) :
    (∃ s', loadToken self (saveToken it self s db) = .ok s' ∧
        tokenData s'.com = tokenData s.com) ↔
      LastOnly it (s.maps allowedVar).map := by
  obtain ⟨s', hs', hdata⟩ := loadToken_saveToken h
  rw [← kept_eq_iff]
  constructor
  · rintro ⟨s'', hs'', heq⟩
    rw [hs'] at hs''
    cases hs''
    rw [hdata] at heq
    exact congrArg TokenData.allowance heq
  · intro hkept
    refine ⟨s', hs', hdata.trans ?_⟩
    rw [hkept]
    rfl

/-- **What survives a restart.**  For every iteration order: an `ERC20` or a `NativeWrapper` that
    is destroyed and loaded again shows the same name, symbol, decimals, supply, balances and
    allowances exactly if, of the spenders of every owner, all but the last one that is visited
    have an allowance of zero; an `ERC20Wrapper` shows the same records exactly if the same
    holds of the users of every token. -/
theorem reload_iff (it : Iteration) (self : Address) (s : Store) (db : DB) :
    (TokenReady it self s db →
      ((∃ s', ERC20.load self (ERC20.save it self s db) = .ok s' ∧
          tokenData s'.com = tokenData s.com) ↔ LastOnly it (s.maps allowedVar).map) ∧
      ((∃ s', NativeWrapper.load self (NativeWrapper.save it self s db) = .ok s' ∧
          tokenData s'.com = tokenData s.com) ↔ LastOnly it (s.maps allowedVar).map)) ∧
    (Registered self db ∧ Overwritten db (contractKey self tokensAndBalancesKey)
        (nestedBatch it (s.maps tokensAndBalancesVar).map) →
      ((∃ s', ERC20Wrapper.load self (ERC20Wrapper.save it self s db) = .ok s' ∧
          ∀ token user, nestedOf tokensAndBalancesVar s'.com token user =
            nestedOf tokensAndBalancesVar s.com token user) ↔
        LastOnly it (s.maps tokensAndBalancesVar).map)) := by
  refine ⟨fun h => ⟨reload_token_iff h, reload_token_iff h⟩, ?_⟩
  rintro ⟨hregistered, hover⟩
  obtain ⟨s', hs', hnested⟩ := ERC20Wrapper.load_save hregistered hover
  rw [← kept_eq_iff]
  constructor
  · rintro ⟨s'', hs'', heq⟩
    rw [hs'] at hs''
    cases hs''
    rw [← hnested]
    exact funext fun token => funext fun user => heq token user
  · intro hkept
    refine ⟨s', hs', fun token user => ?_⟩
    rw [hnested, hkept]

/-! ### A contract that is saved for the first time -/

theorem registered_register (self : Address) (contractName : Bytes) (creator : Address)
    (chainId : UInt64) (db : DB) :
    Registered self (BaseContract.register self contractName creator chainId db) := by
  have hne : contractKey self contractCreatorKey ≠ contractKey self contractChainIdKey :=
    fun h => absurd (List.append_cancel_left h) (by decide)
  constructor
  · rw [BaseContract.register, DB.get_put_ne hne, DB.get_put_self (by simp [creator.size_eq])]
    exact creator.size_eq
  · rw [BaseContract.register, DB.get_put_self (by simp)]
    exact BigEndian.length_fixed _ _

theorem overwritten_register (self : Address) (contractName : Bytes) (creator : Address)
    (chainId : UInt64) {name : Bytes} (hlen : 2 ≤ name.length) (hname : name.take 2 ≠ [0x63, 0x6f])
    (puts : List (Bytes × Bytes)) :
    Overwritten (BaseContract.register self contractName creator chainId DB.empty)
      (contractKey self name) puts := by
  have hregister : BaseContract.register self contractName creator chainId DB.empty =
      saveAll self [(contractNameKey, [([], contractName)]), (contractAddressKey, [([], self.data)]),
        (contractCreatorKey, [([], creator.data)]),
        (contractChainIdKey, [([], BigEndian.fixed 8 chainId.toNat)])] DB.empty := by
    simp [BaseContract.register, saveAll, DB.putBatch, DB.under]
  intro key value harea
  rw [hregister, area_saveAll_of_apart hlen (by simp [contractNameKey, contractAddressKey,
    contractCreatorKey, contractChainIdKey]) (by simpa [contractNameKey, contractAddressKey,
    contractCreatorKey, contractChainIdKey] using hname)] at harea
  cases harea

/-- A token contract with a name, after some calls of `approve`. -/
def approvedToken (approvals : List (Address × Address × Uint256)) : Store :=
  (approvals.foldl (Store.setNested allowedVar)
    (Store.init.describe [0x54] [0x54] 18)).updateState true

theorem approvedToken_ready (it : Iteration) (self : Address)
    (approvals : List (Address × Address × Uint256)) :
    TokenReady it self (approvedToken approvals)
      (BaseContract.register self [] FixedStr.zero 8080 DB.empty) := by
  obtain ⟨hwf, hother, -⟩ := Store.foldl_setNested (Store.describe_wf [0x54] [0x54] 18) allowedVar
    approvals
  obtain ⟨hquiet, hcom, -⟩ := Store.updateState_spec hwf true
  have hscalar : ∀ x, (approvedToken approvals).com (.scalar x) =
      (Store.init.describe [0x54] [0x54] 18).cur (.scalar x) := by
    intro x
    rw [approvedToken, hcom, if_pos rfl]
    exact hother _ (by simp [Loc.var])
  refine ⟨hquiet, ?_, ?_, ?_, registered_register _ _ _ _ _,
    overwritten_register _ _ _ _ (by decide) (by decide) _,
    overwritten_register _ _ _ _ (by decide) (by decide) _⟩
  · show (((approvedToken approvals).com (.scalar decimalsVar)).getD _).toUint.val < _
    rw [hscalar]
    decide
  · show (((approvedToken approvals).com (.scalar nameVar)).getD _).toStr.length < _
    rw [hscalar]
    decide
  · show (((approvedToken approvals).com (.scalar symbolVar)).getD _).toStr.length < _
    rw [hscalar]
    decide

theorem approvedToken_lookup (approvals : List (Address × Address × Uint256)) (owner : Address) :
    ((approvedToken approvals).maps allowedVar).map.lookup owner =
      (approvals.foldl (Store.setNested allowedVar) (Store.init.describe [0x54] [0x54] 18)).cur
        (.entry allowedVar owner) := by
  obtain ⟨hwf, -, -⟩ := Store.foldl_setNested (Store.describe_wf [0x54] [0x54] 18) allowedVar
    approvals
  obtain ⟨-, hcom, -⟩ := Store.updateState_spec hwf true
  exact congrFun (hcom.trans (if_pos rfl)) (.entry allowedVar owner)

/-- One spender of one owner: the allowance is there again. -/
theorem reload_single_spender :
    ∃ s', ERC20.load FixedStr.zero (ERC20.save .ofEntries FixedStr.zero
        (approvedToken [(FixedStr.ofNat 20 1, FixedStr.ofNat 20 2, 7)])
        (BaseContract.register FixedStr.zero [] FixedStr.zero 8080 DB.empty)) = .ok s' ∧
      tokenData s'.com =
        tokenData (approvedToken [(FixedStr.ofNat 20 1, FixedStr.ofNat 20 2, 7)]).com := by
  have hready := approvedToken_ready .ofEntries FixedStr.zero
    [(FixedStr.ofNat 20 1, FixedStr.ofNat 20 2, 7)]
  refine (((reload_iff .ofEntries FixedStr.zero _ _).1 hready).1).mpr ?_
  intro owner v hv e he
  rw [approvedToken_lookup] at hv
  have hcur := (Store.setNested_spec (Store.describe_wf [0x54] [0x54] 18) allowedVar
    (FixedStr.ofNat 20 1, FixedStr.ofNat 20 2, 7)).2
  rw [List.foldl_cons, List.foldl_nil, hcur, Function.update_apply] at hv
  split at hv
  · cases hv
    cases he
  · cases hv

/-- Two spenders of one owner: in whichever order they are visited, one allowance is lost. -/
theorem second_spender_lost :
    (∀ it, TokenReady it FixedStr.zero
      (approvedToken [(FixedStr.ofNat 20 1, FixedStr.ofNat 20 2, 7),
        (FixedStr.ofNat 20 1, FixedStr.ofNat 20 3, 8)])
      (BaseContract.register FixedStr.zero [] FixedStr.zero 8080 DB.empty)) ∧
    ∀ it, ¬ ∃ s', ERC20.load FixedStr.zero (ERC20.save it FixedStr.zero
        (approvedToken [(FixedStr.ofNat 20 1, FixedStr.ofNat 20 2, 7),
          (FixedStr.ofNat 20 1, FixedStr.ofNat 20 3, 8)])
        (BaseContract.register FixedStr.zero [] FixedStr.zero 8080 DB.empty)) = .ok s' ∧
      tokenData s'.com =
        tokenData (approvedToken [(FixedStr.ofNat 20 1, FixedStr.ofNat 20 2, 7),
          (FixedStr.ofNat 20 1, FixedStr.ofNat 20 3, 8)]).com := by
  refine ⟨fun it => approvedToken_ready it _ _, fun it hreload => ?_⟩
  have hlast := (reload_token_iff (approvedToken_ready it _ _)).mp hreload
  let first : AssocMap Address Uint256 :=
    (AssocMap.emplace ∅ (FixedStr.ofNat 20 2) 0).insert (FixedStr.ofNat 20 2) 7
  let inner : AssocMap Address Uint256 :=
    (first.emplace (FixedStr.ofNat 20 3) 0).insert (FixedStr.ofNat 20 3) 8
  have hlookup : ((approvedToken [(FixedStr.ofNat 20 1, FixedStr.ofNat 20 2, 7),
      (FixedStr.ofNat 20 1, FixedStr.ofNat 20 3, 8)]).maps allowedVar).map.lookup
        (FixedStr.ofNat 20 1) = some (.addrMap inner) := by
    rw [approvedToken_lookup]
    obtain ⟨hwf, hcur⟩ := Store.setNested_spec (Store.describe_wf [0x54] [0x54] 18) allowedVar
      (FixedStr.ofNat 20 1, FixedStr.ofNat 20 2, 7)
    have hcur' := (Store.setNested_spec hwf allowedVar
      (FixedStr.ofNat 20 1, FixedStr.ofNat 20 3, 8)).2
    rw [hcur] at hcur'
    refine (congrFun hcur' _).trans ?_
    rw [Function.update_self, Function.update_self]
    rfl
  -- One of the two entries is not the last.
  have hlen : (it.order inner).dropLast.length = 1 := by
    rw [List.length_dropLast, (it.perm inner).length_eq]
    decide
  obtain ⟨e, he⟩ := List.exists_mem_of_length_pos (l := (it.order inner).dropLast) (by omega)
  have hzero := hlast _ _ hlookup e he
  have hentry := (it.perm inner).mem_iff.mp (List.mem_of_mem_dropLast he)
  have hnonzero : ∀ e ∈ inner.entries.map (fun e => (e.1, e.2)), e.2 ≠ 0 := by decide
  exact hnonzero e hentry hzero

end OrbiterSdk
