import OrbiterSdk.Core.Genesis
import OrbiterSdk.Utils.Db

namespace OrbiterSdk

/-!
# Accounts in the database

`State::~State` writes every account under `DBPrefix::nativeAccounts`, as two numbers without
padding with their sizes in front; `State::State` reads them again.

* `accountBytes`, `readAccount` — one account;
* `State.saveAccounts`, `State.loadAccounts` — all of them, with the account an empty database
  is given;
* `State.loadAccounts_saveAccounts` — a saved map is loaded as it was.
-/

/-! ### One account -/

/-- A number of `State::~State`: its size in one byte and its bytes, a zero byte for zero. -/
def sizedUint (n : Nat) : Bytes :=
  if n = 0 then [0] else uintToBytes (bytesRequired n) ++ uintToBytes n

/-- The value of an account. -/
def accountBytes (account : Account) : Bytes :=
  sizedUint account.balance.val ++ sizedUint account.nonce.toNat

/-- `Utils::fromBigEndian<uint8_t>`: the shifts drop the high bytes. -/
def fromBigEndian8 (bs : Bytes) : Nat := BigEndian.decode bs % 2 ^ 8

/-- The body of the loop of `State::State`. -/
def readAccount (key data : Bytes) : Except Exn (Address × Account) := do
  if key.length ≠ 20 then
    throw (.runtimeError "Error when loading State from DB, address from DB size mismatch")
  let balanceSize := fromBigEndian8 (← substr data 0 1)
  if data.length + 1 < data.length then
    throw (.runtimeError
      "Error when loading State from DB, value from DB size mismatch on balanceSize")
  let balance ← fromBigEndian256 (← substr data 1 balanceSize)
  let nonceSize := fromBigEndian8 (← substr data (1 + balanceSize) 1)
  if 2 + balanceSize + nonceSize ≠ data.length then
    throw (.runtimeError
      "Error when loading State from DB, value from DB size mismatch on nonceSize")
  let nonce ← fromBigEndian64 (← substr data (2 + balanceSize) nonceSize)
  return (← addressOfBytes key, { balance, nonce })

/-- A number of at most `k` bytes is its size, which is one byte, and that many bytes. -/
theorem sizedUint_eq {n k : Nat} (h : n < 256 ^ k) (hk : k < 256) :
    sizedUint n = UInt8.ofNat (uintToBytes n).length :: uintToBytes n := by
  have hle : (uintToBytes n).length ≤ k := BigEndian.length_minimal_le h
  rw [sizedUint]
  by_cases hn : n = 0
  · rw [if_pos hn, hn]
    rfl
  · have hpos : 0 < (uintToBytes n).length :=
      List.length_pos_iff.mpr (BigEndian.minimal_ne_nil (Nat.pos_of_ne_zero hn))
    have hsize : uintToBytes (bytesRequired n) = [UInt8.ofNat (uintToBytes n).length] :=
      BigEndian.minimal_of_lt hpos (lt_of_le_of_lt hle hk)
    rw [if_neg hn, hsize]
    rfl

theorem fromBigEndian8_singleton {size : Nat} (h : size < 256) :
    fromBigEndian8 [UInt8.ofNat size] = size := by
  have hval : BigEndian.decode [UInt8.ofNat size] = size := by
    simp [BigEndian.decode, Nat.mod_eq_of_lt h]
  rw [fromBigEndian8, hval]
  exact Nat.mod_eq_of_lt h

theorem substr_append (as bs cs : Bytes) :
    substr (as ++ (bs ++ cs)) as.length bs.length = .ok bs := by
  rw [substr, if_neg (by simp), List.drop_left, List.take_left]

theorem accountBytes_eq (account : Account) :
    ∃ balance nonce : Bytes, balance = uintToBytes account.balance.val ∧
      nonce = uintToBytes account.nonce.toNat ∧ balance.length ≤ 32 ∧ nonce.length ≤ 8 ∧
      accountBytes account = [UInt8.ofNat balance.length] ++
        (balance ++ ([UInt8.ofNat nonce.length] ++ nonce)) := by
  have hbalance : account.balance.val < 256 ^ 32 := account.balance.isLt
  have hnonce : account.nonce.toNat < 256 ^ 8 := account.nonce.toNat_lt
  refine ⟨_, _, rfl, rfl, BigEndian.length_minimal_le hbalance,
    BigEndian.length_minimal_le hnonce, ?_⟩
  rw [accountBytes, sizedUint_eq hbalance (by decide), sizedUint_eq hnonce (by decide)]
  simp

/-- **What is written for an account is read as that account.** -/
theorem readAccount_accountBytes (a : Address) (account : Account) :
    readAccount a.data (accountBytes account) = .ok (a, account) := by
  obtain ⟨balance, nonce, hb, hn, hbl, hnl, hbytes⟩ := accountBytes_eq account
  have hsize : fromBigEndian8 [UInt8.ofNat balance.length] = balance.length :=
    fromBigEndian8_singleton (by omega)
  have hsize' : fromBigEndian8 [UInt8.ofNat nonce.length] = nonce.length :=
    fromBigEndian8_singleton (by omega)
  -- The four slices.
  have h₁ : substr (accountBytes account) 0 1 = .ok [UInt8.ofNat balance.length] := by
    rw [hbytes]
    exact substr_append [] [UInt8.ofNat balance.length] _
  have h₂ : substr (accountBytes account) 1 balance.length = .ok balance := by
    rw [hbytes]
    exact substr_append [UInt8.ofNat balance.length] balance _
  have h₃ : substr (accountBytes account) (1 + balance.length) 1 =
      .ok [UInt8.ofNat nonce.length] := by
    have := substr_append ([UInt8.ofNat balance.length] ++ balance) [UInt8.ofNat nonce.length] nonce
    rwa [List.append_assoc, ← hbytes, List.length_append] at this
  have h₄ : substr (accountBytes account) (2 + balance.length) nonce.length = .ok nonce := by
    have := substr_append
      ([UInt8.ofNat balance.length] ++ balance ++ [UInt8.ofNat nonce.length]) nonce []
    rw [List.append_nil] at this
    rw [hbytes]
    convert this using 2
    · simp
    · simp
      omega
  have hlength : 2 + balance.length + nonce.length = (accountBytes account).length := by
    rw [hbytes]
    simp
    omega
  -- The two numbers.
  have hbalance : fromBigEndian256 balance = .ok account.balance := by
    rw [fromBigEndian256, hb, uintToBytes]
    simp only [BigEndian.decode_minimal]
    rw [dif_pos account.balance.isLt]
  have hnonce : fromBigEndian64 nonce = .ok account.nonce := by
    rw [fromBigEndian64, hn, uintToBytes, BigEndian.decode_minimal, UInt64.ofNat_toNat]
  unfold readAccount
  rw [if_neg (not_not.mpr a.size_eq)]
  simp only [h₁, h₂, h₃, h₄, hsize, hsize', hbalance, hnonce, bind, Except.bind,
    addressOfBytes_data]
  rw [if_neg (by omega), if_neg (not_not.mpr hlength)]
  rfl

/-- The entry of an account. -/
def accountEntry (r : Address × Account) : Bytes × Bytes := (r.1.data, accountBytes r.2)

theorem accountEntry_injective : Function.Injective accountEntry := by
  intro r r' h
  obtain ⟨hkey, hvalue⟩ := Prod.mk.inj h
  have hread := readAccount_accountBytes r.1 r.2
  rw [hkey, hvalue, readAccount_accountBytes] at hread
  exact (Except.ok.inj hread).symm

/-! ### All accounts -/

namespace State

/-- The batch of `State::~State`. -/
def accountsBatch (accounts : Accounts) : List (Bytes × Bytes) :=
  accounts.entries.map fun e => accountEntry (e.1, e.2)

/-- `State::~State`. -/
def saveAccounts (accounts : Accounts) (db : DB) : DB :=
  db.putBatch (accountsBatch accounts) .nativeAccounts

/-- What `State::State` puts into a database without accounts. -/
def devValue : Bytes := uintToBytes (bytesRequired (10 ^ 21)) ++ uintToBytes (10 ^ 21) ++ [0]

/-- The entries `State::State` goes through. -/
def accountsFromDB (db : DB) : List (Bytes × Bytes) :=
  if db.getBatch .nativeAccounts = [] then
    (db.put contractCreator.data devValue .nativeAccounts).getBatch .nativeAccounts
  else db.getBatch .nativeAccounts

/-- The loop of `State::State`. -/
def loadEntries : List (Bytes × Bytes) → Accounts → Except Exn Accounts
  | [], accounts => .ok accounts
  | (key, data) :: entries, accounts => do
    let (a, account) ← readAccount key data
    loadEntries entries (accounts.emplace a account)

/-- The accounts of `State::State`. -/
def loadAccounts (db : DB) : Except Exn Accounts := loadEntries (accountsFromDB db) ∅

/-- The constructor of an empty database: the account a fresh node starts with. -/
theorem loadAccounts_empty : (loadAccounts DB.empty).toOption.map (·.entries) =
    some genesisAccounts.entries := by
  decide +kernel

theorem loadEntries_accountBytes (l : List (Address × Account)) (accounts : Accounts) :
    loadEntries (l.map accountEntry) accounts =
      .ok (accounts.emplaceAll Prod.fst Prod.snd l) := by
  induction l generalizing accounts with
  | nil => rfl
  | cons e l ih =>
    rw [List.map_cons, accountEntry, loadEntries, readAccount_accountBytes]
    exact ih _

/-- What the database holds after the accounts were written over older values of theirs. -/
theorem saveAccounts_graph {accounts : Accounts} {db : DB}
    (hdb : ∀ key ∈ db.entries .nativeAccounts, ∃ a ∈ accounts, key = a.data) :
    ((saveAccounts accounts db).entries .nativeAccounts).Graph fun key value =>
      ∃ a account, accounts.lookup a = some account ∧ key = a.data ∧
        value = accountBytes account := by
  have hfits : ∀ e ∈ accountsBatch accounts, e.2.length < 2 ^ 32 := by
    intro e he
    obtain ⟨⟨a, account⟩, -, rfl⟩ := List.mem_map.mp he
    obtain ⟨balance, nonce, -, -, hbl, hnl, hbytes⟩ := accountBytes_eq account
    show (accountBytes account).length < 2 ^ 32
    rw [hbytes]
    simp
    omega
  have hmem : ∀ a account, accounts.lookup a = some account →
      (a.data, accountBytes account) ∈ accountsBatch accounts := by
    intro a account h
    exact List.mem_map.mpr ⟨⟨a, account⟩, AList.mem_lookup_iff.mp h, rfl⟩
  -- Every put for an account's key is the put of that account.
  have hval : ∀ a account, accounts.lookup a = some account →
      ((saveAccounts accounts db).entries .nativeAccounts).lookup a.data =
        some (accountBytes account) := by
    intro a account h
    rw [saveAccounts, DB.putBatch_entries hfits, Function.update_self, AssocMap.lookup_insertAll]
    refine Function.updateAll_of_mem (hmem a account h) rfl ?_
    intro e he hkey
    obtain ⟨⟨b, account'⟩, hb, rfl⟩ := List.mem_map.mp he
    obtain rfl : b = a := FixedStr.ext hkey
    rw [AList.mem_lookup_iff.mpr hb] at h
    cases h
    rfl
  intro key value
  constructor
  · intro hlook
    have hkey : ∃ a ∈ accounts, key = a.data := by
      by_contra hno
      rw [saveAccounts, DB.putBatch_entries hfits, Function.update_self, AssocMap.lookup_insertAll,
        Function.updateAll_of_notMem] at hlook
      · exact hno (hdb key (AssocMap.mem_iff_lookup.mpr ⟨value, hlook⟩))
      · intro e he hk
        obtain ⟨⟨a, account⟩, ha, rfl⟩ := List.mem_map.mp he
        exact hno ⟨a, AssocMap.mem_iff_lookup.mpr ⟨account, AList.mem_lookup_iff.mpr ha⟩, hk.symm⟩
    obtain ⟨a, ha, rfl⟩ := hkey
    obtain ⟨account, haccount⟩ := AssocMap.mem_iff_lookup.mp ha
    rw [hval a account haccount] at hlook
    exact ⟨a, account, haccount, rfl, (Option.some.inj hlook).symm⟩
  · rintro ⟨a, account, haccount, rfl, rfl⟩
    exact hval a account haccount

/-- **A saved accounts map is loaded as it was**: for every map with at least one account, and a
    database that holds at most older values of these accounts, the constructor does not
    throw and has for every address what the map has. -/
theorem loadAccounts_saveAccounts (accounts : Accounts) (hne : accounts ≠ ∅) (db : DB)
    (hdb : ∀ key ∈ db.entries .nativeAccounts, ∃ a ∈ accounts, key = a.data) :
    ∃ loaded, loadAccounts (saveAccounts accounts db) = .ok loaded ∧
      ∀ a, loaded.lookup a = accounts.lookup a := by
  have hgraph := saveAccounts_graph hdb
  -- The database is not empty.
  have hbatch : accountsFromDB (saveAccounts accounts db) =
      (saveAccounts accounts db).getBatch .nativeAccounts := by
    refine if_neg fun hnil => ?_
    obtain ⟨e, es, hes⟩ := List.exists_cons_of_ne_nil (l := accounts.entries)
      (fun h => hne (AList.ext h))
    have he : accounts.lookup e.1 = some e.2 := AList.mem_lookup_iff.mpr (by rw [hes]; simp)
    have hmem := DB.mem_getBatch.mpr ((hgraph _ _).mpr ⟨e.1, e.2, he, rfl, rfl⟩)
    rw [hnil] at hmem
    cases hmem
  -- Every entry was written for an account, so the loop goes through a list of accounts.
  obtain ⟨l, hl, hmem⟩ := DB.exists_records accountEntry_injective
    ((saveAccounts accounts db).getBatch .nativeAccounts) (by
      rintro ⟨key, value⟩ he
      obtain ⟨a, account, -, rfl, rfl⟩ := (hgraph key value).mp (DB.mem_getBatch.mp he)
      exact ⟨(a, account), rfl⟩)
  have hlist : ∀ a account, (a, account) ∈ l ↔ accounts.lookup a = some account := by
    intro a account
    rw [hmem, accountEntry, DB.mem_getBatch, hgraph]
    constructor
    · rintro ⟨b, account', hb, hkey, hvalue⟩
      cases @accountEntry_injective (a, account) (b, account')
        (Prod.ext hkey hvalue)
      exact hb
    · intro h
      exact ⟨a, account, h, rfl, rfl⟩
  have hunique : Relator.RightUnique fun a account =>
      False ∨ ∃ r ∈ l, r.1 = a ∧ r.2 = account := by
    rintro a account account' (h | ⟨r, hr, rfl, rfl⟩) (h' | ⟨r', hr', hkey, rfl⟩)
    · exact h.elim
    · exact h.elim
    · exact h'.elim
    · have h := (hlist r.1 r.2).mp hr
      have h' := (hlist r'.1 r'.2).mp hr'
      rw [hkey, h] at h'
      exact Option.some.inj h'
  have hloaded := (AssocMap.Graph.empty (K := Address) (V := Account)).emplaceAll l hunique
  refine ⟨AssocMap.emplaceAll Prod.fst Prod.snd ∅ l, ?_, fun a => ?_⟩
  · rw [loadAccounts, hbatch, ← hl]
    exact loadEntries_accountBytes l ∅
  · refine Option.ext fun account => ?_
    rw [hloaded, ← hlist]
    constructor
    · rintro (h | ⟨r, hr, rfl, rfl⟩)
      · exact h.elim
      · exact hr
    · intro h
      exact Or.inr ⟨_, h, rfl, rfl⟩

/-- Accounts with a zero balance and a zero nonce, saved to a database that has one of them. -/
theorem loadAccounts_saveAccounts_genesis :
    ∃ loaded, loadAccounts (saveAccounts (genesisAccounts.insert FixedStr.zero ⟨0, 0⟩)
        (saveAccounts genesisAccounts DB.empty)) = .ok loaded ∧
      ∀ a, loaded.lookup a = (genesisAccounts.insert FixedStr.zero ⟨0, 0⟩).lookup a := by
  refine loadAccounts_saveAccounts _ ?_ _ ?_
  · intro h
    have hlook := AList.lookup_insert genesisAccounts (a := (FixedStr.zero : Address))
      (b := (⟨0, 0⟩ : Account))
    rw [h] at hlook
    cases hlook
  · intro key hkey
    have hempty : ∀ key ∈ DB.empty.entries .nativeAccounts, ∃ a ∈ genesisAccounts,
        key = a.data := by
      intro key hkey
      cases hkey
    have hgraph := saveAccounts_graph hempty
    obtain ⟨value, a, account, ha, rfl, -⟩ := hgraph.mem_iff.mp hkey
    exact ⟨a, (AList.mem_insert _).mpr (Or.inr (AssocMap.mem_iff_lookup.mpr ⟨account, ha⟩)), rfl⟩

end State

end OrbiterSdk
