import OrbiterSdk.Utils.BlockFormat

namespace OrbiterSdk.Block

/-!
# Walks over length-prefixed items

The parser of a block walks over its transactions several times: to count them, to find where
each thread starts, and to read them.

* `skipItems_of_countItems` — what was counted can be walked over again;
* `readItems_append` — reading in two stretches;
* `readTxsThreaded_eq` — the threads together give what one thread gives, or throw what it
  throws;
* `countItems_serializeItems`, `skipItems_serializeItems`, `readItems_serializeItems` — the three
  walks over items that `serializeItems` wrote;
* `serializeItems_of_skipItems` — the bytes of a walk that stays within the string.
-/

section

variable {α : Type} {item : Bytes → Except Fail α} {bytes : Bytes}

/-! ### Counting and skipping -/

/-- What was counted can be walked over, and the walk stops at `stop` or behind it. -/
theorem skipItems_of_countItems {stop fuel index n : Nat}
    (h : countItems bytes stop fuel index = .ok n) :
    ∃ last, skipItems bytes n index = .ok last ∧ stop ≤ last := by
  induction fuel generalizing index n with
  | zero => cases h
  | succ fuel ih =>
    rw [countItems] at h
    split at h
    · obtain ⟨size, hsize, h⟩ := Except.bind_eq_ok.mp h
      obtain ⟨k, hk, h⟩ := Except.bind_eq_ok.mp h
      cases h
      obtain ⟨last, hlast, hstop⟩ := ih hk
      exact ⟨last, Except.bind_eq_ok.mpr ⟨size, hsize, hlast⟩, hstop⟩
    · rename_i hstop
      cases h
      exact ⟨index, rfl, not_lt.mp hstop⟩

theorem skipItems_add {n k index last : Nat} :
    skipItems bytes (n + k) index = .ok last ↔
      ∃ next, skipItems bytes n index = .ok next ∧ skipItems bytes k next = .ok last := by
  induction n generalizing index with
  | zero =>
    rw [Nat.zero_add]
    constructor
    · exact fun h => ⟨index, rfl, h⟩
    · rintro ⟨next, hnext, h⟩
      cases hnext
      exact h
  | succ n ih =>
    rw [show n + 1 + k = n + k + 1 by omega, skipItems, Except.bind_eq_ok]
    constructor
    · rintro ⟨size, hsize, h⟩
      obtain ⟨next, hnext, h⟩ := ih.mp h
      exact ⟨next, Except.bind_eq_ok.mpr ⟨size, hsize, hnext⟩, h⟩
    · rintro ⟨next, hnext, h⟩
      obtain ⟨size, hsize, hnext⟩ := Except.bind_eq_ok.mp hnext
      exact ⟨size, hsize, ih.mpr ⟨next, hnext, h⟩⟩

/-! ### Reading in stretches -/

theorem readItems_succ {n index size : Nat} (h : readSize bytes index = .ok size) :
    readItems item bytes (n + 1) index = do
      let bs ← liftExn (substr bytes (index + 4) size)
      let x ← item bs
      let rest ← readItems item bytes n (index + 4 + size)
      return x :: rest := by
  rw [readItems, h]
  rfl

/-- **Two stretches of items** that can be walked over: both are read, or the first failure
    decides. -/
theorem readItems_append {n k index next : Nat} (h : skipItems bytes n index = .ok next) :
    readItems item bytes (n + k) index = do
      let xs ← readItems item bytes n index
      let ys ← readItems item bytes k next
      return xs ++ ys := by
  induction n generalizing index with
  | zero =>
    cases h
    rw [Nat.zero_add, readItems]
    cases readItems item bytes k next <;> rfl
  | succ n ih =>
    obtain ⟨size, hsize, h⟩ := Except.bind_eq_ok.mp h
    rw [show index + size + 4 = index + 4 + size by omega] at h
    rw [show n + 1 + k = n + k + 1 by omega, readItems_succ hsize, readItems_succ hsize, ih h]
    simp only [bind_assoc, pure_bind, List.cons_append]

/-- **The asyncs together** read the items from the first offset on: each starts where the
    walk over the items of the others ends, and their results are taken in order. -/
theorem readChunks_threadChunks (item : Bytes → Except Fail α) {ns : List Nat} {off last : Nat}
    (h : skipItems bytes ns.sum off = .ok last) :
    ∃ chunks, threadChunks bytes ns off = .ok chunks ∧
      readChunks item bytes chunks = readItems item bytes ns.sum off := by
  induction ns generalizing off with
  | nil => exact ⟨[], rfl, rfl⟩
  | cons n ns ih =>
    cases ns with
    | nil =>
      -- The last thread does not look for the next offset.
      refine ⟨[(off, n)], rfl, ?_⟩
      rw [List.sum_singleton]
      show (readItems item bytes n off >>= _) = _
      cases readItems item bytes n off with
      | error e => rfl
      | ok xs => exact congrArg Except.ok (List.append_nil xs)
    | cons k ns =>
      rw [List.sum_cons] at h ⊢
      obtain ⟨next, hnext, h⟩ := skipItems_add.mp h
      obtain ⟨chunks, hchunks, hread⟩ := ih h
      refine ⟨(off, n) :: chunks, ?_, ?_⟩
      · exact Except.bind_eq_ok.mpr ⟨next, hnext, Except.bind_eq_ok.mpr ⟨chunks, hchunks, rfl⟩⟩
      · rw [readChunks, readItems_append hnext, hread]

/-! ### Items that were written -/

theorem readSize_append {before after : Bytes} {bs : Bytes} (h : bs.length < 2 ^ 32) :
    readSize (before ++ (BigEndian.fixed 4 bs.length ++ bs ++ after)) before.length =
      .ok bs.length := by
  have hsub : substr (before ++ (BigEndian.fixed 4 bs.length ++ bs ++ after)) before.length 4 =
      .ok (BigEndian.fixed 4 bs.length) := by
    rw [substr, if_neg (by simp), List.drop_left, List.append_assoc,
      List.take_left' (BigEndian.length_fixed _ _)]
  have hval : BigEndian.decode (BigEndian.fixed 4 bs.length) = bs.length := by
    rw [BigEndian.decode_fixed]
    exact Nat.mod_eq_of_lt h
  rw [readSize, hsub]
  show bytesToUint32 (BigEndian.fixed 4 bs.length) = _
  rw [bytesToUint32, if_neg (by simp), hval]

theorem serializeItems_cons (bs : Bytes) (items : List Bytes) :
    serializeItems (bs :: items) = BigEndian.fixed 4 bs.length ++ bs ++ serializeItems items :=
  List.flatMap_cons

theorem length_serializeItems_le (items : List Bytes) :
    items.length ≤ (serializeItems items).length := by
  induction items with
  | nil => exact Nat.zero_le _
  | cons bs items ih =>
    rw [serializeItems_cons]
    simp only [List.length_append, List.length_cons, BigEndian.length_fixed]
    omega

theorem shift_items (before after : Bytes) (bs : Bytes) (items : List Bytes) :
    before ++ (serializeItems (bs :: items) ++ after) =
      (before ++ (BigEndian.fixed 4 bs.length ++ bs)) ++ (serializeItems items ++ after) := by
  rw [serializeItems_cons]
  simp [List.append_assoc]

theorem readSize_serializeItems {before after bs : Bytes} {items : List Bytes}
    (h : bs.length < 2 ^ 32) :
    readSize (before ++ (serializeItems (bs :: items) ++ after)) before.length = .ok bs.length := by
  rw [serializeItems_cons, List.append_assoc (BigEndian.fixed 4 bs.length ++ bs)]
  exact readSize_append h

theorem length_shift (before bs : Bytes) :
    (before ++ (BigEndian.fixed 4 bs.length ++ bs)).length = before.length + 4 + bs.length := by
  simp only [List.length_append, BigEndian.length_fixed]
  omega

theorem skipItems_serializeItems {items : List Bytes} (h : ∀ bs ∈ items, bs.length < 2 ^ 32)
    (before after : Bytes) :
    skipItems (before ++ (serializeItems items ++ after)) items.length before.length =
      .ok (before.length + (serializeItems items).length) := by
  induction items generalizing before with
  | nil => rfl
  | cons bs items ih =>
    have hrest := ih (fun bs' hbs' => h bs' (by simp [hbs']))
      (before ++ (BigEndian.fixed 4 bs.length ++ bs))
    rw [length_shift] at hrest
    rw [List.length_cons, skipItems, readSize_serializeItems (h bs (by simp)), shift_items]
    show skipItems _ items.length (before.length + bs.length + 4) = _
    rw [show before.length + bs.length + 4 = before.length + 4 + bs.length by omega, hrest,
      serializeItems_cons]
    simp only [List.length_append, BigEndian.length_fixed]
    exact congrArg Except.ok (by omega)

theorem countItems_serializeItems {items : List Bytes} (h : ∀ bs ∈ items, bs.length < 2 ^ 32)
    (before after : Bytes) {fuel : Nat} (hfuel : items.length < fuel) :
    countItems (before ++ (serializeItems items ++ after))
      (before.length + (serializeItems items).length) fuel before.length = .ok items.length := by
  induction items generalizing before fuel with
  | nil =>
    obtain ⟨fuel, rfl⟩ : ∃ k, fuel = k + 1 := ⟨fuel - 1, by simp at hfuel; omega⟩
    rw [countItems, if_neg (by simp [serializeItems])]
    rfl
  | cons bs items ih =>
    rw [List.length_cons] at hfuel
    obtain ⟨fuel, rfl⟩ : ∃ k, fuel = k + 1 := ⟨fuel - 1, by omega⟩
    have hrest := ih (fun bs' hbs' => h bs' (by simp [hbs']))
      (before ++ (BigEndian.fixed 4 bs.length ++ bs)) (show items.length < fuel by omega)
    have hend : before.length + (serializeItems (bs :: items)).length =
        before.length + 4 + bs.length + (serializeItems items).length := by
      rw [serializeItems_cons]
      simp only [List.length_append, BigEndian.length_fixed]
      omega
    rw [length_shift] at hrest
    rw [countItems, if_pos (by omega), readSize_serializeItems (h bs (by simp)), shift_items, hend]
    show (countItems _ _ fuel (before.length + bs.length + 4) >>= _) = _
    rw [show before.length + bs.length + 4 = before.length + 4 + bs.length by omega, hrest]
    rfl

theorem readItems_serializeItems {items : List Bytes} {xs : List α}
    (h : ∀ bs ∈ items, bs.length < 2 ^ 32)
    (hxs : List.Forall₂ (fun bs x => item bs = .ok x) items xs) (before after : Bytes) :
    readItems item (before ++ (serializeItems items ++ after)) items.length before.length =
      .ok xs := by
  induction hxs generalizing before with
  | nil => rfl
  | cons hx hxs ih =>
    rename_i bs x items xs
    have hrest := ih (fun bs' hbs' => h bs' (by simp [hbs']))
      (before ++ (BigEndian.fixed 4 bs.length ++ bs))
    rw [length_shift] at hrest
    have hsub : substr (before ++ (serializeItems (bs :: items) ++ after)) (before.length + 4)
        bs.length = .ok bs := by
      rw [serializeItems_cons, show before ++ (BigEndian.fixed 4 bs.length ++ bs ++
        serializeItems items ++ after) = (before ++ BigEndian.fixed 4 bs.length) ++
          (bs ++ (serializeItems items ++ after)) by simp [List.append_assoc]]
      have hlen : before.length + 4 = (before ++ BigEndian.fixed 4 bs.length).length := by simp
      rw [substr, hlen, if_neg (by simp), List.drop_left, List.take_left]
    rw [List.length_cons, readItems_succ (readSize_serializeItems (h bs (by simp))), hsub]
    show (item bs >>= _) = _
    rw [hx, shift_items]
    show (readItems item _ items.length (before.length + 4 + bs.length) >>= _) = _
    rw [hrest]
    rfl

/-! ### Items that were read -/

theorem slices_of_readItems {n index : Nat} {xs : List α}
    (h : readItems item bytes n index = .ok xs) :
    ∃ items, readItems (α := Bytes) .ok bytes n index = .ok items ∧
      List.Forall₂ (fun bs x => item bs = .ok x) items xs := by
  induction n generalizing index xs with
  | zero =>
    cases h
    exact ⟨[], rfl, .nil⟩
  | succ n ih =>
    obtain ⟨size, hsize, h⟩ := Except.bind_eq_ok.mp h
    obtain ⟨bs, hbs, h⟩ := Except.bind_eq_ok.mp h
    obtain ⟨x, hx, h⟩ := Except.bind_eq_ok.mp h
    obtain ⟨rest, hrest, h⟩ := Except.bind_eq_ok.mp h
    cases h
    obtain ⟨items, hitems, hall⟩ := ih hrest
    refine ⟨bs :: items, ?_, .cons hx hall⟩
    exact Except.bind_eq_ok.mpr ⟨size, hsize, Except.bind_eq_ok.mpr ⟨bs, hbs,
      Except.bind_eq_ok.mpr ⟨bs, rfl, Except.bind_eq_ok.mpr ⟨items, hitems, rfl⟩⟩⟩⟩

theorem take_of_readSize {index size : Nat} (h : readSize bytes index = .ok size) :
    (bytes.drop index).take 4 = BigEndian.fixed 4 size ∧ size < 2 ^ 32 := by
  obtain ⟨four, hfour, h⟩ := Except.bind_eq_ok.mp h
  unfold bytesToUint32 at h
  split at h
  · cases h
  · rename_i hlen
    have hlen : four.length = 4 := not_not.mp hlen
    cases h
    unfold substr at hfour
    split at hfour
    · cases hfour
    · cases hfour
      have hfixed := BigEndian.fixed_decode ((bytes.drop index).take 4)
      have hlt := BigEndian.decode_lt ((bytes.drop index).take 4)
      rw [hlen] at hfixed hlt
      exact ⟨hfixed.symm, hlt⟩

/-- **The bytes of a walk that stays within the string** are those `serializeItems` writes. -/
theorem serializeItems_of_skipItems {n index last : Nat} {items : List Bytes}
    (hitems : readItems (α := Bytes) .ok bytes n index = .ok items)
    (hskip : skipItems bytes n index = .ok last) (hlast : last ≤ bytes.length) :
    index ≤ last ∧ bytes.drop index = serializeItems items ++ bytes.drop last := by
  induction n generalizing index items with
  | zero =>
    cases hitems
    cases hskip
    exact ⟨le_refl _, rfl⟩
  | succ n ih =>
    obtain ⟨size, hsize, hskip⟩ := Except.bind_eq_ok.mp hskip
    rw [readItems_succ hsize] at hitems
    obtain ⟨bs, hbs, hitems⟩ := Except.bind_eq_ok.mp hitems
    obtain ⟨_, hx, hitems⟩ := Except.bind_eq_ok.mp hitems
    cases hx
    obtain ⟨rest, hrest, hitems⟩ := Except.bind_eq_ok.mp hitems
    cases hitems
    rw [show index + size + 4 = index + 4 + size by omega] at hskip
    obtain ⟨hle, hdrop⟩ := ih hrest hskip
    refine ⟨by omega, ?_⟩
    -- The slice was not cut: the next item starts within the string.
    have hbs : bs = (bytes.drop (index + 4)).take size := by
      have hsub := liftExn_eq_ok.mp hbs
      unfold substr at hsub
      split at hsub
      · cases hsub
      · cases hsub
        rfl
    have hlen : bs.length = size := by
      rw [hbs, List.length_take, List.length_drop]
      omega
    calc bytes.drop index
        = (bytes.drop index).take 4 ++ ((bytes.drop (index + 4)).take size ++
            bytes.drop (index + 4 + size)) := by
          rw [← List.drop_drop (i := size), List.take_append_drop, ← List.drop_drop (i := 4),
            List.take_append_drop]
      _ = BigEndian.fixed 4 size ++ (bs ++ (serializeItems rest ++ bytes.drop last)) := by
          rw [(take_of_readSize hsize).1, ← hbs, hdrop]
      _ = serializeItems (bs :: rest) ++ bytes.drop last := by
          rw [serializeItems_cons, hlen]
          simp [List.append_assoc]

end

/-! ### The threads of the parser -/

/-- The threaded way of reading the block transactions. -/
def readTxsThreaded (C : Crypto) (thrNum : Nat) (bytes : Bytes) (chainId : UInt64)
    (txCount : Nat) : Except Fail (List TxBlock) := do
  let chunks ← liftExn (threadChunks bytes
    (List.replicate (thrNum - 1) (txCount / thrNum) ++ [txCount / thrNum + txCount % thrNum]) 217)
  readChunks (fun bs => TxBlock.parse C bs chainId) bytes chunks

variable {C : Crypto}

theorem sum_chunks {thrNum : Nat} (h : 1 ≤ thrNum) (txCount : Nat) :
    (List.replicate (thrNum - 1) (txCount / thrNum) ++
      [txCount / thrNum + txCount % thrNum]).sum = txCount := by
  have hdiv := Nat.div_add_mod txCount thrNum
  obtain ⟨k, rfl⟩ : ∃ k, thrNum = k + 1 := ⟨thrNum - 1, by omega⟩
  rw [List.sum_append, List.sum_replicate, List.sum_singleton, smul_eq_mul, Nat.add_sub_cancel]
  rw [Nat.add_mul, Nat.one_mul] at hdiv
  omega

theorem readTxs_of_many {thrNum txCount : Nat} {bytes : Bytes} {chainId : UInt64}
    (h : ¬ (thrNum ≤ 1 ∨ txCount ≤ 2000)) :
    readTxs C thrNum bytes chainId txCount = readTxsThreaded C thrNum bytes chainId txCount :=
  if_neg h

theorem readTxsThreaded_of_skipItems {thrNum txCount last : Nat} {bytes : Bytes}
    {chainId : UInt64} (hthr : 1 ≤ thrNum) (h : skipItems bytes txCount 217 = .ok last) :
    readTxsThreaded C thrNum bytes chainId txCount =
      readItems (fun bs => TxBlock.parse C bs chainId) bytes txCount 217 := by
  rw [← sum_chunks hthr txCount] at h
  obtain ⟨chunks, hchunks, hread⟩ := readChunks_threadChunks
    (fun bs => TxBlock.parse C bs chainId) h
  rw [readTxsThreaded, hchunks]
  show readChunks _ bytes chunks = _
  rw [hread, sum_chunks hthr]

/-- **Threaded and sequential reading agree.**  For every byte string and every number of
    transactions the counting loop finds in front of `stop`, any two or more threads return the
    transactions one thread returns, in the same order, and fail as it fails. -/
theorem readTxsThreaded_eq (C : Crypto) {thrNum : Nat} (hthr : 2 ≤ thrNum) {bytes : Bytes}
    {stop txCount : Nat} (hcount : countItems bytes stop (bytes.length + 1) 217 = .ok txCount)
    (chainId : UInt64) :
    readTxsThreaded C thrNum bytes chainId txCount =
      readItems (fun bs => TxBlock.parse C bs chainId) bytes txCount 217 := by
  obtain ⟨last, hlast, -⟩ := skipItems_of_countItems hcount
  exact readTxsThreaded_of_skipItems (by omega) hlast

/-- Three items behind 217 bytes. -/
def threeItems : Bytes := List.replicate 217 0 ++ serializeItems [[0x02], [], [0x02, 0xf8]]

/-- Two threads and three items: one for the first and two for the last. -/
theorem readTxsThreaded_three :
    countItems threeItems threeItems.length (threeItems.length + 1) 217 = .ok 3 ∧
      ∀ C chainId, readTxsThreaded C 2 threeItems chainId 3 =
        readItems (fun bs => TxBlock.parse C bs chainId) threeItems 3 217 := by
  have hcount : countItems threeItems threeItems.length (threeItems.length + 1) 217 = .ok 3 := by
    decide +kernel
  exact ⟨hcount, fun C chainId => readTxsThreaded_eq C (by decide) hcount chainId⟩

end OrbiterSdk.Block
