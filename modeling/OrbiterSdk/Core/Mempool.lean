import OrbiterSdk.Core.Run

namespace OrbiterSdk

/-!
# Validation and the mempool

What `validateTransactionInternal` has established about a transaction that passed, and what
`addTx` and `refreshMempool` leave in the mempool.

* `ValidAt` — the sender's account has the transaction's nonce and enough balance;
* `Pending` — every transaction of the mempool is valid; `addTx` keeps it, a refresh
  establishes it again whatever the accounts became;
* `Priced` — no transaction of the mempool overflows, so a refresh never throws;
* `Contained` — no exception escapes from a block's transactions, so the refresh is reached:
  then every operation keeps the mempool pending (`Pending.step`).
-/

namespace State

open Accounts

variable {C : Crypto} {depth : Nat}

/-- The transaction could be executed now. -/
structure ValidAt (s : State) (tx : TxBlock) : Prop where
  mem : tx.sender ∈ s.accounts
  nonce : (Accounts.nonce s.accounts tx.sender).toNat = tx.nonce.val
  covered : Covered s.accounts tx

/-- Validity depends on the sender's account alone, and more balance does no harm. -/
theorem ValidAt.mono {s s' : State} {tx : TxBlock} (h : s.ValidAt tx)
    (hmem : tx.sender ∈ s'.accounts)
    (hnonce : Accounts.nonce s'.accounts tx.sender = Accounts.nonce s.accounts tx.sender)
    (hbal : balance s.accounts tx.sender ≤ balance s'.accounts tx.sender) : s'.ValidAt tx where
  mem := hmem
  nonce := by rw [hnonce]; exact h.nonce
  covered := le_trans h.covered hbal

/-! ### Validation -/

theorem validateTransactionInternal_ok {s : State} {tx : TxBlock}
    (h : s.validateTransactionInternal C tx = .ok .NotInvalid) :
    tx.hash C true ∈ s.mempool ∨ s.ValidAt tx := by
  unfold validateTransactionInternal at h
  split at h
  · rename_i hmem; exact Or.inl hmem
  · split at h
    · cases h
    · rename_i acc hacc
      obtain ⟨x, hx, h⟩ := Except.bind_eq_ok.mp h
      split at h
      · cases h
      · rename_i hbal
        split at h
        · cases h
        · rename_i hnonce
          refine Or.inr ⟨AssocMap.mem_iff_lookup.mpr ⟨acc, hacc⟩, ?_, ?_⟩
          · rw [Accounts.nonce, hacc]
            exact not_not.mp hnonce
          · have hle : x.val ≤ acc.balance.val := not_lt.mp hbal
            unfold Covered
            rw [← TxBlock.valueWithFees_eq_ok.mp hx, balance, AssocMap.weight_of_lookup hacc]
            exact hle

theorem validateTxs_ok {s : State} {txs : List TxBlock} (h : s.validateTxs C txs = .ok true) :
    ∀ tx ∈ txs, s.validateTransactionInternal C tx = .ok .NotInvalid := by
  induction txs with
  | nil => simp
  | cons tx txs ih =>
    obtain ⟨r, hr, h⟩ := Except.bind_eq_ok.mp h
    cases r with
    | NotInvalid =>
      intro t ht
      rcases List.mem_cons.mp ht with rfl | ht
      · exact hr
      · exact ih h t ht
    | InvalidNonce => cases h
    | InvalidBalance => cases h

/-! ### The mempool -/

/-- Every transaction of the mempool is filed under its hash and could be executed. -/
def Pending (C : Crypto) (s : State) : Prop :=
  ∀ hash tx, s.mempool.lookup hash = some tx → hash = tx.hash C true ∧ s.ValidAt tx

theorem Pending.mono {s s' : State} (h : Pending C s) (hpool : s'.mempool = s.mempool)
    (hmem : ∀ a ∈ s.accounts, a ∈ s'.accounts)
    (hnonce : ∀ a, nonce s'.accounts a = nonce s.accounts a)
    (hbal : ∀ a, balance s.accounts a ≤ balance s'.accounts a) : Pending C s' := by
  intro hash tx hl
  obtain ⟨he, hv⟩ := h hash tx (hpool ▸ hl)
  exact ⟨he, hv.mono (hmem _ hv.mem) (hnonce _) (hbal _)⟩

/-- A transaction that could be executed can be inserted, and one that is there already. -/
theorem Pending.insert {s : State} (h : Pending C s) {tx : TxBlock}
    (hv : s.ValidAt tx ∨ tx.hash C true ∈ s.mempool) :
    Pending C { s with mempool := s.mempool.emplace (tx.hash C true) tx } := by
  intro hash t hl
  change (s.mempool.emplace (tx.hash C true) tx).lookup hash = some t at hl
  by_cases hmem : tx.hash C true ∈ s.mempool
  · rw [AssocMap.lookup_emplace_of_mem _ hmem] at hl
    obtain ⟨he, hv'⟩ := h hash t hl
    exact ⟨he, hv'.mem, hv'.nonce, hv'.covered⟩
  · by_cases hh : hash = tx.hash C true
    · subst hh
      rw [AssocMap.lookup_emplace_self_of_notMem _ hmem] at hl
      cases hl
      have hv' := hv.resolve_right hmem
      exact ⟨rfl, hv'.mem, hv'.nonce, hv'.covered⟩
    · rw [AssocMap.lookup_emplace_ne _ hh] at hl
      obtain ⟨he, hv'⟩ := h hash t hl
      exact ⟨he, hv'.mem, hv'.nonce, hv'.covered⟩

theorem Pending.emplace {s : State} (h : Pending C s) {tx : TxBlock}
    (hv : s.validateTransactionInternal C tx = .ok .NotInvalid) :
    Pending C { s with mempool := s.mempool.emplace (tx.hash C true) tx } :=
  h.insert (validateTransactionInternal_ok hv).symm

theorem lookup_of_erased {txs : List TxBlock} {m : AssocMap Hash TxBlock} {k : Hash} {t : TxBlock}
    (h : (txs.foldl (fun m tx => m.erase (tx.hash C true)) m).lookup k = some t) :
    m.lookup k = some t := by
  induction txs generalizing m with
  | nil => exact h
  | cons tx txs ih =>
    have hl := ih h
    by_cases hk : k = tx.hash C true
    · rw [hk, AList.lookup_erase] at hl; cases hl
    · rwa [AList.lookup_erase_ne hk] at hl

/-- Revalidation keeps only what could be executed: induction over the old entries. -/
theorem revalidate_pending {s : State} {es : List (Sigma fun _ : Hash => TxBlock)}
    (h : Pending C s) (hes : ∀ e ∈ es, e.1 = e.2.hash C true) : Pending C (revalidate C s es).2 := by
  induction es generalizing s with
  | nil => exact h
  | cons e es ih =>
    obtain ⟨hash, tx⟩ := e
    have hrest : ∀ e ∈ es, e.1 = e.2.hash C true := fun e he => hes e (by simp [he])
    have hhash : hash = tx.hash C true := hes ⟨hash, tx⟩ (by simp)
    unfold revalidate
    split
    · exact h
    · rename_i hv
      rw [hhash]
      exact ih (h.emplace hv) hrest
    · exact ih h hrest

theorem refreshMempool_pending {s s₀ : State} (h : Pending C s₀) (hpool : s.mempool = s₀.mempool)
    (block : Block) : Pending C (s.refreshMempool C block).2 := by
  refine revalidate_pending (fun hash tx hl => by cases hl) ?_
  intro e he
  have hl : s₀.mempool.lookup e.1 = some e.2 := by
    rw [← hpool]
    exact lookup_of_erased (AList.mem_lookup_iff.mpr he)
  exact (h e.1 e.2 hl).1

/-! ### The mempool never stops a block -/

/-- The value and the fees of every transaction of the mempool fit in 256 bits. -/
def Priced (s : State) : Prop :=
  ∀ hash tx, s.mempool.lookup hash = some tx → ∃ x, tx.valueWithFees = .ok x

theorem ValidAt.priced {s : State} {tx : TxBlock} (h : s.ValidAt tx) :
    ∃ x, tx.valueWithFees = .ok x := by
  have hlt := balance_lt s.accounts tx.sender
  have hc : tx.value.val + tx.feeNat ≤ balance s.accounts tx.sender := h.covered
  exact ⟨⟨tx.value.val + tx.feeNat, by omega⟩, TxBlock.valueWithFees_eq_ok.mpr rfl⟩

/-- Only an overflow makes the validation of a transaction throw. -/
theorem validateTransactionInternal_error {s : State} {tx : TxBlock} {e : Exn}
    (h : s.validateTransactionInternal C tx = .error e) : ∀ x, tx.valueWithFees ≠ .ok x := by
  intro x hx
  unfold validateTransactionInternal at h
  split at h
  · cases h
  · split at h
    · cases h
    · rw [hx] at h
      change (if _ then _ else _) = _ at h
      split at h
      · cases h
      · split at h <;> cases h

/-- What `addTx` leaves in the mempool was there or is the new transaction, which passed. -/
theorem addTx_lookup {s : State} {tx t : TxBlock} {k : Hash}
    (h : (s.addTx C tx).2.mempool.lookup k = some t) :
    s.mempool.lookup k = some t ∨ k = tx.hash C true ∧ t = tx ∧ s.ValidAt tx := by
  unfold addTx at h
  split at h
  · exact Or.inl h
  · rename_i hv
    change (s.mempool.emplace (tx.hash C true) tx).lookup k = some t at h
    by_cases hmem : tx.hash C true ∈ s.mempool
    · rw [AssocMap.lookup_emplace_of_mem _ hmem] at h
      exact Or.inl h
    · by_cases hk : k = tx.hash C true
      · rw [hk, AssocMap.lookup_emplace_self_of_notMem _ hmem] at h
        cases h
        exact Or.inr ⟨hk, rfl, (validateTransactionInternal_ok hv).resolve_left hmem⟩
      · rw [AssocMap.lookup_emplace_ne _ hk] at h
        exact Or.inl h
  · exact Or.inl h

theorem revalidate_lookup {s : State} {es : List (Sigma fun _ : Hash => TxBlock)} {k : Hash}
    {t : TxBlock} (h : (revalidate C s es).2.mempool.lookup k = some t) :
    s.mempool.lookup k = some t ∨ ⟨k, t⟩ ∈ es := by
  induction es generalizing s with
  | nil => exact Or.inl h
  | cons e es ih =>
    obtain ⟨hash, tx⟩ := e
    unfold revalidate at h
    split at h
    · exact Or.inl h
    · rcases ih h with hl | hl
      · change (s.mempool.emplace hash tx).lookup k = some t at hl
        by_cases hmem : hash ∈ s.mempool
        · rw [AssocMap.lookup_emplace_of_mem _ hmem] at hl
          exact Or.inl hl
        · by_cases hk : k = hash
          · rw [hk, AssocMap.lookup_emplace_self_of_notMem _ hmem] at hl
            cases hl
            exact Or.inr (by rw [hk]; exact List.mem_cons_self)
          · rw [AssocMap.lookup_emplace_ne _ hk] at hl
            exact Or.inl hl
      · exact Or.inr (List.mem_cons_of_mem _ hl)
    · rcases ih h with hl | hl
      · exact Or.inl hl
      · exact Or.inr (List.mem_cons_of_mem _ hl)

theorem refreshMempool_lookup {s : State} (block : Block) {k : Hash} {t : TxBlock}
    (h : (s.refreshMempool C block).2.mempool.lookup k = some t) :
    s.mempool.lookup k = some t := by
  rcases revalidate_lookup h with hl | hl
  · cases hl
  · exact lookup_of_erased (AList.mem_lookup_iff.mpr hl)

/-- Revalidating transactions that fit never throws: induction over the old entries. -/
theorem revalidate_ok {s : State} {es : List (Sigma fun _ : Hash => TxBlock)}
    (h : ∀ e ∈ es, ∃ x, e.2.valueWithFees = .ok x) : (revalidate C s es).1 = .ok () := by
  induction es generalizing s with
  | nil => rfl
  | cons e es ih =>
    obtain ⟨hash, tx⟩ := e
    have hrest : ∀ e ∈ es, ∃ x, e.2.valueWithFees = .ok x := fun e he => h e (by simp [he])
    obtain ⟨x, hx⟩ := h ⟨hash, tx⟩ (by simp)
    unfold revalidate
    split
    · rename_i he
      exact absurd hx (validateTransactionInternal_error he x)
    · exact ih hrest
    · exact ih hrest

theorem refreshMempool_ok {s : State} (h : s.Priced) (block : Block) :
    (s.refreshMempool C block).1 = .ok () :=
  revalidate_ok fun _ he => h _ _ (lookup_of_erased (AList.mem_lookup_iff.mpr he))

/-! ### Every operation -/

/-- No exception escapes from the transactions of the block. -/
def Contained (C : Crypto) (depth : Nat) (s : State) (block : Block) : Prop :=
  ∀ e s', processTransactions C depth block.txs s ≠ some (.error e, s')

theorem finalized_of_valid {s : State} {block : Block}
    (h : s.validateNextBlock C block = .ok true) : block.finalized = true :=
  (RdPoS.validateBlock_iff.mp (validateNextBlock_ok h).2.2.2.1).1

theorem processTransactions_frame {txs : List TxBlock} {s : State} {p : Except Exn Unit × State}
    (hp : processTransactions C depth txs s = some p) :
    p.2.mempool = s.mempool ∧ p.2.rdpos = s.rdpos ∧ p.2.storage = s.storage := by
  have hstep : ∀ t tx (p : Except Exn Unit × State),
      (t.mempool = s.mempool ∧ t.rdpos = s.rdpos ∧ t.storage = s.storage) →
      processTransaction C depth t tx = some p →
      p.2.mempool = s.mempool ∧ p.2.rdpos = s.rdpos ∧ p.2.storage = s.storage := by
    intro t tx p h hp
    obtain ⟨h₁, h₂, h₃⟩ := processTransaction_frame hp
    exact ⟨h₁.trans h.1, h₂.trans h.2.1, h₃.trans h.2.2⟩
  exact processTransactions_invariant hstep ⟨rfl, rfl, rfl⟩ hp

/-- The locked section reaches the refresh, so it leaves a pending mempool. -/
theorem Pending.commit {s : State} {block : Block} {p : Except Exn Unit × State}
    (h : Pending C s) (hfin : block.finalized = true) (hin : Contained C depth s block)
    (hp : s.commitBlock C depth block = some p) : Pending C p.2 := by
  -- What the refresh leaves, seen in a state with the same accounts.
  have hrefresh : ∀ {s₁ s₂ : State} {rdpos : RdPoS} {r : Except Exn Unit},
      processTransactions C depth block.txs s = some (.ok (), s₁) →
      ({ s₁ with rdpos } : State).refreshMempool C block = (r, s₂) → Pending C s₂ := by
    intro s₁ s₂ rdpos r hs₁ hm
    have hpend := refreshMempool_pending (s := { s₁ with rdpos }) h
      (processTransactions_frame hs₁).1 block
    rwa [hm] at hpend
  cases commitBlock_run hp with
  | stopped e s₁ hs₁ => exact absurd hs₁ (hin e s₁)
  | unfinalized e s₁ hs₁ hr => simp [RdPoS.processBlock, hfin] at hr
  | unpushed e s₁ rdpos r mempool hs₁ hr hm => exact hrefresh hs₁ hm
  | accepted s₁ rdpos mempool storage hs₁ hr hm =>
    exact (hrefresh hs₁ hm).mono rfl (fun _ ha => ha) (fun _ => rfl) (fun _ => le_rfl)

/-- A valid block lets no exception escape. -/
def ContainedOp (C : Crypto) (depth : Nat) (s : State) : Op → Prop
  | .processNextBlock block =>
    s.validateNextBlock C block = .ok true → Contained C depth s block
  | _ => True

/-- **Every operation keeps the mempool pending**, a block as long as it lets no exception
    escape. -/
theorem Pending.step {s s' : State} {op : Op} (h : Pending C s) (hop : ContainedOp C depth s op)
    (hs : op.apply C depth s = some s') : Pending C s' := by
  have hsame : ∀ {t : State}, t.accounts = s.accounts → t.mempool = s.mempool → Pending C t := by
    intro t haccounts hpool
    exact h.mono hpool (fun a ha => by rwa [haccounts]) (fun a => by rw [haccounts])
      (fun a => by rw [haccounts])
  cases apply_run hs with
  | refused tx => exact h
  | filed tx hv => exact h.emplace hv
  | delivered tx pool => exact hsame rfl rfl
  | filled a x hx =>
    refine h.mono rfl (fun b hb => mem_setBalance.mpr (Or.inr hb))
      (fun b => nonce_setBalance _ _ _ _) (fun b => ?_)
    show _ ≤ balance (setBalance _ _ _) b
    rw [balance_setBalance]
    split
    · rename_i hb; rw [hb]; exact hx
    · exact le_rfl
  | processed block p hp =>
    by_cases hv : s.validateNextBlock C block = .ok true
    · rw [processNextBlock_of_valid hv] at hp
      exact h.commit (finalized_of_valid hv) (hop hv) hp
    · cases processNextBlock_run hp with
      | refused e => exact h
      | stopped e s₁ hv' => exact absurd hv' hv
      | unfinalized e s₁ hv' => exact absurd hv' hv
      | unpushed e s₁ rdpos r mempool hv' => exact absurd hv' hv
      | accepted s₁ rdpos mempool storage hv' => exact absurd hv' hv
  | viewed info manager => exact hsame rfl rfl
  | simulated info manager => exact hsame rfl rfl

end State

end OrbiterSdk
