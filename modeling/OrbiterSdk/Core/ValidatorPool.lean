import OrbiterSdk.Core.Schedule

namespace OrbiterSdk

/-!
# The mempool of validator transactions

`rdPoS::addValidatorTx` looks for the transactions of the sender in the mempool each time, and
a block empties the mempool while it changes who may send.  The rules of a single call are
invariants of every run of a node:

* `addValidatorTx_fst_iff` — the returned value says whether the transaction is there;
* `length_le_of_countP` — a bound per sender is a bound for all of them;
* `Pooled` — the invariant of the mempool, kept by every operation (`Pooled.step`);
* `State.validatorMempool_of_run` — what holds in every state a loaded node can reach.
-/

/-- Objects of which each owner has at most `k`, when there are only so many owners: induction
    over the owners, of whom one is left out with everything that belongs to them. -/
theorem length_le_of_countP {α β : Type} [DecidableEq β] {owner : α → β} {k : Nat}
    {owners : List β} {l : List α} (hmem : ∀ x ∈ l, owner x ∈ owners)
    (hcount : ∀ b, (l.countP fun x => decide (owner x = b)) ≤ k) :
    l.length ≤ k * owners.length := by
  induction owners generalizing l with
  | nil =>
    cases l with
    | nil => simp
    | cons x l => exact absurd (hmem x (by simp)) (by simp)
  | cons b owners ih =>
    have hsplit := List.length_eq_countP_add_countP (l := l) (fun x => decide (owner x = b))
    have hrest : (l.filter fun x => !decide (owner x = b)).length ≤ k * owners.length := by
      refine ih (fun x hx => ?_) (fun b' => ?_)
      · obtain ⟨hx, hne⟩ := List.mem_filter.mp hx
        rcases List.mem_cons.mp (hmem x hx) with he | he
        · simp [he] at hne
        · exact he
      · exact (List.Sublist.countP_le List.filter_sublist).trans (hcount b')
    rw [← List.countP_eq_length_filter] at hrest
    have hb := hcount b
    have hmul : k * (b :: owners).length = k * owners.length + k := by
      rw [List.length_cons, Nat.mul_succ]
    have hneg : (l.countP fun x => !decide (owner x = b)) =
        l.countP fun x => decide ¬ (decide (owner x = b) = true) := by
      simp
    omega

namespace RdPoS

variable {C : Crypto}

/-- **The answer of `addValidatorTx`**: true exactly if the transaction is in the mempool
    afterwards. -/
theorem addValidatorTx_fst_iff (latestHeight : UInt64) (r : RdPoS) (tx : TxValidator) :
    (r.addValidatorTx C latestHeight tx).1 = true ↔
      tx.hash C true ∈ (r.addValidatorTx C latestHeight tx).2.validatorMempool := by
  have hrun := addValidatorTx_run (C := C) latestHeight r tx
  generalize r.addValidatorTx C latestHeight tx = result at hrun ⊢
  cases hrun with
  | known hknown => exact iff_of_true rfl hknown
  | refused hnew => exact iff_of_false (by simp) hnew
  | filed => exact iff_of_true rfl (AssocMap.mem_emplace.mpr (Or.inl rfl))

/-- No sender has more than two transactions in the mempool. -/
def TwoPerSender (r : RdPoS) : Prop :=
  ∀ a, (r.pool.countP fun t => decide (t.sender = a)) ≤ 2

theorem TwoPerSender.add {latestHeight : UInt64} {r : RdPoS} (h : r.TwoPerSender)
    (tx : TxValidator) : (r.addValidatorTx C latestHeight tx).2.TwoPerSender := by
  have hrun := addValidatorTx_run (C := C) latestHeight r tx
  generalize r.addValidatorTx C latestHeight tx = result at hrun ⊢
  cases hrun with
  | known => exact h
  | refused => exact h
  | filed hnew _ _ hone _ =>
    intro a
    rw [pool_emplace hnew, List.countP_cons]
    by_cases ha : tx.sender = a
    · -- The sender had one at most.
      subst ha
      simp only [decide_true, if_true]
      omega
    · simp only [ha, decide_false, Bool.false_eq_true, if_false]
      exact h a

theorem twoPerSender_of_empty {r : RdPoS} (h : r.validatorMempool = ∅) : r.TwoPerSender := by
  intro a
  have hpool : r.pool = [] := by rw [pool, h]; rfl
  rw [hpool]
  exact Nat.zero_le _

theorem validatorMempool_processBlock {r r' : RdPoS} {block : Block}
    (h : r.processBlock C block = .ok r') : r'.validatorMempool = ∅ := by
  unfold processBlock at h
  split at h
  · cases h
  · cases h
    rfl

theorem validatorMempool_load {db : AssocMap Bytes Address} {latest : Block} {r : RdPoS}
    (h : load C db latest = .ok r) : r.validatorMempool = ∅ := by
  unfold load at h
  split at h
  · cases h
  · cases h
    rfl

theorem length_pool_le {latestHeight : UInt64} {r : RdPoS} (h : Admitted C latestHeight r)
    (htwo : r.TwoPerSender) : r.pool.length ≤ 8 := by
  have hle := length_le_of_countP h.senders htwo
  have hfour : r.participants.length ≤ 4 := List.length_take_le _ _
  omega

theorem place_of_participant {r : RdPoS} {a : Address} (h : a ∈ r.participants) :
    ∃ i, 1 ≤ i ∧ i ≤ 4 ∧ r.randomList[i]? = some a := by
  obtain ⟨i, hi⟩ := List.mem_iff_getElem?.mp h
  have hlt : i < 4 := by
    have hlen := (List.getElem?_eq_some_iff.mp hi).1
    have hfour : r.participants.length ≤ 4 := List.length_take_le _ _
    omega
  refine ⟨i + 1, by omega, by omega, ?_⟩
  rw [participants, List.getElem?_take_of_lt (show i < minValidators from hlt),
    List.getElem?_drop, Nat.add_comm] at hi
  exact hi

end RdPoS

namespace State

variable {C : Crypto} {depth : Nat}

/-- The validator mempool keeps to the rules for the next block. -/
structure Pooled (C : Crypto) (s : State) : Prop where
  admitted : RdPoS.Admitted C s.storage.latest.nHeight s.rdpos
  twoPerSender : s.rdpos.TwoPerSender
  priced : s.Priced

/-- **Every operation keeps the rules.**  A transaction is admitted by them; a block that is
    accepted empties the mempool, and one that is not changes neither rdPoS nor the chain. -/
theorem Pooled.step {s s' : State} {op : Op} (h : Pooled C s)
    (hs : op.apply C depth s = some s') : Pooled C s' := by
  have hpriced := h.priced.step hs
  have hsame : s'.rdpos = s.rdpos → s'.storage = s.storage → Pooled C s' := by
    intro hrdpos hstorage
    refine ⟨?_, ?_, hpriced⟩
    · rw [hrdpos, hstorage]
      exact h.admitted
    · rw [hrdpos]
      exact h.twoPerSender
  by_cases hdelivery : ∃ tx, op = .addValidatorTx tx
  · obtain ⟨tx, rfl⟩ := hdelivery
    cases hs
    exact ⟨h.admitted.add tx, h.twoPerSender.add tx, hpriced⟩
  · cases apply_run hs with
    | refused tx => exact h
    | filed tx => exact hsame rfl rfl
    | delivered tx pool => exact absurd ⟨tx, rfl⟩ hdelivery
    | filled a x => exact hsame rfl rfl
    | processed block p hp =>
      rcases (processNextBlock_chain h.priced hp).2 with ⟨-, -, hr, -⟩ | ⟨-, hrdpos, hstorage, -⟩
      · have hempty := RdPoS.validatorMempool_processBlock hr
        exact ⟨RdPoS.admitted_of_empty hempty, RdPoS.twoPerSender_of_empty hempty, hpriced⟩
      · exact hsame hrdpos hstorage
    | viewed info manager => exact hsame rfl rfl
    | simulated info manager => exact hsame rfl rfl

theorem Loaded.pooled {db : AssocMap Bytes Address} {s : State} (h : Loaded C db s) :
    Pooled C s := by
  have hempty := RdPoS.validatorMempool_load h.rdpos
  exact ⟨RdPoS.admitted_of_empty hempty, RdPoS.twoPerSender_of_empty hempty, h.scheduled.priced⟩

/-- **The validator mempool.**  Whatever a loaded node does, its validator mempool holds at most
    eight transactions, all of them for the next block and from `randomList[1]` to
    `randomList[4]`, at most two of each sender and then with different functors; and
    `addValidatorTx` returns true exactly if the transaction is in the mempool afterwards. -/
theorem validatorMempool_of_run {db : AssocMap Bytes Address} {s₀ s : State} {ops : List Op}
    (h₀ : Loaded C db s₀) (hrun : Machine.run (Op.apply C depth) ops s₀ = some s) :
    s.rdpos.pool.length ≤ 8 ∧
      (∀ tx ∈ s.rdpos.pool, tx.nHeight = s.storage.latest.nHeight + 1 ∧
        ∃ i, 1 ≤ i ∧ i ≤ 4 ∧ s.rdpos.randomList[i]? = some tx.sender) ∧
      (∀ a, (s.rdpos.pool.countP fun tx => decide (tx.sender = a)) ≤ 2) ∧
      (s.rdpos.pool.Pairwise fun tx tx' =>
        tx.sender = tx'.sender → tx.data.take 4 ≠ tx'.data.take 4) ∧
      ∀ tx, (s.addValidatorTx C tx).1 = true ↔
        tx.hash C true ∈ (s.addValidatorTx C tx).2.rdpos.validatorMempool := by
  have hpooled : Pooled C s :=
    Machine.run_invariant (fun _ _ _ h _ hs => h.step hs) h₀.pooled
      (Machine.along_of_forall (P := fun _ _ => True) (fun _ _ => trivial) ops s₀) hrun
  have hadm := hpooled.admitted
  refine ⟨RdPoS.length_pool_le hadm hpooled.twoPerSender, fun tx htx => ?_, hpooled.twoPerSender,
    hadm.functors, fun tx => RdPoS.addValidatorTx_fst_iff _ _ tx⟩
  exact ⟨hadm.heights tx htx, RdPoS.place_of_participant (hadm.senders tx htx)⟩

/-- The transactions of the first round fill the mempool of a fresh node. -/
theorem validatorMempool_of_run_round :
    ∃ s₀ s, genesis Recorded.crypto = .ok s₀ ∧
      Machine.run (Op.apply Recorded.crypto 1) (Recorded.validatorTxs.map .addValidatorTx) s₀ =
        some s ∧
      s.rdpos.pool.length = 8 ∧
      ∀ tx ∈ s.rdpos.pool, tx.nHeight = s.storage.latest.nHeight + 1 ∧
        ∃ i, 1 ≤ i ∧ i ≤ 4 ∧ s.rdpos.randomList[i]? = some tx.sender := by
  have hlook : Recorded.start (fun s₀ => (Machine.run (Op.apply Recorded.crypto 1)
      (Recorded.validatorTxs.map .addValidatorTx) s₀).map fun s => s.rdpos.pool.length) =
        some 8 := by
    decide +kernel
  obtain ⟨s₀, hs₀, hlook⟩ := Recorded.start_eq_some hlook
  obtain ⟨s, hs, hlen⟩ := Option.map_eq_some_iff.mp hlook
  exact ⟨s₀, s, hs₀, hs, hlen, (validatorMempool_of_run (genesis_loaded hs₀) hs).2.1⟩

end State

end OrbiterSdk
