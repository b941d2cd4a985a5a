import OrbiterSdk.Core.StorageRestart

namespace OrbiterSdk.BlockStorage

/-!
# Pushing and popping

`popBack` and `popFront` leave the mappings by height as they are, and all four mappings keep
the first entry for a key.  So the index invariant is kept exactly by

* pushing a block that gives no hash, height or transaction a second meaning;
* popping a block that the database has as well (`Stays`).

`indexed_iff` says so for one operation and `indexed_of_run` for a whole run; without these
conditions a height can be left without its block (`popBack_stale`).
-/

/-- The operations at the ends of the chain. -/
inductive ChainOp where
  | pushBack (block : Block)
  | pushFront (block : Block)
  | popBack
  | popFront

/-- A successful call. -/
def ChainOp.apply (E : Env) : ChainOp → BlockStorage → Option BlockStorage
  | .pushBack block, s => (s.pushBack E block).toOption
  | .pushFront block, s => (s.pushFront E block).toOption
  | .popBack, s => (s.popBack E).toOption
  | .popFront, s => (s.popFront E).toOption

section

variable (E : Env)

/-- The block is new, and next to those that are known it is not ambiguous. -/
def Fits (s : BlockStorage) (b : Block) : Prop :=
  b ∉ s.chain ∧ Unambiguous E (fun c => c ∈ s.chain ∨ c = b) fun c => Known E s c ∨ c = b

/-- The database has a block with this hash and height. -/
def Stays (s : BlockStorage) (b : Block) : Prop :=
  ∃ c, Archived E s.db c ∧ c.hash E.C = b.hash E.C ∧ c.nHeight = b.nHeight

/-- When an operation keeps the mappings right. -/
def ChainOp.Permitted (s : BlockStorage) : ChainOp → Prop
  | .pushBack block => Fits E s block
  | .pushFront block => Fits E s block
  | .popBack => ∀ block, s.chain.getLast? = some block → Stays E s block
  | .popFront => ∀ block, s.chain.head? = some block → Stays E s block

end

variable {E : Env} {s s' : BlockStorage} {b : Block} {chain : List Block}

/-! ### One operation -/

theorem indexed_push (h : Indexed E s) (hmem : ∀ c, c ∈ chain ↔ c ∈ s.chain ∨ c = b)
    (hlinked : chain.IsChain (Link E)) (hnodup : chain.Nodup ↔ b ∉ s.chain) :
    Indexed E { s.addToMappings E b with chain } ↔ Fits E s b := by
  have hknown : ∀ c, Known E { s.addToMappings E b with chain } c ↔ Known E s c ∨ c = b := by
    intro c
    show c ∈ chain ∨ Archived E s.db c ↔ (c ∈ s.chain ∨ Archived E s.db c) ∨ c = b
    rw [hmem, or_right_comm]
  constructor
  · intro h'
    exact ⟨hnodup.mp h'.nodup, h'.mapped.unambiguous.mono (fun c hc => (hmem c).mpr hc)
      fun c hc => (hknown c).mpr hc⟩
  · rintro ⟨hnew, hu⟩
    refine ⟨hlinked, hnodup.mpr hnew, ?_⟩
    exact (h.mapped.add hu).congr (fun c => (hmem c).symm) (fun c => (hknown c).symm) rfl rfl rfl rfl

theorem indexed_pop (h : Indexed E s) (hb : b ∈ s.chain)
    (hmem : ∀ c, c ∈ chain ↔ c ∈ s.chain ∧ c ≠ b) (hlinked : chain.IsChain (Link E))
    (hnodup : chain.Nodup) :
    Indexed E { s.removeFromMappings E b with chain } ↔ Stays E s b := by
  constructor
  · intro h'
    -- The entry of the block by height is still there, so some block accounts for it.
    have hlook : s.blockHashByHeight.lookup b.nHeight = some (b.hash E.C) :=
      (h.mapped.blockHashByHeight _ _).mpr ⟨b, Or.inl hb, rfl, rfl⟩
    obtain ⟨c, hc, hheight, hhash⟩ := (h'.mapped.blockHashByHeight _ _).mp hlook
    rcases hc with hc | hc
    · obtain ⟨hcs, hne⟩ := (hmem c).mp hc
      exact absurd (h.mapped.unambiguous.byHash ⟨hcs, hhash⟩ ⟨hb, rfl⟩) hne
    · exact ⟨c, hc, hhash, hheight⟩
  · rintro ⟨c, hc, hhash, hheight⟩
    refine ⟨hlinked, hnodup, ?_⟩
    refine (h.mapped.remove hb ?_).congr (fun c => (hmem c).symm) (fun _ => Iff.rfl) rfl rfl rfl rfl
    intro n hash
    constructor
    · refine HashAt.mono fun d hd => ?_
      exact hd.imp_left fun hd => ((hmem d).mp hd).1
    · rintro ⟨d, hd | hd, hdn, hdh⟩
      · by_cases hdb : d = b
        · subst hdb
          exact ⟨c, Or.inr hc, hheight.trans hdn, hhash.trans hdh⟩
        · exact ⟨d, Or.inl ((hmem d).mpr ⟨hd, hdb⟩), hdn, hdh⟩
      · exact ⟨d, Or.inr hd, hdn, hdh⟩

/-- **One operation** keeps the index invariant exactly when it is permitted. -/
theorem indexed_iff (h : Indexed E s) {op : ChainOp} (hs : op.apply E s = some s') :
    Indexed E s' ↔ op.Permitted E s := by
  cases op with
  | pushBack block =>
    obtain ⟨hlink, rfl⟩ := pushBack_eq_ok (Except.toOption_eq_some.mp hs)
    refine indexed_push h (fun c => ?_) ?_ ?_
    · rw [List.mem_append, List.mem_singleton]
    · refine List.isChain_append.mpr ⟨h.linked, List.isChain_singleton _, ?_⟩
      intro x hx y hy
      cases hy
      exact hlink x hx
    · rw [List.nodup_append_comm, List.singleton_append, List.nodup_cons]
      exact and_iff_left h.nodup
  | pushFront block =>
    obtain ⟨hlink, rfl⟩ := pushFront_eq_ok (Except.toOption_eq_some.mp hs)
    refine indexed_push h (fun c => ?_) ?_ ?_
    · rw [List.mem_cons, or_comm]
    · exact List.isChain_cons.mpr ⟨fun y hy => hlink y hy, h.linked⟩
    · rw [List.nodup_cons]
      exact and_iff_left h.nodup
  | popBack =>
    obtain ⟨init, block, hchain, rfl⟩ := popBack_eq_ok (Except.toOption_eq_some.mp hs)
    have hpermitted : ChainOp.Permitted E s .popBack ↔ Stays E s block := by
      show (∀ c, s.chain.getLast? = some c → Stays E s c) ↔ _
      rw [hchain, List.getLast?_concat]
      exact ⟨fun hp => hp block rfl, fun hp c hc => Option.some.inj hc ▸ hp⟩
    have hnodup := h.nodup
    rw [hchain, List.nodup_append_comm, List.singleton_append, List.nodup_cons] at hnodup
    rw [hpermitted]
    refine indexed_pop h (by rw [hchain]; simp) (fun c => ?_) ?_ hnodup.2
    · rw [hchain, List.mem_append, List.mem_singleton]
      constructor
      · intro hc
        exact ⟨Or.inl hc, fun he => hnodup.1 (he ▸ hc)⟩
      · rintro ⟨hc, hne⟩
        exact hc.resolve_right hne
    · have hlinked := h.linked
      rw [hchain] at hlinked
      exact (List.isChain_append.mp hlinked).1
  | popFront =>
    obtain ⟨block, tail, hchain, rfl⟩ := popFront_eq_ok (Except.toOption_eq_some.mp hs)
    have hpermitted : ChainOp.Permitted E s .popFront ↔ Stays E s block := by
      show (∀ c, s.chain.head? = some c → Stays E s c) ↔ _
      rw [hchain, List.head?_cons]
      exact ⟨fun hp => hp block rfl, fun hp c hc => Option.some.inj hc ▸ hp⟩
    have hnodup := h.nodup
    rw [hchain, List.nodup_cons] at hnodup
    rw [hpermitted]
    refine indexed_pop h (by rw [hchain]; simp) (fun c => ?_) ?_ hnodup.2
    · rw [hchain, List.mem_cons]
      constructor
      · intro hc
        exact ⟨Or.inr hc, fun he => hnodup.1 (he ▸ hc)⟩
      · rintro ⟨hc, hne⟩
        exact hc.resolve_left hne
    · have hlinked := h.linked
      rw [hchain] at hlinked
      exact hlinked.tail

theorem ChainOp.cachedBlocks {op : ChainOp} (hs : op.apply E s = some s') :
    s'.cachedBlocks = s.cachedBlocks := by
  cases op with
  | pushBack block =>
    obtain ⟨-, rfl⟩ := pushBack_eq_ok (Except.toOption_eq_some.mp hs)
    rfl
  | pushFront block =>
    obtain ⟨-, rfl⟩ := pushFront_eq_ok (Except.toOption_eq_some.mp hs)
    rfl
  | popBack =>
    obtain ⟨_, _, -, rfl⟩ := popBack_eq_ok (Except.toOption_eq_some.mp hs)
    rfl
  | popFront =>
    obtain ⟨_, _, -, rfl⟩ := popFront_eq_ok (Except.toOption_eq_some.mp hs)
    rfl

/-! ### A run -/

/-- **The index invariant over a run.**  Take the storage of a node that has pushed blocks and
    been restarted any number of times, and push and pop blocks at both ends.  As long as every
    operation is permitted, the chain is linked, the mappings hold exactly what they should, and
    every height is answered with the block that is known there or with nothing; and an
    operation that is not permitted breaks the invariant. -/
theorem indexed_of_run {s₀ s₁ : BlockStorage} (h₀ : load E .empty = .ok s₀) {events : List Event}
    (hadm : Admissible E (genesisBlock E.C :: Event.pushed events))
    (hlife : Machine.run (Event.apply E) events s₀ = some s₁) {ops : List ChainOp}
    (halong : Machine.Along (ChainOp.apply E) (fun s op => op.Permitted E s) ops s₁)
    (hrun : Machine.run (ChainOp.apply E) ops s₁ = some s) :
    Indexed E s ∧ (∀ height, AnswersAt E s height) ∧
      ∀ op s', ChainOp.apply E op s = some s' → (Indexed E s' ↔ op.Permitted E s) := by
  have hsplit : genesisBlock E.C :: Event.pushed events =
      [genesisBlock E.C] ++ Event.pushed events := rfl
  rw [hsplit] at hadm
  have hstart := run_represents (represents_genesis hadm.left h₀) hadm hlife
  obtain ⟨hindexed, hcache⟩ : Indexed E s ∧ s.cachedBlocks = ∅ := by
    refine Machine.run_invariant (I := fun s => Indexed E s ∧ s.cachedBlocks = ∅)
      (fun t op t' ht hop hs => ?_) ⟨hstart.indexed hadm, hstart.cachedBlocks⟩ halong hrun
    exact ⟨(indexed_iff ht.1 hs).mpr hop, (ChainOp.cachedBlocks hs).trans ht.2⟩
  exact ⟨hindexed, getBlockAt_of_indexed hindexed hcache, fun op s' hs => indexed_iff hindexed hs⟩

/-- A node with a restart behind it pops block 1; the block is then found in the database. -/
theorem indexed_of_run_popBack :
    ∃ s₀ s₁ s, load recordedEnv .empty = .ok s₀ ∧
      Machine.run (Event.apply recordedEnv) [.push recordedBlock, .restart] s₀ = some s₁ ∧
      Machine.run (ChainOp.apply recordedEnv) [.popBack] s₁ = some s ∧
      s.chain = [genesisBlock Recorded.crypto] ∧ Indexed recordedEnv s ∧
      AnswersAt recordedEnv s 1 := by
  have hlook : ((load recordedEnv .empty).toOption.bind fun s₀ =>
      (Machine.run (Event.apply recordedEnv) [.push recordedBlock, .restart] s₀).bind fun s₁ =>
        (Machine.run (ChainOp.apply recordedEnv) [.popBack] s₁).map fun s =>
          decide (s.chain = [genesisBlock Recorded.crypto] ∧
            s₁.chain.getLast? = some recordedBlock ∧
            (s₁.db.entries .blocks).lookup (recordedBlock.hash Recorded.crypto).data =
              some recordedBlock.serializeBlock ∧
            (s₁.db.entries .blockHeightMaps).lookup (uint64ToBytes recordedBlock.nHeight) =
              some (recordedBlock.hash Recorded.crypto).data)) = some true := by
    decide +kernel
  obtain ⟨s₀, hs₀, hlook⟩ := Option.bind_eq_some_iff.mp hlook
  obtain ⟨s₁, hlife, hlook⟩ := Option.bind_eq_some_iff.mp hlook
  obtain ⟨s, hrun, hlook⟩ := Option.map_eq_some_iff.mp hlook
  obtain ⟨hchain, hlast, hblock, hheight⟩ := of_decide_eq_true hlook
  have hadm : Admissible recordedEnv (genesisBlock recordedEnv.C ::
      Event.pushed [.push recordedBlock, .restart]) := admissible_recordedBlock
  have halong : Machine.Along (ChainOp.apply recordedEnv) (fun s op => op.Permitted recordedEnv s)
      [.popBack] s₁ := by
    refine ⟨fun block hb => ?_, fun _ _ => trivial⟩
    rw [Option.some.inj (hb.symm.trans hlast)]
    refine ⟨recordedBlock, ⟨⟨_, hblock, ?_⟩, hheight⟩, rfl, rfl⟩
    exact (hadm.storable _ (List.mem_cons_of_mem _ (List.mem_singleton.mpr rfl))).parse
  obtain ⟨hindexed, hanswers, -⟩ :=
    indexed_of_run (Except.toOption_eq_some.mp hs₀) hadm hlife halong hrun
  exact ⟨s₀, s₁, s, Except.toOption_eq_some.mp hs₀, hlife, hrun, hchain, hindexed, hanswers 1⟩

/-- A fresh node pushes block 1 and pops it.  Its height is still mapped to its hash, so the
    block is said to be in the database, and asking for it throws. -/
theorem popBack_stale :
    ∃ s₀ s, load recordedEnv .empty = .ok s₀ ∧
      Machine.run (ChainOp.apply recordedEnv) [.pushBack recordedBlock, .popBack] s₀ = some s ∧
      s.chain = [genesisBlock Recorded.crypto] ∧ s.blockExistsAt 1 = .OnDB ∧
      (s.getBlockAt recordedEnv 1).1 =
        .error (.exn (.runtimeError "Block: Invalid block size - too short")) ∧
      ¬ AnswersAt recordedEnv s 1 := by
  have hlook : ((load recordedEnv .empty).toOption.bind fun s₀ =>
      (Machine.run (ChainOp.apply recordedEnv) [.pushBack recordedBlock, .popBack] s₀).map fun s =>
        decide (s.chain = [genesisBlock Recorded.crypto] ∧ s.blockExistsAt 1 = .OnDB ∧
          (s.getBlockAt recordedEnv 1).1 =
            .error (.exn (.runtimeError "Block: Invalid block size - too short")))) = some true := by
    decide +kernel
  obtain ⟨s₀, hs₀, hlook⟩ := Option.bind_eq_some_iff.mp hlook
  obtain ⟨s, hrun, hlook⟩ := Option.map_eq_some_iff.mp hlook
  obtain ⟨hchain, hstatus, hanswer⟩ := of_decide_eq_true hlook
  refine ⟨s₀, s, Except.toOption_eq_some.mp hs₀, hrun, hchain, hstatus, hanswer, ?_⟩
  rintro (⟨b, hb, -⟩ | ⟨hnot, -⟩)
  · rw [hanswer] at hb
    cases hb
  · rw [hstatus] at hnot
    cases hnot

end OrbiterSdk.BlockStorage
