import OrbiterSdk.Lib.AssocMap
import OrbiterSdk.Utils.Block

namespace OrbiterSdk

/-!
# The in-memory chain

The part of `core/storage.h` that block processing uses: the chain and its four indices,
`latest` and `pushBack`.  A chain is never empty: the constructor loads at least the latest
block, so the structure carries that fact.
-/

/-- `class Storage`: the chain and its indices. -/
structure Storage where
  chain : List Block
  blockByHash : AssocMap Hash Block
  blockHashByHeight : AssocMap UInt64 Hash
  blockHeightByHash : AssocMap Hash UInt64
  txByHash : AssocMap Hash (Hash × Nat × UInt64)
  chain_ne : chain ≠ []

namespace Storage

variable (C : Crypto)

/-- `Storage::latest`. -/
def latest (s : Storage) : Block := s.chain.getLast s.chain_ne

/-- `Storage::pushBack`: append after checking the link; the indices keep existing keys. -/
def pushBack (s : Storage) (block : Block) : Except Exn Storage :=
  if s.latest.hash C ≠ block.prevBlockHash then
    .error (.runtimeError
      ("Block " ++ hexOf (block.hash C).data ++ " does not have the correct previous block hash."))
  else if block.nHeight ≠ s.latest.nHeight + 1 then
    .error (.runtimeError
      ("Block " ++ hexOf (block.hash C).data ++ " does not have the correct height."))
  else
    let h := block.hash C
    .ok { chain := s.chain ++ [block]
          blockByHash := s.blockByHash.emplace h block
          blockHashByHeight := s.blockHashByHeight.emplace block.nHeight h
          blockHeightByHash := s.blockHeightByHash.emplace h block.nHeight
          txByHash := block.txs.zipIdx.foldl
            (fun m p => m.emplace (p.1.hash C true) (h, p.2, block.nHeight)) s.txByHash
          chain_ne := by simp }

/-- A storage that holds just one block. -/
def ofBlock (block : Block) : Storage :=
  { chain := [block]
    blockByHash := (∅ : AssocMap Hash Block).emplace (block.hash C) block
    blockHashByHeight := (∅ : AssocMap UInt64 Hash).emplace block.nHeight (block.hash C)
    blockHeightByHash := (∅ : AssocMap Hash UInt64).emplace (block.hash C) block.nHeight
    txByHash := block.txs.zipIdx.foldl
      (fun m p => m.emplace (p.1.hash C true) (block.hash C, p.2, block.nHeight)) ∅
    chain_ne := by simp }

theorem pushBack_eq_ok {s s' : Storage} {block : Block} (h : s.pushBack C block = .ok s') :
    s.latest.hash C = block.prevBlockHash ∧ block.nHeight = s.latest.nHeight + 1 ∧
      s'.chain = s.chain ++ [block] := by
  unfold pushBack at h
  split at h
  · cases h
  · rename_i hprev
    split at h
    · cases h
    · rename_i hheight
      cases h
      exact ⟨not_not.mp hprev, not_not.mp hheight, rfl⟩

end Storage

end OrbiterSdk
