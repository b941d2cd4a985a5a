import OrbiterSdk.Utils.Bytes

namespace OrbiterSdk

/-!
# Hashing and the secp256k1 wrappers

`Crypto` collects what the code takes from libraries outside the repository: Keccak-256 and
the three secp256k1 primitives behind `utils/ecdsa.cpp`.  The wrappers themselves
(`recover`, `makeSig`, `verifySig`, `sign`, `toAddress`) are the repository's.
-/

/-- The cryptographic libraries the code links against. -/
structure Crypto where
  /-- `Utils::sha3`: Keccak-256. -/
  sha3 : Bytes → Hash
  /-- `secp256k1_ecdsa_recover` on a compact signature, serialized uncompressed. -/
  ecdsaRecover : Signature → Hash → Option UPubKey
  /-- `secp256k1_ec_pubkey_create`, serialized uncompressed. -/
  ecPubkeyCreate : PrivKey → Option UPubKey
  /-- `secp256k1_ecdsa_sign_recoverable` as compact `r`, `s` and recovery id. -/
  ecdsaSignRecoverable : Hash → PrivKey → Option Signature

/-- The recovery id byte of a signature. -/
def sigV (sig : Signature) : UInt8 := sig.data.getD 64 0

/-- The first half of a signature. -/
def sigR (sig : Signature) : Nat := BigEndian.decode (sig.data.take 32)

/-- The second half of a signature. -/
def sigS (sig : Signature) : Nat := BigEndian.decode ((sig.data.drop 32).take 32)

namespace Secp256k1

/-- The order of the curve. -/
def ecConst : Nat :=
  115792089237316195423570985008687907852837564279074904382605163141518161494337

variable (C : Crypto)

/-- `Secp256k1::recover`: the zero key when the signature has no key. -/
def recover (sig : Signature) (msg : Hash) : UPubKey :=
  if 3 < sigV sig then FixedStr.zero else (C.ecdsaRecover sig msg).getD FixedStr.zero

/-- `Secp256k1::makeSig`. -/
def makeSig (r s : Nat) (v : UInt8) : Signature :=
  ⟨BigEndian.fixed 32 r ++ BigEndian.fixed 32 s ++ [v], by simp⟩

/-- `Secp256k1::verifySig`. -/
def verifySig (r s : Nat) (v : UInt8) : Bool :=
  decide (v ≤ 1 ∧ 0 < r ∧ 0 < s ∧ r < ecConst ∧ s < ecConst)

/-- `Secp256k1::toUPub`. -/
def toUPub (key : PrivKey) : UPubKey := (C.ecPubkeyCreate key).getD FixedStr.zero

/-- `Secp256k1::toAddress`: the last twenty bytes of the hash of the key without its header. -/
def toAddress (key : UPubKey) : Address :=
  ⟨(C.sha3 ((key.data.drop 1).take 64)).data.drop 12, by simp [FixedStr.size_eq]⟩

/-- `Secp256k1::sign`: the library's signature with the smaller of the two `s`. -/
def sign (msg : Hash) (key : PrivKey) : Signature :=
  match C.ecdsaSignRecoverable msg key with
  | none => FixedStr.zero
  | some raw =>
    if ecConst / 2 < sigS raw then makeSig (sigR raw) (ecConst - sigS raw) (sigV raw ^^^ 1)
    else makeSig (sigR raw) (sigS raw) (sigV raw)

end Secp256k1

end OrbiterSdk
