import OrbiterSdk.Utils.Tx

namespace OrbiterSdk

/-!
# Reads outside the input

When a decoder ends in `Fail.oob`, step by step: a computation reads outside if its first part
does, or if its first part returns and the rest does.

* `bind_eq_oob`, `map_eq_oob`, `guard_eq_oob` — composition; an exception ends everything;
* `byteAt_eq_oob`, `viewAt_eq_oob`, `convAt_eq_oob` — the reads themselves.
-/

variable {α β : Type} {bs : Bytes} {i : Nat}

theorem bind_eq_oob {r : Except Fail α} {k : α → Except Fail β} :
    (r >>= k) = .error .oob ↔ r = .error .oob ∨ ∃ a, r = .ok a ∧ k a = .error .oob := by
  cases r with
  | error e => simp [bind, Except.bind]
  | ok a => simp [bind, Except.bind]

theorem map_eq_oob {r : Except Fail α} {g : α → β} :
    r.map g = .error .oob ↔ r = .error .oob := by
  cases r <;> simp [Except.map]

/-- A check throws before anything behind it is read. -/
theorem guard_eq_oob {p : Prop} [Decidable p] {what : String} {k : Unit → Except Fail α} :
    (if p then raise what >>= k else k ()) = .error .oob ↔ ¬ p ∧ k () = .error .oob := by
  by_cases hp : p
  · rw [if_pos hp]
    exact ⟨fun h => (by cases h), fun h => absurd hp h.1⟩
  · rw [if_neg hp]
    exact ⟨fun h => ⟨hp, h⟩, fun h => h.2⟩

theorem liftExn_ne_oob {x : Except Exn α} : liftExn x ≠ .error .oob := by
  cases x <;> simp [liftExn]

theorem byteAt_eq_ok {b : UInt8} : byteAt bs i = .ok b ↔ bs[i]? = some b := by
  unfold byteAt
  cases bs[i]? <;> simp

theorem byteAt_eq_oob : byteAt bs i = .error .oob ↔ bs.length ≤ i := by
  rw [← List.getElem?_eq_none_iff]
  unfold byteAt
  cases bs[i]? <;> simp

theorem byteAt_bind_eq_oob {k : UInt8 → Except Fail α} :
    (byteAt bs i >>= k) = .error .oob ↔
      bs.length ≤ i ∨ ∃ b, bs[i]? = some b ∧ k b = .error .oob := by
  simp only [bind_eq_oob, byteAt_eq_oob, byteAt_eq_ok]

theorem viewAt_eq_oob {len : Nat} : viewAt bs i len = .error .oob ↔ bs.length < i + len := by
  unfold viewAt
  split
  · next h => simp; omega
  · next h => simp; omega

/-- `substr` cuts off what is not there, as long as it starts inside. -/
theorem substr_eq_ok {len : Nat} {v : Bytes} :
    substr bs i len = .ok v ↔ i ≤ bs.length ∧ v = (bs.drop i).take len := by
  unfold substr
  split
  · next h => simp; omega
  · next h => simp [not_lt.mp h, eq_comm]

/-- A conversion reads outside if it does not throw before. -/
theorem convAt_eq_oob {conv : Bytes → Except Exn α} {len : Nat} :
    convAt conv bs i len = .error .oob ↔
      bs.length < i + len ∧ ∃ x, conv ((bs.drop i).take len) = .ok x := by
  unfold convAt
  cases conv ((bs.drop i).take len) with
  | error e => simp
  | ok x =>
    simp only [Except.ok.injEq, exists_eq', and_true]
    split
    · next h => simp; omega
    · next h => simp; omega

end OrbiterSdk
