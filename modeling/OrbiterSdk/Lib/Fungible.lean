import Mathlib
import OrbiterSdk.Lib.Ledger

/-!
# Fungible tokens

Balances and allowances of holders `k : K`, with the usual operations: a caller transfers,
approves, or moves what an owner allows; it may also put tokens in from outside (`mint`) or
take them out (`burn`).  An operation that cannot be performed has no result.

* `step_balance` — what an operation takes from a holder and gives to it;
* `step_supply` — only `mint` and `burn` change the supply;
* `exists_transfer` — with a supply below the bound a transfer only needs the tokens;
* `step_authorised` — nobody but the caller loses anything, except an owner who allowed it;
* `step_closed` — a holder who allows nothing and does not call loses nothing.
-/

/-- What each holder has, and what each owner allows each spender to move. -/
@[ext]
structure Fungible (K : Type) where
  balance : K → Nat
  allowance : K → K → Nat

namespace Fungible

/-- What a caller can ask for. -/
inductive Op (K : Type) where
  | transfer (receiver : K) (n : Nat)
  | approve (spender : K) (n : Nat)
  | transferFrom (owner receiver : K) (n : Nat)
  | mint (n : Nat)
  | burn (n : Nat)

/-- What an operation puts in from outside. -/
def Op.minted {K : Type} : Op K → Nat
  | .mint n => n
  | _ => 0

/-- What an operation takes out. -/
def Op.burned {K : Type} : Op K → Nat
  | .burn n => n
  | _ => 0

variable {K : Type} [DecidableEq K]

/-- Move `n` from `src` to `dst`: first the debit, then a credit that stays below `bound`. -/
def move (bound : Nat) (b : K → Nat) (src dst : K) (n : Nat) : Option (K → Nat) :=
  if n ≤ b src ∧ Ledger.debit b src n dst + n < bound then
    some (Ledger.credit (Ledger.debit b src n) dst n)
  else none

/-- Set one allowance. -/
def allow (t : Fungible K) (owner spender : K) (n : Nat) : Fungible K :=
  { t with allowance :=
      Function.update t.allowance owner (Function.update (t.allowance owner) spender n) }

/-- The token after an operation of `caller`. -/
def step (bound : Nat) (t : Fungible K) (caller : K) : Op K → Option (Fungible K)
  | .transfer receiver n =>
    (move bound t.balance caller receiver n).map fun balance => { t with balance }
  | .approve spender n => some (t.allow caller spender n)
  | .transferFrom owner receiver n =>
    if n ≤ t.allowance owner caller then
      (move bound t.balance owner receiver n).map fun balance =>
        { t.allow owner caller (t.allowance owner caller - n) with balance }
    else none
  | .mint n =>
    if t.balance caller + n < bound then
      some { t with balance := Ledger.credit t.balance caller n }
    else none
  | .burn n =>
    if n ≤ t.balance caller then some { t with balance := Ledger.debit t.balance caller n }
    else none

/-- What an operation takes from `k`. -/
def Op.outOf (caller k : K) : Op K → Nat
  | .transfer _ n => if caller = k then n else 0
  | .approve _ _ => 0
  | .transferFrom owner _ n => if owner = k then n else 0
  | .mint _ => 0
  | .burn n => if caller = k then n else 0

/-- What an operation gives to `k`. -/
def Op.into (caller k : K) : Op K → Nat
  | .transfer receiver n => if receiver = k then n else 0
  | .approve _ _ => 0
  | .transferFrom _ receiver n => if receiver = k then n else 0
  | .mint n => if caller = k then n else 0
  | .burn _ => 0

variable {bound : Nat} {t t' : Fungible K} {caller : K} {op : Op K}

theorem allow_apply (t : Fungible K) (owner spender o s : K) (n : Nat) :
    (t.allow owner spender n).allowance o s =
      if o = owner ∧ s = spender then n else t.allowance o s := by
  by_cases ho : o = owner
  · subst ho
    by_cases hs : s = spender <;> simp [allow, hs]
  · simp [allow, ho]

theorem move_balance {b b' : K → Nat} {src dst : K} {n : Nat}
    (h : move bound b src dst n = some b') (k : K) :
    b' k + (if src = k then n else 0) = b k + if dst = k then n else 0 := by
  unfold move at h
  split at h
  · rename_i hcond
    cases h
    have hdebit := Ledger.debit_add b src k n hcond.1
    have hcredit := Ledger.credit_eq (Ledger.debit b src n) dst k n
    omega
  · cases h

/-- **The balance of every holder** after an operation. -/
theorem step_balance (h : t.step bound caller op = some t') (k : K) :
    t'.balance k + op.outOf caller k = t.balance k + op.into caller k := by
  cases op with
  | transfer receiver n =>
    obtain ⟨b, hb, rfl⟩ := Option.map_eq_some_iff.mp h
    exact move_balance hb k
  | approve spender n => cases h; rfl
  | transferFrom owner receiver n =>
    simp only [step] at h
    split at h
    · obtain ⟨b, hb, rfl⟩ := Option.map_eq_some_iff.mp h
      exact move_balance hb k
    · cases h
  | mint n =>
    simp only [step] at h
    split at h
    · cases h; exact Ledger.credit_eq t.balance caller k n
    · cases h
  | burn n =>
    simp only [step] at h
    split at h
    · rename_i hn
      cases h
      exact Ledger.debit_add t.balance caller k n hn
    · cases h

/-- Only the owner's own approval and a use of the allowance change it. -/
theorem step_allowance (h : t.step bound caller op = some t') (owner spender : K) :
    t'.allowance owner spender = t.allowance owner spender ∨
      (∃ n, owner = caller ∧ op = .approve spender n) ∨
      ∃ receiver n, spender = caller ∧ op = .transferFrom owner receiver n ∧
        t'.allowance owner spender + n = t.allowance owner spender := by
  cases op with
  | transfer receiver n =>
    obtain ⟨b, -, rfl⟩ := Option.map_eq_some_iff.mp h
    exact Or.inl rfl
  | approve s n =>
    cases h
    rw [allow_apply]
    split
    · rename_i hos
      exact Or.inr (Or.inl ⟨n, hos.1, by rw [hos.2]⟩)
    · exact Or.inl rfl
  | transferFrom o receiver n =>
    simp only [step] at h
    split at h
    · rename_i hn
      obtain ⟨b, -, rfl⟩ := Option.map_eq_some_iff.mp h
      show (t.allow o caller _).allowance owner spender = _ ∨ _ ∨ ∃ _ _, _ ∧ _ ∧
        (t.allow o caller _).allowance owner spender + _ = _
      rw [allow_apply]
      split
      · rename_i hos
        obtain ⟨rfl, rfl⟩ := hos
        exact Or.inr (Or.inr ⟨receiver, n, rfl, rfl, by omega⟩)
      · exact Or.inl rfl
    · cases h
  | mint n =>
    simp only [step] at h
    split at h
    · cases h; exact Or.inl rfl
    · cases h
  | burn n =>
    simp only [step] at h
    split at h
    · cases h; exact Or.inl rfl
    · cases h

/-- **Authorisation.**  A holder other than the caller loses `d > 0` only by a `transferFrom`
    that uses up `d` of its allowance for the caller. -/
theorem step_authorised (h : t.step bound caller op = some t') {k : K} (hk : k ≠ caller) {d : Nat}
    (hd : 0 < d) (hloss : t'.balance k + d = t.balance k) :
    ∃ receiver, op = .transferFrom k receiver d ∧
      t'.allowance k caller + d = t.allowance k caller := by
  have hbal := step_balance h k
  have hne : ¬ caller = k := fun he => hk he.symm
  cases op with
  | transfer receiver n => simp only [Op.outOf, Op.into, if_neg hne] at hbal; split at hbal <;> omega
  | approve spender n => simp only [Op.outOf, Op.into] at hbal; omega
  | mint n => simp only [Op.outOf, Op.into, if_neg hne] at hbal; omega
  | burn n => simp only [Op.outOf, Op.into, if_neg hne] at hbal; omega
  | transferFrom owner receiver n =>
    simp only [Op.outOf, Op.into] at hbal
    -- The owner is the one who loses, and nothing of it comes back.
    have howner : owner = k := by
      by_contra ho
      rw [if_neg ho] at hbal
      split at hbal <;> omega
    subst howner
    have hn : n = d := by
      rw [if_pos rfl] at hbal
      split at hbal <;> omega
    subst hn
    simp only [step] at h
    split at h
    · rename_i hle
      obtain ⟨b, -, rfl⟩ := Option.map_eq_some_iff.mp h
      refine ⟨receiver, rfl, ?_⟩
      show (t.allow owner caller _).allowance owner caller + n = _
      rw [allow_apply, if_pos ⟨rfl, rfl⟩]
      omega
    · cases h

/-- **Closed holders.**  A holder that allows nothing and is not the caller still allows
    nothing afterwards, and lost nothing. -/
theorem step_closed (h : t.step bound caller op = some t') {k : K} (hk : k ≠ caller)
    (hclosed : ∀ s, t.allowance k s = 0) :
    (∀ s, t'.allowance k s = 0) ∧ t.balance k ≤ t'.balance k := by
  constructor
  · intro s
    rcases step_allowance h k s with he | ⟨n, he, -⟩ | ⟨receiver, n, -, -, he⟩
    · rw [he, hclosed]
    · exact absurd he hk
    · have := hclosed s
      omega
  · by_contra hlt
    obtain ⟨receiver, -, hallow⟩ := step_authorised h hk
      (d := t.balance k - t'.balance k) (by omega) (by omega)
    have := hclosed caller
    omega

section Supply

variable [Fintype K]

/-- All balances together. -/
def supply (t : Fungible K) : Nat := ∑ k, t.balance k

private theorem sum_at (k : K) (n : Nat) : ∑ k', (if k = k' then n else 0) = n := by
  simp

/-- **The supply** changes by what is put in and taken out. -/
theorem step_supply (h : t.step bound caller op = some t') :
    t'.supply + op.burned = t.supply + op.minted := by
  have hsum : t'.supply + ∑ k, op.outOf caller k = t.supply + ∑ k, op.into caller k := by
    unfold supply
    rw [← Finset.sum_add_distrib, ← Finset.sum_add_distrib]
    exact Finset.sum_congr rfl fun k _ => step_balance h k
  cases op with
  | transfer receiver n => simpa only [Op.outOf, Op.into, sum_at, Op.burned, Op.minted,
      Nat.add_right_cancel_iff] using hsum
  | approve spender n => simpa [Op.outOf, Op.into, Op.burned, Op.minted] using hsum
  | transferFrom owner receiver n => simpa only [Op.outOf, Op.into, sum_at, Op.burned, Op.minted,
      Nat.add_right_cancel_iff] using hsum
  | mint n => simpa [Op.outOf, Op.into, sum_at, Op.burned, Op.minted] using hsum
  | burn n => simpa [Op.outOf, Op.into, sum_at, Op.burned, Op.minted] using hsum

theorem balance_add_le_supply (t : Fungible K) {a b : K} (h : a ≠ b) :
    t.balance a + t.balance b ≤ t.supply := by
  rw [← Finset.sum_pair h]
  exact Finset.sum_le_univ_sum_of_nonneg fun _ => Nat.zero_le _

/-- While the supply is below the bound, whoever has the tokens can transfer them: the
    receiver's balance cannot overflow. -/
theorem exists_transfer {receiver : K} {n : Nat} (hne : receiver ≠ caller)
    (hn : n ≤ t.balance caller) (hsupply : t.supply < bound) :
    ∃ t', t.step bound caller (.transfer receiver n) = some t' := by
  have hpair := t.balance_add_le_supply hne
  have hdebit : Ledger.debit t.balance caller n receiver = t.balance receiver :=
    Function.update_of_ne hne _ _
  have hcond : n ≤ t.balance caller ∧ Ledger.debit t.balance caller n receiver + n < bound := by
    rw [hdebit]
    omega
  refine ⟨{ t with balance := Ledger.credit (Ledger.debit t.balance caller n) receiver n }, ?_⟩
  rw [step, move, if_pos hcond]
  rfl

end Supply

end Fungible
