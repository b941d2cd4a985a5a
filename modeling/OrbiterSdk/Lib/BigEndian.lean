import Mathlib

/-!
# Natural numbers as big-endian byte strings

Two encodings and their common decoder: `fixed k n` writes exactly `k` bytes (the residue
modulo `256 ^ k`), `minimal n` writes as many bytes as needed and none for `0`.  Both collect their bytes in front of an
accumulator; `fixed_succ` and `digits_succ` are the equations proofs use.
-/

namespace BigEndian

/-- The number a byte string denotes. -/
def decode (bs : List UInt8) : Nat := bs.foldl (fun acc b => acc * 256 + b.toNat) 0

/-- The last `k` bytes of `n` in front of `acc`. -/
def fixedOnto : Nat → Nat → List UInt8 → List UInt8
  | 0, _, acc => acc
  | k + 1, n, acc => fixedOnto k (n / 256) (UInt8.ofNat n :: acc)

/-- Exactly `k` bytes. -/
def fixed (k n : Nat) : List UInt8 := fixedOnto k n []

/-- The digits of `n`, at most `fuel` of them, in front of `acc`. -/
def digitsOnto : Nat → Nat → List UInt8 → List UInt8
  | 0, _, acc => acc
  | fuel + 1, n, acc => if n = 0 then acc else digitsOnto fuel (n / 256) (UInt8.ofNat n :: acc)

/-- The digits of `n`, at most `fuel` of them. -/
def digits (fuel n : Nat) : List UInt8 := digitsOnto fuel n []

/-- As many bytes as needed, none for `0`. -/
def minimal (n : Nat) : List UInt8 := digits n n

private theorem fixedOnto_eq (k n : Nat) (acc : List UInt8) :
    fixedOnto k n acc = fixed k n ++ acc := by
  induction k generalizing n acc with
  | zero => rfl
  | succ k ih =>
    show fixedOnto k (n / 256) _ = fixedOnto k (n / 256) _ ++ acc
    rw [ih, ih (n / 256) [UInt8.ofNat n], List.append_assoc]
    rfl

@[simp] theorem fixed_zero (n : Nat) : fixed 0 n = [] := rfl

theorem fixed_succ (k n : Nat) : fixed (k + 1) n = fixed k (n / 256) ++ [UInt8.ofNat n] :=
  fixedOnto_eq k (n / 256) [UInt8.ofNat n]

private theorem digitsOnto_eq (fuel n : Nat) (acc : List UInt8) :
    digitsOnto fuel n acc = digits fuel n ++ acc := by
  induction fuel generalizing n acc with
  | zero => rfl
  | succ fuel ih =>
    unfold digits digitsOnto
    split
    · rfl
    · rw [ih, ih (n / 256) [UInt8.ofNat n], List.append_assoc]
      rfl

@[simp] theorem digits_zero (n : Nat) : digits 0 n = [] := rfl

theorem digits_succ (fuel n : Nat) :
    digits (fuel + 1) n = if n = 0 then [] else digits fuel (n / 256) ++ [UInt8.ofNat n] := by
  rw [← digitsOnto_eq]
  rfl

theorem decode_append_singleton (bs : List UInt8) (b : UInt8) :
    decode (bs ++ [b]) = decode bs * 256 + b.toNat := by
  simp [decode, List.foldl_append]

theorem decode_append (as bs : List UInt8) :
    decode (as ++ bs) = decode as * 256 ^ bs.length + decode bs := by
  induction bs using List.reverseRecOn with
  | nil => simp [decode]
  | append_singleton bs b ih =>
    rw [← List.append_assoc, decode_append_singleton, decode_append_singleton, ih,
      List.length_append, List.length_singleton, pow_succ]
    ring

theorem decode_lt (bs : List UInt8) : decode bs < 256 ^ bs.length := by
  induction bs using List.reverseRecOn with
  | nil => simp [decode]
  | append_singleton bs b ih =>
    have hb : b.toNat < 256 := b.toNat_lt
    rw [decode_append_singleton, List.length_append, List.length_singleton, pow_succ]
    omega

@[simp] theorem length_fixed (k n : Nat) : (fixed k n).length = k := by
  induction k generalizing n with
  | zero => rfl
  | succ k ih => simp [fixed_succ, ih]

theorem decode_fixed (k n : Nat) : decode (fixed k n) = n % 256 ^ k := by
  induction k generalizing n with
  | zero => simp [decode, Nat.mod_one]
  | succ k ih =>
    have hlast : (UInt8.ofNat n).toNat = n % 256 := UInt8.toNat_ofNat'
    have hsplit : n % 256 ^ (k + 1) = n % 256 + 256 * (n / 256 % 256 ^ k) := by
      rw [pow_succ', Nat.mod_mul]
    rw [fixed_succ, decode_append_singleton, ih, hlast, hsplit]
    ring

theorem fixed_injective {k n m : Nat} (hn : n < 256 ^ k) (hm : m < 256 ^ k)
    (h : fixed k n = fixed k m) : n = m := by
  have := congrArg decode h
  rwa [decode_fixed, decode_fixed, Nat.mod_eq_of_lt hn, Nat.mod_eq_of_lt hm] at this

theorem fixed_decode (bs : List UInt8) : fixed bs.length (decode bs) = bs := by
  induction bs using List.reverseRecOn with
  | nil => rfl
  | append_singleton bs b ih =>
    have hb := b.toNat_lt
    have hdiv : (decode bs * 256 + b.toNat) / 256 = decode bs := by omega
    have hlast : UInt8.ofNat (decode bs * 256 + b.toNat) = b := by
      refine UInt8.toNat_inj.mp ?_
      rw [UInt8.toNat_ofNat']
      show (decode bs * 256 + b.toNat) % 256 = b.toNat
      omega
    rw [List.length_append, List.length_singleton, decode_append_singleton, fixed_succ, hdiv, ih,
      hlast]

theorem decode_digits (fuel n : Nat) (h : n ≤ fuel) : decode (digits fuel n) = n := by
  induction fuel generalizing n with
  | zero => simp [decode]; omega
  | succ fuel ih =>
    rw [digits_succ]
    split
    · simp [decode]; omega
    · rw [decode_append_singleton, ih _ (by omega), UInt8.toNat_ofNat']
      omega

@[simp] theorem decode_minimal (n : Nat) : decode (minimal n) = n := decode_digits n n le_rfl

theorem minimal_injective {n m : Nat} (h : minimal n = minimal m) : n = m := by
  rw [← decode_minimal n, h, decode_minimal]

theorem length_digits_le (fuel n k : Nat) (h : n < 256 ^ k) : (digits fuel n).length ≤ k := by
  induction fuel generalizing n k with
  | zero => simp
  | succ fuel ih =>
    rw [digits_succ]
    split
    · simp
    · cases k with
      | zero => simp at h; omega
      | succ k =>
        have : n / 256 < 256 ^ k := by
          rw [Nat.div_lt_iff_lt_mul (by norm_num), ← Nat.pow_succ]
          exact h
        have := ih _ _ this
        simp
        omega

theorem length_minimal_le {n k : Nat} (h : n < 256 ^ k) : (minimal n).length ≤ k :=
  length_digits_le n n k h

/-! ### The minimal encoding -/

/-- More fuel than needed changes nothing. -/
theorem digits_of_le (fuel n : Nat) (h : n ≤ fuel) : digits fuel n = minimal n := by
  induction fuel using Nat.strong_induction_on generalizing n with
  | _ fuel ih =>
    cases fuel with
    | zero =>
      obtain rfl : n = 0 := by omega
      rfl
    | succ fuel =>
      cases n with
      | zero => rfl
      | succ n =>
        rw [minimal, digits_succ, digits_succ, if_neg (Nat.succ_ne_zero n),
          if_neg (Nat.succ_ne_zero n), ih fuel (by omega) _ (by omega)]
        rcases Nat.lt_or_ge n fuel with hlt | hge
        · rw [ih n (by omega) _ (by omega)]
        · obtain rfl : n = fuel := by omega
          rw [ih n (by omega) _ (by omega)]

@[simp] theorem minimal_zero : minimal 0 = [] := rfl

theorem minimal_of_pos {n : Nat} (h : 0 < n) :
    minimal n = minimal (n / 256) ++ [UInt8.ofNat n] := by
  obtain ⟨m, rfl⟩ := Nat.exists_eq_add_of_lt h
  rw [Nat.zero_add, minimal, digits_succ, if_neg (Nat.succ_ne_zero m),
    digits_of_le m _ (by omega)]

theorem minimal_ne_nil {n : Nat} (h : 0 < n) : minimal n ≠ [] := by
  rw [minimal_of_pos h]
  exact List.append_ne_nil_of_right_ne_nil _ (List.cons_ne_nil _ _)

theorem minimal_of_lt {n : Nat} (h : 0 < n) (hlt : n < 256) : minimal n = [UInt8.ofNat n] := by
  rw [minimal_of_pos h, Nat.div_eq_of_lt hlt, minimal_zero, List.nil_append]

theorem lt_of_length_minimal {n k : Nat} (h : (minimal n).length ≤ k) : n < 256 ^ k := by
  calc n = decode (minimal n) := (decode_minimal n).symm
    _ < 256 ^ (minimal n).length := decode_lt _
    _ ≤ 256 ^ k := Nat.pow_le_pow_right (by omega) h

theorem length_minimal_le_iff {n k : Nat} : (minimal n).length ≤ k ↔ n < 256 ^ k :=
  ⟨lt_of_length_minimal, length_minimal_le⟩

theorem length_minimal_mono {n m : Nat} (h : n ≤ m) :
    (minimal n).length ≤ (minimal m).length :=
  length_minimal_le_iff.mpr (Nat.lt_of_le_of_lt h (lt_of_length_minimal le_rfl))

theorem head?_minimal_ne_zero (n : Nat) : (minimal n).head? ≠ some 0 := by
  induction n using Nat.strong_induction_on with
  | _ n ih =>
    rcases Nat.eq_zero_or_pos n with rfl | hpos
    · simp
    · rcases Nat.lt_or_ge n 256 with hlt | hge
      · rw [minimal_of_lt hpos hlt, List.head?_cons]
        intro h
        have hbyte := congrArg UInt8.toNat (Option.some.inj h)
        rw [UInt8.toNat_ofNat'] at hbyte
        have : n % 256 = 0 := hbyte
        omega
      · have hne : minimal (n / 256) ≠ [] := minimal_ne_nil (by omega)
        rw [minimal_of_pos hpos, List.head?_append_of_ne_nil _ hne]
        exact ih (n / 256) (by omega)

/-- A string without a leading zero is the minimal encoding of its number. -/
theorem minimal_decode {bs : List UInt8} (h : bs.head? ≠ some 0) : minimal (decode bs) = bs := by
  induction bs using List.reverseRecOn with
  | nil => rfl
  | append_singleton bs b ih =>
    have hb := b.toNat_lt
    rw [decode_append_singleton]
    rcases eq_or_ne bs [] with rfl | hne
    · have hpos : 0 < b.toNat := by
        rw [Nat.pos_iff_ne_zero]
        intro h0
        exact h (congrArg some (UInt8.toNat_inj.mp h0))
      show minimal (0 * 256 + b.toNat) = [b]
      rw [Nat.zero_mul, Nat.zero_add, minimal_of_lt hpos hb, UInt8.ofNat_toNat]
    · rw [List.head?_append_of_ne_nil _ hne] at h
      have hmin := ih h
      have hpos : 0 < decode bs := by
        rw [Nat.pos_iff_ne_zero]
        intro h0
        rw [h0] at hmin
        exact hne hmin.symm
      have hdiv : (decode bs * 256 + b.toNat) / 256 = decode bs := by omega
      have hlast : UInt8.ofNat (decode bs * 256 + b.toNat) = b := by
        refine UInt8.toNat_inj.mp ?_
        rw [UInt8.toNat_ofNat']
        show (decode bs * 256 + b.toNat) % 256 = b.toNat
        omega
      rw [minimal_of_pos (by omega), hdiv, hmin, hlast]

end BigEndian
