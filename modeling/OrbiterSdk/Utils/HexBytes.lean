import OrbiterSdk.Utils.Hex

namespace OrbiterSdk

/-!
# Between digits and bytes

The loops of `utils/hex.cpp`, character by character, and what the constructors of `Hex` make
of a string of digits.

* `Hex.buffer` — the string `fromBytes` fills; it is `rawHex` (`buffer_eq_rawHex`);
* `Hex.bytes` — the member function, with its 32-bit index;
* `Hex.fromUint` — an unsigned integer as a stream writes it.

`bytes()` comes back exactly when its string is shorter than `2 ^ 32` (`returns_iff`): from
there on the index wraps before it reaches the end.  The round trip of `fromBytes` holds up to
that size (`roundTrip_iff`).  A strict `Hex` is not made of digits that start with `0`, which
the constructor takes for a prefix (`normalises_iff`).
-/

namespace Hex

/-! ### The buffer of `fromBytes` -/

/-- `hex.replace(0, 2, "0x")`: a shorter string grows. -/
def replaceFront (hex : List Char) : List Char := '0' :: 'x' :: hex.drop 2

/-- The loop of `fromBytes`: two digits per byte from `off` on.  The shift of a negative
    `char` keeps its sign, the mask drops it again. -/
def fillDigits : Bytes → Nat → List Char → List Char
  | [], _, hex => hex
  | b :: bytes, off, hex =>
    let hex := hex.set off (charAt digits (b.toNat / 16 % 16))
    let hex := hex.set (off + 1) (charAt digits (b.toNat % 16))
    fillDigits bytes (off + 2) hex

/-- The string that `fromBytes` gives to the constructor. -/
def buffer (bytes : Bytes) (strict : Bool) : List Char :=
  let off := if strict then 2 else 0
  fillDigits bytes off (replaceFront (List.replicate (bytes.length * 2 + off) '0'))

theorem charAt_digits : ∀ d : Fin 16, charAt digits d = Nat.digitChar d := by decide

/-- The loop overwrites what stands from `off` on, two characters per byte. -/
theorem fillDigits_append (bytes : Bytes) (front mid : List Char)
    (hmid : mid.length = 2 * bytes.length) :
    fillDigits bytes front.length (front ++ mid) = front ++ pairs bytes := by
  induction bytes generalizing front mid with
  | nil =>
    rw [List.length_eq_zero_iff.mp hmid]
    rfl
  | cons b bytes ih =>
    obtain ⟨c, d, mid, rfl⟩ : ∃ c d mid', mid = c :: d :: mid' := by
      match mid, hmid with
      | c :: d :: mid', _ => exact ⟨c, d, mid', rfl⟩
    have hhigh : charAt digits (b.toNat / 16 % 16) = Nat.digitChar (b.toNat / 16) := by
      rw [Nat.mod_eq_of_lt (high_lt b)]
      exact charAt_digits ⟨_, high_lt b⟩
    have hlow : charAt digits (b.toNat % 16) = Nat.digitChar (b.toNat % 16) :=
      charAt_digits ⟨_, low_lt b⟩
    have hstep : ((front ++ c :: d :: mid).set front.length (Nat.digitChar (b.toNat / 16))).set
        (front.length + 1) (Nat.digitChar (b.toNat % 16)) =
        (front ++ [Nat.digitChar (b.toNat / 16), Nat.digitChar (b.toNat % 16)]) ++ mid := by
      simp [List.set_append_right]
    have hlen : front.length + 2 =
        (front ++ [Nat.digitChar (b.toNat / 16), Nat.digitChar (b.toNat % 16)]).length := by simp
    simp only [List.length_cons] at hmid
    rw [fillDigits, hhigh, hlow, hstep, hlen, ih _ mid (by omega), pairs_cons, List.append_assoc]
    rfl

/-- **The buffer of `fromBytes`**: the prefix it starts with stays when it is asked for, or
    when there is no byte to overwrite it. -/
theorem buffer_eq_rawHex (bytes : Bytes) (strict : Bool) :
    buffer bytes strict = rawHex bytes strict := by
  cases strict with
  | true =>
    have hfill := fillDigits_append bytes ['0', 'x'] (List.replicate (bytes.length * 2) '0')
      (by rw [List.length_replicate]; omega)
    exact hfill
  | false =>
    cases bytes with
    | nil => rfl
    | cons b bytes =>
      -- the first byte's digits go over the prefix
      have hfront : replaceFront (List.replicate ((b :: bytes).length * 2 + 0) '0') =
          '0' :: 'x' :: List.replicate (bytes.length * 2) '0' := by
        rw [List.length_cons, Nat.add_mul, replaceFront, List.drop_replicate]
        simp
      have hfill := fillDigits_append (b :: bytes) []
        ('0' :: 'x' :: List.replicate (bytes.length * 2) '0')
        (by simp only [List.length_cons, List.length_replicate]; omega)
      rw [buffer, if_neg Bool.false_ne_true, hfront, rawHex, if_neg Bool.false_ne_true,
        if_neg (List.cons_ne_nil b bytes)]
      exact hfill

/-! ### `bytes()` -/

/-- The loop of `bytes()`, with a `uint32_t` as index; `none` when the fuel runs out. -/
def bytesLoop (hex : List Char) : Nat → UInt32 → Option Bytes
  | 0, _ => none
  | fuel + 1, i =>
    if i.toNat < hex.length then
      let h := toInt (charAt hex i.toNat)
      let l := toInt (charAt hex (i + 1).toNat)
      (bytesLoop hex fuel (i + 2)).map (toByte (h * 16 + l) :: ·)
    else some []

/-- `Hex::bytes`. -/
def bytes (h : Hex) (fuel : Nat) : Option Bytes :=
  let i : UInt32 := if h.strict then 2 else 0
  if h.hex.length % 2 = 1 then
    (bytesLoop h.hex fuel (i + 1)).map (toByte (toInt (charAt h.hex i.toNat)) :: ·)
  else bytesLoop h.hex fuel i

/-- `bytes()` comes back with `b`. -/
def Returns (h : Hex) (b : Bytes) : Prop := ∃ fuel, h.bytes fuel = some b

/-- From `2 ^ 32` characters on the index never reaches the end. -/
theorem bytesLoop_eq_none {hex : List Char} (h : 2 ^ 32 ≤ hex.length) (fuel : Nat) (i : UInt32) :
    bytesLoop hex fuel i = none := by
  induction fuel generalizing i with
  | zero => rfl
  | succ fuel ih =>
    have hi := i.toNat_lt
    rw [bytesLoop, if_pos (by omega)]
    simp only [ih, Option.map_none]

/-- Below that the loop reads what is left in pairs. -/
theorem bytesLoop_eq {hex : List Char} (h : hex.length < 2 ^ 32) (fuel : Nat) {i : UInt32}
    (heven : (hex.length - i.toNat) % 2 = 0) :
    bytesLoop hex fuel i =
      if hex.length - i.toNat < 2 * fuel then some (bytePairs (hex.drop i.toNat)) else none := by
  induction fuel generalizing i with
  | zero => rfl
  | succ fuel ih =>
    rw [bytesLoop]
    by_cases hi : i.toNat < hex.length
    · -- two characters are left, and the index goes over them without wrapping
      have hone : (i + 1).toNat = i.toNat + 1 := by
        rw [UInt32.toNat_add, UInt32.toNat_one]
        omega
      have htwo : (i + 2).toNat = i.toNat + 2 := by
        rw [UInt32.toNat_add, show (2 : UInt32).toNat = 2 from rfl]
        omega
      have hnext : i.toNat + 1 < hex.length := by omega
      have hdrop : hex.drop i.toNat =
          hex[i.toNat] :: hex[i.toNat + 1] :: hex.drop (i.toNat + 2) := by
        rw [List.drop_eq_getElem_cons hi, List.drop_eq_getElem_cons hnext]
      have hfirst : charAt hex i.toNat = hex[i.toNat] := List.getD_eq_getElem _ _ hi
      have hsecond : charAt hex (i.toNat + 1) = hex[i.toNat + 1] := List.getD_eq_getElem _ _ hnext
      have hfuel : hex.length - (i.toNat + 2) < 2 * fuel ↔
          hex.length - i.toNat < 2 * (fuel + 1) := by omega
      rw [if_pos hi, ih (by omega), hone, htwo, hfirst, hsecond, hdrop]
      simp only [hfuel, apply_ite (Option.map _), Option.map_some, Option.map_none, bytePairs]
    · rw [if_neg hi, if_pos (by omega), List.drop_eq_nil_of_le (by omega)]
      rfl

/-- The digits behind the prefix of a strict `Hex`. -/
def body (h : Hex) : List Char := if h.strict then h.hex.drop 2 else h.hex

theorem two_le_of_strict (h : Hex) (hs : h.strict = true) : 2 ≤ h.hex.length := by
  have hvalid := h.valid
  rw [isValid, if_pos hs, Bool.and_eq_true, Bool.or_eq_true, beq_iff_eq, beq_iff_eq] at hvalid
  have hlen : (h.hex.take 2).length = 2 := by
    rcases hvalid.1 with htake | htake
    · rw [htake]; rfl
    · rw [htake]; rfl
  rw [List.length_take] at hlen
  omega

/-- Below `2 ^ 32` characters and with enough fuel `bytes()` comes back with what its digits
    stand for. -/
theorem bytes_eq {h : Hex} (hlen : h.hex.length < 2 ^ 32) :
    ∃ n, ∀ fuel, h.bytes fuel = if n < 2 * fuel then some (digitBytes h.body) else none := by
  -- the offset is even and the string is at least as long
  obtain ⟨i, hi, hle, heven, hbody⟩ : ∃ i : UInt32, i = (if h.strict then 2 else 0) ∧
      i.toNat ≤ h.hex.length ∧ i.toNat % 2 = 0 ∧ h.body = h.hex.drop i.toNat := by
    cases hs : h.strict with
    | true => exact ⟨2, rfl, two_le_of_strict h hs, rfl, by rw [body, hs]; rfl⟩
    | false => exact ⟨0, rfl, Nat.zero_le _, rfl, by rw [body, hs]; rfl⟩
  have hdropLen : (h.hex.drop i.toNat).length % 2 = h.hex.length % 2 := by
    rw [List.length_drop]
    omega
  simp only [bytes, ← hi, digitBytes, hbody, hdropLen]
  split
  · -- one digit stands alone in front
    have hone : (i + 1).toNat = i.toNat + 1 := by
      rw [UInt32.toNat_add, UInt32.toNat_one]
      omega
    have hlt : i.toNat < h.hex.length := by omega
    have hfirst : charAt h.hex i.toNat = h.hex[i.toNat] := List.getD_eq_getElem _ _ hlt
    refine ⟨h.hex.length - (i.toNat + 1), fun fuel => ?_⟩
    rw [bytesLoop_eq hlen fuel (by omega), hone, hfirst, List.drop_eq_getElem_cons hlt]
    simp only [apply_ite (Option.map _), Option.map_some, Option.map_none]
    rfl
  · exact ⟨h.hex.length - i.toNat, fun fuel => bytesLoop_eq hlen fuel (by omega)⟩

/-- **When `bytes()` comes back**: below `2 ^ 32` characters, with what the digits stand for. -/
theorem returns_iff {h : Hex} {b : Bytes} :
    h.Returns b ↔ h.hex.length < 2 ^ 32 ∧ b = digitBytes h.body := by
  by_cases hlen : h.hex.length < 2 ^ 32
  · obtain ⟨n, hbytes⟩ := bytes_eq hlen
    simp only [Returns, hbytes, hlen, true_and]
    constructor
    · rintro ⟨fuel, hfuel⟩
      split at hfuel
      · exact (Option.some.inj hfuel).symm
      · cases hfuel
    · rintro rfl
      exact ⟨n + 1, if_pos (by omega)⟩
  · have hloop := bytesLoop_eq_none (Nat.le_of_not_lt hlen)
    simp only [Returns, bytes, hloop, Option.map_none, ite_self, hlen, false_and, reduceCtorEq,
      exists_const]

/-! ### The round trip of `fromBytes` -/

/-- What the constructor accepts, it keeps as `adjust` leaves it. -/
theorem ofString_eq_ok_iff {v : List Char} {strict : Bool} {h : Hex} :
    ofString v strict = .ok h ↔ h.hex = adjust v strict ∧ h.strict = strict := by
  unfold ofString
  constructor
  · intro hok
    split at hok
    · cases hok
      exact ⟨rfl, rfl⟩
    · cases hok
  · obtain ⟨hex, strict', hvalid⟩ := h
    rintro ⟨hhex, hstrict⟩
    dsimp only at hhex hstrict
    subst hstrict hhex
    exact dif_pos hvalid

theorem hex_fromBytes (b : Bytes) (strict : Bool) :
    (fromBytes b strict).hex = if strict then '0' :: 'x' :: pairs b else pairs b :=
  adjust_rawHex b strict

theorem body_fromBytes (b : Bytes) (strict : Bool) : (fromBytes b strict).body = pairs b := by
  rw [body, hex_fromBytes]
  cases strict with
  | true => rfl
  | false => rfl

theorem length_fromBytes (b : Bytes) (strict : Bool) :
    (fromBytes b strict).hex.length = 2 * b.length + if strict then 2 else 0 := by
  rw [hex_fromBytes]
  cases strict with
  | true => simp [length_pairs]
  | false => simp [length_pairs]

theorem toBytes_fromBytes (b : Bytes) (strict : Bool) :
    toBytes (fromBytes b strict).get = .ok b := by
  rw [get, hex_fromBytes, toBytes_digits (mem_filter_of_mem_pairs b), digitBytes_pairs]

theorem zeroX_fromBytes_iff (b : Bytes) (strict : Bool) :
    ['0', 'x'] <+: (fromBytes b strict).get.toList ↔ strict = true := by
  rw [get, String.toList_ofList, hex_fromBytes]
  cases strict with
  | true => exact ⟨fun _ => rfl, fun _ => ⟨pairs b, rfl⟩⟩
  | false =>
    -- no digit is an `x`
    refine ⟨fun hpre => ?_, fun hs => absurd hs Bool.false_ne_true⟩
    have hx : 'x' ∈ pairs b := hpre.subset (by simp)
    exact absurd rfl (ne_x_of_mem_filter (mem_filter_of_mem_pairs b _ hx)).1

/-- `bytes()` gives back the bytes, or nothing at all. -/
theorem returns_fromBytes_iff {b c : Bytes} {strict : Bool} :
    (fromBytes b strict).Returns c ↔ 2 * b.length + (if strict then 2 else 0) < 2 ^ 32 ∧ c = b := by
  rw [returns_iff, length_fromBytes, body_fromBytes, digitBytes_pairs]

/-- `fromBytes(b, strict)` does not throw, has the prefix exactly when it is strict, and both
    converters give back `b`. -/
def RoundTrip (b : Bytes) (strict : Bool) : Prop :=
  ∃ h : Hex, ofString (buffer b strict) strict = .ok h ∧
    (['0', 'x'] <+: h.get.toList ↔ strict = true) ∧ toBytes h.get = .ok b ∧ h.Returns b

/-- **Bytes to digits and back**: everything is as it should be as long as the digits, with the
    prefix, are fewer than `2 ^ 32`. -/
theorem roundTrip_iff (b : Bytes) (strict : Bool) :
    RoundTrip b strict ↔ 2 * b.length + (if strict then 2 else 0) < 2 ^ 32 := by
  have hok : ofString (buffer b strict) strict = .ok (fromBytes b strict) := by
    rw [buffer_eq_rawHex, ofString_rawHex]
  constructor
  · rintro ⟨h, hh, -, -, hreturns⟩
    rw [hok] at hh
    cases hh
    exact (returns_fromBytes_iff.mp hreturns).1
  · intro hlen
    exact ⟨fromBytes b strict, hok, zeroX_fromBytes_iff b strict, toBytes_fromBytes b strict,
      returns_fromBytes_iff.mpr ⟨hlen, rfl⟩⟩

/-- `2 ^ 31` bytes make `2 ^ 32` digits, and `bytes()` does not come back. -/
theorem bytes_two_pow_31 :
    ofString (buffer (List.replicate (2 ^ 31) 0) false) false =
        .ok (fromBytes (List.replicate (2 ^ 31) 0) false) ∧
      (∀ fuel, (fromBytes (List.replicate (2 ^ 31) 0) false).bytes fuel = none) ∧
      ¬ RoundTrip (List.replicate (2 ^ 31) 0) false := by
  have hok : ofString (buffer (List.replicate (2 ^ 31) 0) false) false =
      .ok (fromBytes (List.replicate (2 ^ 31) 0) false) := by
    rw [buffer_eq_rawHex, ofString_rawHex]
  have hnone : ∀ c, ¬ (fromBytes (List.replicate (2 ^ 31) 0) false).Returns c := by
    intro c hc
    have hlen := (returns_fromBytes_iff.mp hc).1
    rw [List.length_replicate] at hlen
    exact absurd hlen (by decide)
  refine ⟨hok, fun fuel => ?_, ?_⟩
  · cases hbytes : (fromBytes (List.replicate (2 ^ 31) 0) false).bytes fuel with
    | none => rfl
    | some c => exact absurd ⟨fuel, hbytes⟩ (hnone c)
  · rintro ⟨h, hh, -, -, hreturns⟩
    rw [hok] at hh
    cases hh
    exact hnone _ hreturns

/-! ### The constructors on digits -/

section

variable {s given : List Char}

/-- The string with its prefix as `strict` asks for. -/
def spelled (s : List Char) (strict : Bool) : List Char := if strict then '0' :: 'x' :: s else s

theorem adjust_zeroX (strict : Bool) : adjust ('0' :: 'x' :: s) strict = spelled s strict := by
  cases strict with
  | true => rfl
  | false => rfl

theorem adjust_digits_false (hs : ∀ c ∈ s, c ∈ filter) : adjust s false = spelled s false := by
  have hx := charAt_ne_x hs 1
  rw [adjust, if_neg Bool.false_ne_true, if_neg fun h => h.2.elim hx.1 hx.2]
  rfl

/-- A prefix is put in front of digits unless the first of them looks like one. -/
theorem adjust_digits_true (s : List Char) :
    adjust s true = if charAt s 0 = '0' then s else '0' :: 'x' :: s := by
  have hor : charAt s 1 ≠ 'x' ∨ charAt s 1 ≠ 'X' := by
    by_cases h : charAt s 1 = 'x'
    · exact .inr (by rw [h]; decide)
    · exact .inl h
  rw [adjust, if_pos rfl]
  by_cases h : charAt s 0 = '0'
  · rw [if_pos h, if_neg fun hn => hn.1 h]
  · rw [if_neg h, if_pos ⟨h, hor⟩]

/-- Digits that start with `0` are refused by a strict constructor. -/
theorem ofString_leading_zero (hs : ∀ c ∈ s, c ∈ filter) (h0 : charAt s 0 = '0') (h : Hex) :
    ofString s true ≠ .ok h := by
  intro hok
  obtain ⟨hhex, hstrict⟩ := ofString_eq_ok_iff.mp hok
  rw [adjust_digits_true, if_pos h0] at hhex
  have hvalid := h.valid
  rw [hhex, hstrict, isValid, if_pos rfl, Bool.and_eq_true, Bool.or_eq_true, beq_iff_eq,
    beq_iff_eq] at hvalid
  -- neither `x` nor `X` is a digit
  rcases hvalid.1 with htake | htake
  · have hx : 'x' ∈ s := List.mem_of_mem_take (htake ▸ by simp : 'x' ∈ s.take 2)
    exact (ne_x_of_mem_filter (hs _ hx)).1 rfl
  · have hx : 'X' ∈ s := List.mem_of_mem_take (htake ▸ by simp : 'X' ∈ s.take 2)
    exact (ne_x_of_mem_filter (hs _ hx)).2 rfl

theorem ofString_of_adjust {strict : Bool} (hs : ∀ c ∈ s, c ∈ filter)
    (hadj : adjust given strict = spelled s strict) :
    ∃ h : Hex, ofString given strict = .ok h ∧ h.hex = spelled s strict ∧ h.body = s := by
  have hvalid : isValid (spelled s strict) strict = true := isValid_digits hs strict
  refine ⟨⟨spelled s strict, strict, hvalid⟩, ofString_eq_ok_iff.mpr ⟨hadj.symm, rfl⟩, rfl, ?_⟩
  cases strict with
  | true => rfl
  | false => rfl

/-- **Which digits a constructor accepts.** -/
theorem ofString_digits_iff (hs : ∀ c ∈ s, c ∈ filter) (strict : Bool) :
    (∃ h, ofString s strict = .ok h) ↔ (strict = true → charAt s 0 ≠ '0') := by
  cases strict with
  | true =>
    constructor
    · rintro ⟨h, hok⟩ - h0
      exact ofString_leading_zero hs h0 h hok
    · intro h0
      have hadj : adjust s true = spelled s true := by
        rw [adjust_digits_true, if_neg (h0 rfl)]
        rfl
      obtain ⟨h, hok, -⟩ := ofString_of_adjust hs hadj
      exact ⟨h, hok⟩
  | false =>
    obtain ⟨h, hok, -⟩ := ofString_of_adjust hs (adjust_digits_false hs)
    exact ⟨fun _ hs => absurd hs Bool.false_ne_true, fun _ => ⟨h, hok⟩⟩

/-- The constructor takes `given`, leaves the digits `s` with the right prefix, and `bytes()`
    is what `toBytes` makes of the digits. -/
def Normalises (given : List Char) (strict : Bool) (s : List Char) : Prop :=
  ∃ (h : Hex) (b : Bytes), ofString given strict = .ok h ∧
    h.get = String.ofList (spelled s strict) ∧ toBytes (String.ofList s) = .ok b ∧ h.Returns b

theorem normalises_of_adjust {strict : Bool} (hs : ∀ c ∈ s, c ∈ filter)
    (hadj : adjust given strict = spelled s strict) :
    Normalises given strict s ↔ (spelled s strict).length < 2 ^ 32 := by
  obtain ⟨h, hok, hhex, hbody⟩ := ofString_of_adjust hs hadj
  have htoBytes : toBytes (String.ofList s) = .ok (digitBytes s) := toBytes_digits hs false
  constructor
  · rintro ⟨h', b, hok', -, -, hreturns⟩
    rw [hok] at hok'
    cases hok'
    rw [← hhex]
    exact (returns_iff.mp hreturns).1
  · intro hlen
    refine ⟨h, digitBytes s, hok, by rw [get, hhex], htoBytes, returns_iff.mpr ⟨?_, ?_⟩⟩
    · rw [hhex]
      exact hlen
    · rw [hbody]

end

/-! ### `fromUint` -/

/-- An argument of `fromUint`.  A `uint8_t` is a character to a stream. -/
inductive UintArg where
  | byte (b : UInt8)
  | wide (n : Nat)

/-- `ss << std::hex << value`. -/
def UintArg.text : UintArg → List Char
  | .byte b => [Char.ofNat b.toNat]
  | .wide n => Nat.toDigits 16 n

/-- `Hex::fromUint`. -/
def fromUint (value : UintArg) (strict : Bool) : Except Exn Hex := ofString value.text strict

theorem mem_digits_of_mem_toDigits {n : Nat} {c : Char} (h : c ∈ Nat.toDigits 16 n) :
    c ∈ digits := by
  induction n using Nat.strongRecOn with
  | ind n ih =>
    by_cases hn : n < 16
    · rw [Nat.toDigits_of_lt_base hn, List.mem_singleton] at h
      rw [h]
      exact digitChar_mem_digits hn
    · rw [Nat.toDigits_of_base_le (by decide) (by omega), List.mem_append, List.mem_singleton] at h
      rcases h with h | rfl
      · exact ih (n / 16) (by omega) h
      · exact digitChar_mem_digits (Nat.mod_lt _ (by decide))

/-- Only zero is written with a leading zero. -/
theorem charAt_toDigits_eq_zero_iff (n : Nat) : charAt (Nat.toDigits 16 n) 0 = '0' ↔ n = 0 := by
  induction n using Nat.strongRecOn with
  | ind n ih =>
    by_cases hn : n < 16
    · rw [Nat.toDigits_of_lt_base hn]
      exact digitChar_eq_zero_iff hn
    · have hpos : 0 < (Nat.toDigits 16 (n / 16)).length := Nat.length_toDigits_pos
      rw [Nat.toDigits_of_base_le (by decide) (by omega), charAt, List.getD_append _ _ _ _ hpos]
      have hhead := ih (n / 16) (by omega)
      rw [charAt] at hhead
      rw [hhead]
      omega

theorem fromUint_wide_iff (n : Nat) (strict : Bool) :
    (∃ h, fromUint (.wide n) strict = .ok h) ↔ (strict = true → n ≠ 0) := by
  have hs : ∀ c ∈ Nat.toDigits 16 n, c ∈ filter := fun c hc =>
    mem_filter_of_mem_digits (mem_digits_of_mem_toDigits hc)
  have haccept : (∃ h, fromUint (.wide n) strict = .ok h) ↔
      (strict = true → charAt (Nat.toDigits 16 n) 0 ≠ '0') := ofString_digits_iff hs strict
  rw [haccept, Ne, charAt_toDigits_eq_zero_iff]

theorem mem_filter_of_ofString {c : Char} {strict : Bool} {h : Hex}
    (hok : ofString [c] strict = .ok h) : c ∈ filter := by
  obtain ⟨hhex, hstrict⟩ := ofString_eq_ok_iff.mp hok
  have hvalid := h.valid
  rw [hhex, hstrict] at hvalid
  cases strict with
  | true =>
    rw [adjust_digits_true] at hvalid
    split at hvalid
    · next h0 =>
      obtain rfl : c = '0' := h0
      decide
    · simpa [isValid] using hvalid
  | false => simpa [isValid, adjust, charAt] using hvalid

theorem fromUint_byte_iff (b : UInt8) (strict : Bool) :
    (∃ h, fromUint (.byte b) strict = .ok h) ↔
      Char.ofNat b.toNat ∈ filter ∧ (strict = true → Char.ofNat b.toNat ≠ '0') := by
  by_cases hc : Char.ofNat b.toNat ∈ filter
  · have hs : ∀ c ∈ [Char.ofNat b.toNat], c ∈ filter := by
      intro c hmem
      rw [List.mem_singleton.mp hmem]
      exact hc
    rw [and_iff_right hc]
    exact ofString_digits_iff hs strict
  · constructor
    · rintro ⟨h, hok⟩
      exact absurd (mem_filter_of_ofString hok) hc
    · exact fun h => absurd h.1 hc

/-- **What the constructors make of digits**: for a non-empty string of digits all four
    constructions succeed, get the prefix right and agree with `toBytes` exactly when the string
    does not start with `0` and, with its prefix, is shorter than `2 ^ 32`.  `fromUint` fails on
    a strict zero; a byte is written as a character. -/
theorem normalises_iff (s : List Char) (hne : s ≠ []) (hs : ∀ c ∈ s, c ∈ filter) (n : Nat)
    (b : UInt8) (strict : Bool) :
    ((Normalises s true s ∧ Normalises ('0' :: 'x' :: s) true s ∧ Normalises s false s ∧
        Normalises ('0' :: 'x' :: s) false s) ↔
      s.head? ≠ some '0' ∧ s.length + 2 < 2 ^ 32) ∧
      ((∃ h, fromUint (.wide n) strict = .ok h) ↔ (strict = true → n ≠ 0)) ∧
      ((∃ h, fromUint (.byte b) strict = .ok h) ↔
        Char.ofNat b.toNat ∈ filter ∧ (strict = true → Char.ofNat b.toNat ≠ '0')) := by
  refine ⟨?_, fromUint_wide_iff n strict, fromUint_byte_iff b strict⟩
  have hhead : s.head? = some '0' ↔ charAt s 0 = '0' := by
    cases s with
    | nil => exact absurd rfl hne
    | cons c s => simp [charAt]
  have hlong : (spelled s true).length = s.length + 2 := rfl
  have hshort : (spelled s false).length = s.length := rfl
  rw [Ne, hhead, normalises_of_adjust hs (adjust_zeroX true), hlong]
  constructor
  · rintro ⟨⟨h, b, hok, -⟩, hlen, -, -⟩
    exact ⟨(ofString_digits_iff hs true).mp ⟨h, hok⟩ rfl, hlen⟩
  · rintro ⟨h0, hlen⟩
    have hadj : adjust s true = spelled s true := by
      rw [adjust_digits_true, if_neg h0]
      rfl
    rw [normalises_of_adjust hs hadj, normalises_of_adjust hs (adjust_digits_false hs),
      normalises_of_adjust hs (adjust_zeroX false), hlong, hshort]
    exact ⟨hlen, hlen, by omega, by omega⟩

/-- The digit `1` is spelled in all four ways, and `fromUint(1, true)` succeeds. -/
theorem normalises_one :
    ['1'] ≠ [] ∧ (∀ c ∈ ['1'], c ∈ filter) ∧ Normalises ['1'] true ['1'] ∧
      Normalises ['0', 'x', '1'] true ['1'] ∧ Normalises ['1'] false ['1'] ∧
      Normalises ['0', 'x', '1'] false ['1'] ∧ ∃ h, fromUint (.wide 1) true = .ok h := by
  have hne : ['1'] ≠ [] := List.cons_ne_nil _ _
  have hs : ∀ c ∈ ['1'], c ∈ filter := by simp [filter, digits]
  obtain ⟨hspelled, huint, -⟩ := normalises_iff ['1'] hne hs 1 0 true
  obtain ⟨h₁, h₂, h₃, h₄⟩ := hspelled.mpr ⟨by decide, by decide⟩
  exact ⟨hne, hs, h₁, h₂, h₃, h₄, huint.mpr fun _ => Nat.one_ne_zero⟩

/-- `Hex("0", true)` throws, and with it `fromUint(0, true)`. -/
theorem ofString_zero_strict :
    (∀ h, ofString ['0'] true ≠ .ok h) ∧ (∀ h, fromUint (.wide 0) true ≠ .ok h) ∧
      ¬ Normalises ['0'] true ['0'] := by
  have hs : ∀ c ∈ ['0'], c ∈ filter := by simp [filter, digits]
  have hthrows : ∀ h, ofString ['0'] true ≠ .ok h := ofString_leading_zero hs rfl
  refine ⟨hthrows, hthrows, ?_⟩
  rintro ⟨h, b, hok, -⟩
  exact hthrows h hok

end Hex

end OrbiterSdk
