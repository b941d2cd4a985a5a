import OrbiterSdk.Utils.Tx

namespace OrbiterSdk

/-!
# Hexadecimal strings

`utils/hex.cpp`: the class `Hex`, through which every number and every byte string of a
JSON-RPC answer is written.

* `Hex` — a string with the check of the constructor as a field;
* `Hex.fromBytes` — two digits per byte; its call of the constructor never throws
  (`ofString_rawHex`);
* `Hex.forRPC` — the form of quantities: at least one digit, leading zeros dropped;
* `Hex.toBytes` — back to bytes; an odd number of digits starts with a byte of one digit.

`forRPC` is meant for numbers (`isQuantity_forRPC`).  On byte strings it drops what
`toBytes` cannot restore (`toBytes_stripped`).
-/

namespace Hex

/-! ### Digits -/

/-- `Hex::toInt`. -/
def toInt (c : Char) : Int :=
  if '0' ≤ c ∧ c ≤ '9' then c.toNat - '0'.toNat
  else if 'a' ≤ c ∧ c ≤ 'f' then c.toNat - 'a'.toNat + 10
  else if 'A' ≤ c ∧ c ≤ 'F' then c.toNat - 'A'.toNat + 10
  else -1

/-- The digits `fromBytes` writes. -/
def digits : List Char :=
  ['0', '1', '2', '3', '4', '5', '6', '7', '8', '9', 'a', 'b', 'c', 'd', 'e', 'f']

/-- The digits that are read. -/
def filter : List Char := digits ++ ['A', 'B', 'C', 'D', 'E', 'F']

/-- The two digits of each byte. -/
def pairs (bytes : Bytes) : List Char :=
  bytes.flatMap fun b => [Nat.digitChar (b.toNat / 16), Nat.digitChar (b.toNat % 16)]

/-- The number that digits denote, the most significant one first. -/
def value (cs : List Char) : Nat := cs.foldl (fun acc c => acc * 16 + (toInt c).toNat) 0

/-- All sixteen digits: which characters they are, and what they stand for. -/
theorem digitChar_spec : ∀ d : Fin 16,
    toInt (Nat.digitChar d) = d ∧ Nat.digitChar d ∈ digits ∧ (Nat.digitChar d = '0' ↔ d = 0) := by
  decide

theorem toInt_digitChar {d : Nat} (h : d < 16) : toInt (Nat.digitChar d) = d :=
  (digitChar_spec ⟨d, h⟩).1

theorem digitChar_mem_digits {d : Nat} (h : d < 16) : Nat.digitChar d ∈ digits :=
  (digitChar_spec ⟨d, h⟩).2.1

theorem digitChar_eq_zero_iff {d : Nat} (h : d < 16) : Nat.digitChar d = '0' ↔ d = 0 := by
  rw [(digitChar_spec ⟨d, h⟩).2.2, Fin.ext_iff]
  rfl

theorem mem_filter_of_mem_digits {c : Char} (h : c ∈ digits) : c ∈ filter := by
  exact List.mem_append_left _ h

theorem ne_x_of_mem_filter {c : Char} (h : c ∈ filter) : c ≠ 'x' ∧ c ≠ 'X' := by
  constructor
  · rintro rfl
    exact absurd h (by decide)
  · rintro rfl
    exact absurd h (by decide)

@[simp] theorem pairs_nil : pairs [] = [] := rfl

@[simp] theorem pairs_cons (b : UInt8) (bytes : Bytes) :
    pairs (b :: bytes) =
      Nat.digitChar (b.toNat / 16) :: Nat.digitChar (b.toNat % 16) :: pairs bytes := rfl

theorem high_lt (b : UInt8) : b.toNat / 16 < 16 := by
  have := b.toNat_lt
  omega

theorem low_lt (b : UInt8) : b.toNat % 16 < 16 := Nat.mod_lt _ (by decide)

theorem mem_digits_of_mem_pairs {bytes : Bytes} {c : Char} (h : c ∈ pairs bytes) : c ∈ digits := by
  obtain ⟨b, -, hc⟩ := List.mem_flatMap.mp h
  rcases List.mem_cons.mp hc with rfl | hc
  · exact digitChar_mem_digits (high_lt b)
  · rw [List.mem_singleton.mp hc]
    exact digitChar_mem_digits (low_lt b)

theorem mem_filter_of_mem_pairs (bytes : Bytes) : ∀ c ∈ pairs bytes, c ∈ filter :=
  fun _ hc => mem_filter_of_mem_digits (mem_digits_of_mem_pairs hc)

end Hex

/-! ### The class -/

/-- `Hex::isValid`. -/
def Hex.isValid (hex : List Char) (strict : Bool) : Bool :=
  if strict then
    (hex.take 2 == ['0', 'x'] || hex.take 2 == ['0', 'X']) &&
      (hex.drop 2).all fun c => decide (c ∈ filter)
  else hex.all fun c => decide (c ∈ filter)

/-- `class Hex`: no value exists that the constructor would not accept. -/
structure Hex where
  hex : List Char
  strict : Bool
  valid : Hex.isValid hex strict = true

namespace Hex

/-- `str[i]`: at the size there is a terminating zero. -/
def charAt (str : List Char) (i : Nat) : Char := str.getD i '\x00'

/-- What the constructor makes of its argument before the check.  With `strict` the second
    half of the source's condition (`!= 'x' || != 'X'`) is always true. -/
def adjust (v : List Char) (strict : Bool) : List Char :=
  if strict then
    if charAt v 0 ≠ '0' ∧ (charAt v 1 ≠ 'x' ∨ charAt v 1 ≠ 'X') then '0' :: 'x' :: v else v
  else
    if charAt v 0 = '0' ∧ (charAt v 1 = 'x' ∨ charAt v 1 = 'X') then v.drop 2 else v

/-- `Hex::Hex(value, strict)`. -/
def ofString (v : List Char) (strict : Bool) : Except Exn Hex :=
  if h : isValid (adjust v strict) strict then .ok ⟨adjust v strict, strict, h⟩
  else .error (.runtimeError "Invalid Hex string at constructor")

/-- The string `fromBytes` fills: `size * 2 + off` characters with `"0x"` put in front, then
    the digits from `off` on. -/
def rawHex (bytes : Bytes) (strict : Bool) : List Char :=
  if strict then '0' :: 'x' :: pairs bytes
  else if bytes = [] then ['0', 'x']
  else pairs bytes

theorem charAt_ne_x {cs : List Char} (h : ∀ c ∈ cs, c ∈ filter) (i : Nat) :
    charAt cs i ≠ 'x' ∧ charAt cs i ≠ 'X' := by
  rw [charAt, List.getD_eq_getElem?_getD]
  cases hi : cs[i]? with
  | none => decide
  | some c => exact ne_x_of_mem_filter (h c (List.mem_of_getElem? hi))

theorem adjust_rawHex (bytes : Bytes) (strict : Bool) :
    adjust (rawHex bytes strict) strict =
      if strict then '0' :: 'x' :: pairs bytes else pairs bytes := by
  cases strict with
  | true => simp [adjust, rawHex, charAt]
  | false =>
    cases bytes with
    | nil => rfl
    | cons b bytes =>
      -- the second character is a digit, so nothing is taken for a prefix
      have hlow := charAt_ne_x (mem_filter_of_mem_pairs (b :: bytes)) 1
      rw [rawHex, if_neg Bool.false_ne_true, if_neg (List.cons_ne_nil b bytes), adjust,
        if_neg Bool.false_ne_true, if_neg Bool.false_ne_true,
        if_neg fun hx => hx.2.elim hlow.1 hlow.2]

theorem isValid_digits {cs : List Char} (h : ∀ c ∈ cs, c ∈ filter) (strict : Bool) :
    isValid (if strict then '0' :: 'x' :: cs else cs) strict = true := by
  have hall : cs.all (fun c => decide (c ∈ filter)) = true := by
    rw [List.all_eq_true]
    intro c hc
    exact decide_eq_true (h c hc)
  cases strict with
  | true => simp only [isValid, if_true, List.take, List.drop, hall]; rfl
  | false => simpa only [isValid, Bool.false_eq_true, if_false] using hall

/-- `Hex::fromBytes`. -/
def fromBytes (bytes : Bytes) (strict : Bool) : Hex :=
  ⟨adjust (rawHex bytes strict) strict, strict,
    by rw [adjust_rawHex]; exact isValid_digits (mem_filter_of_mem_pairs bytes) strict⟩

/-- **The constructor accepts what `fromBytes` gives it.** -/
theorem ofString_rawHex (bytes : Bytes) (strict : Bool) :
    ofString (rawHex bytes strict) strict = .ok (fromBytes bytes strict) :=
  dif_pos (fromBytes bytes strict).valid

theorem fromBytes_strict (bytes : Bytes) : (fromBytes bytes true).hex = '0' :: 'x' :: pairs bytes :=
  adjust_rawHex bytes true

/-- `Hex::get`, and the conversion to a string. -/
def get (h : Hex) : String := String.ofList h.hex

/-- `Hex::forRPC`. -/
def forRPC (h : Hex) : String :=
  let retHex := if charAt h.hex 0 ≠ '0' ∧ charAt h.hex 1 ≠ 'x' then '0' :: 'x' :: h.hex else h.hex
  if retHex = ['0', 'x'] then "0x0"
  -- `while (retHex[2] == '0') retHex.erase(2, 1)`
  else String.ofList (retHex.take 2 ++ (retHex.drop 2).dropWhile (· == '0'))

/-- `uint8_t(i)`. -/
def toByte (i : Int) : UInt8 := UInt8.ofNat (i % 256).toNat

/-- The loop of `toBytes`, two digits at a time. -/
def bytePairs : List Char → Bytes
  | h :: l :: cs => toByte (toInt h * 16 + toInt l) :: bytePairs cs
  | _ => []

/-- `Hex::toBytes`. -/
def toBytes (hex : String) : Except Exn Bytes :=
  let cs := hex.toList
  let body := if charAt cs 0 = '0' ∧ (charAt cs 1 = 'x' ∨ charAt cs 1 = 'X') then cs.drop 2 else cs
  if body.any fun c => decide (c ∉ filter) then
    .error (.runtimeError
      ("toBytes: Invalid hex string: " ++ hex ++ " filter: " ++ String.ofList filter))
  else if cs.length % 2 = 1 then .ok ((body.take 1).map (fun c => toByte (toInt c)) ++
    bytePairs (body.drop 1))
  else .ok (bytePairs body)

/-- What digits stand for, two per byte; an odd number of them starts with a byte of one
    digit. -/
def digitBytes (cs : List Char) : Bytes :=
  if cs.length % 2 = 1 then (cs.take 1).map (fun c => toByte (toInt c)) ++ bytePairs (cs.drop 1)
  else bytePairs cs

/-! ### Quantities -/

theorem foldl_pairs (bytes : Bytes) (acc : Nat) :
    (pairs bytes).foldl (fun acc c => acc * 16 + (toInt c).toNat) acc =
      bytes.foldl (fun acc b => acc * 256 + b.toNat) acc := by
  induction bytes generalizing acc with
  | nil => rfl
  | cons b bytes ih =>
    rw [pairs_cons, List.foldl_cons, List.foldl_cons, List.foldl_cons,
      toInt_digitChar (high_lt b), toInt_digitChar (low_lt b), ih]
    congr 1
    simp only [Int.toNat_natCast]
    omega

theorem value_pairs (bytes : Bytes) : value (pairs bytes) = BigEndian.decode bytes :=
  foldl_pairs bytes 0

theorem value_dropWhile (cs : List Char) : value (cs.dropWhile (· == '0')) = value cs := by
  induction cs with
  | nil => rfl
  | cons c cs ih =>
    rw [List.dropWhile_cons]
    split
    · next h =>
      obtain rfl : c = '0' := by simpa using h
      exact ih
    · rfl

theorem forRPC_fromBytes (bytes : Bytes) :
    (fromBytes bytes true).forRPC =
      if bytes = [] then "0x0"
      else String.ofList ('0' :: 'x' :: (pairs bytes).dropWhile (· == '0')) := by
  rw [forRPC, fromBytes_strict]
  cases bytes with
  | nil => rfl
  | cons b bytes => simp [charAt]

/-- `text` is the canonical form of the number `n`: `0x` and at least one lower-case digit,
    no leading zero unless the number is zero, and the digits denote it. -/
def IsQuantity (n : Nat) (text : String) : Prop :=
  ∃ cs : List Char, text = "0x" ++ String.ofList cs ∧ cs ≠ [] ∧ (∀ c ∈ cs, c ∈ digits) ∧
    (cs.head? = some '0' → n = 0) ∧ value cs = n

/-- **Quantities are canonical and exact**: what the JSON-RPC layer writes for a number is
    its canonical form. -/
theorem isQuantity_forRPC (n : Nat) : IsQuantity n (fromBytes (uintToBytes n) true).forRPC := by
  rw [forRPC_fromBytes]
  rcases Nat.eq_zero_or_pos n with hzero | hpos
  · rw [hzero]
    exact ⟨['0'], by decide, by decide, by simp [digits], fun _ => rfl, by decide⟩
  · have hval : value ((pairs (uintToBytes n)).dropWhile (· == '0')) = n := by
      rw [value_dropWhile, value_pairs, uintToBytes, BigEndian.decode_minimal]
    have hne : uintToBytes n ≠ [] := BigEndian.minimal_ne_nil hpos
    rw [if_neg hne]
    refine ⟨(pairs (uintToBytes n)).dropWhile (· == '0'), ?_, ?_, ?_, ?_, hval⟩
    · apply String.toList_injective
      simp
    · -- no digit left would denote zero
      intro hnil
      rw [hnil] at hval
      exact absurd hval.symm (Nat.ne_of_gt hpos)
    · intro c hc
      exact mem_digits_of_mem_pairs ((List.dropWhile_sublist _).subset hc)
    · intro hhead
      have hstop := List.head?_dropWhile_not (· == '0') (pairs (uintToBytes n))
      rw [hhead] at hstop
      simp at hstop

/-! ### Byte strings -/

theorem toByte_pair (b : UInt8) :
    toByte (toInt (Nat.digitChar (b.toNat / 16)) * 16 +
      toInt (Nat.digitChar (b.toNat % 16))) = b := by
  have hb := b.toNat_lt
  have hsum : ((b.toNat / 16 : Nat) : Int) * 16 + ((b.toNat % 16 : Nat) : Int) = b.toNat := by omega
  have hmod : ((b.toNat : Int) % 256).toNat = b.toNat := by omega
  rw [toInt_digitChar (high_lt b), toInt_digitChar (low_lt b), hsum, toByte, hmod,
    UInt8.ofNat_toNat]

theorem bytePairs_pairs (bytes : Bytes) : bytePairs (pairs bytes) = bytes := by
  induction bytes with
  | nil => rfl
  | cons b bytes ih => rw [pairs_cons, bytePairs, toByte_pair, ih]

theorem length_pairs (bytes : Bytes) : (pairs bytes).length = 2 * bytes.length := by
  induction bytes with
  | nil => rfl
  | cons b bytes ih => simp only [pairs_cons, List.length_cons, ih]; omega

theorem toBytes_digits {cs : List Char} (h : ∀ c ∈ cs, c ∈ filter) (strict : Bool) :
    toBytes (String.ofList (if strict then '0' :: 'x' :: cs else cs)) = .ok (digitBytes cs) := by
  have hany : cs.any (fun c => decide (c ∉ filter)) = false := by
    rw [List.any_eq_false]
    intro c hc
    simpa using h c hc
  cases strict with
  | true =>
    have hlen : ('0' :: 'x' :: cs).length % 2 = cs.length % 2 := by
      simp only [List.length_cons]
      omega
    have hpref : charAt ('0' :: 'x' :: cs) 0 = '0' ∧
        (charAt ('0' :: 'x' :: cs) 1 = 'x' ∨ charAt ('0' :: 'x' :: cs) 1 = 'X') := ⟨rfl, .inl rfl⟩
    simp only [toBytes, digitBytes, if_true, String.toList_ofList, hlen, if_pos hpref,
      List.drop_succ_cons, List.drop_zero, hany, Bool.false_eq_true, if_false, apply_ite Except.ok]
  | false =>
    have hx := charAt_ne_x h 1
    have hpref : ¬ (charAt cs 0 = '0' ∧ (charAt cs 1 = 'x' ∨ charAt cs 1 = 'X')) :=
      fun hp => hp.2.elim hx.1 hx.2
    simp only [toBytes, digitBytes, Bool.false_eq_true, if_false, String.toList_ofList,
      if_neg hpref, hany, apply_ite Except.ok]

theorem digitBytes_pairs (bytes : Bytes) : digitBytes (pairs bytes) = bytes := by
  rw [digitBytes, if_neg (by rw [length_pairs]; omega), bytePairs_pairs]

/-- With the leading zero digits of a byte string its leading zero bytes are gone; a single
    zero digit in front of a byte is restored. -/
theorem digitBytes_stripped (bytes : Bytes) :
    digitBytes ((pairs bytes).dropWhile (· == '0')) = bytes.dropWhile (· == 0) := by
  induction bytes with
  | nil => rfl
  | cons b bytes ih =>
    have hhigh := digitChar_eq_zero_iff (high_lt b)
    have hlow := digitChar_eq_zero_iff (low_lt b)
    by_cases h16 : b.toNat / 16 = 0
    · by_cases h0 : b.toNat % 16 = 0
      · -- a zero byte: both digits go
        obtain rfl : b = 0 := UInt8.toNat_inj.mp (by simp; omega)
        simpa using ih
      · -- one digit is left in front, and the length is odd
        have hb : b ≠ 0 := fun hb => h0 (by rw [hb]; rfl)
        have hbyte := toByte_pair b
        rw [h16, show toInt (Nat.digitChar 0) = 0 from rfl, Int.zero_mul, Int.zero_add] at hbyte
        have hdrop : (pairs (b :: bytes)).dropWhile (· == '0') =
            Nat.digitChar (b.toNat % 16) :: pairs bytes := by
          rw [pairs_cons, List.dropWhile_cons, if_pos (by simpa using hhigh.mpr h16),
            List.dropWhile_cons, if_neg (by simpa using fun h => h0 (hlow.mp h))]
        rw [hdrop, digitBytes, if_pos (by simp only [List.length_cons, length_pairs]; omega)]
        simp [hbyte, bytePairs_pairs, hb]
    · -- both digits stay
      have hb : b ≠ 0 := fun hb => h16 (by rw [hb]; rfl)
      have hdrop : (pairs (b :: bytes)).dropWhile (· == '0') = pairs (b :: bytes) := by
        rw [pairs_cons, List.dropWhile_cons, if_neg (by simpa using fun h => h16 (hhigh.mp h))]
      rw [hdrop, digitBytes_pairs]
      simp [hb]

/-- **`toBytes` does not see leading zero bytes.** -/
theorem toBytes_stripped (bytes : Bytes) :
    toBytes (String.ofList ('0' :: 'x' :: (pairs bytes).dropWhile (· == '0'))) =
      .ok (bytes.dropWhile (· == 0)) := by
  rw [← digitBytes_stripped]
  refine toBytes_digits ?_ true
  intro c hc
  exact mem_filter_of_mem_pairs bytes c ((List.dropWhile_sublist _).subset hc)

/-- **What `toBytes` gives back of a byte string in the form of a quantity**: a zero byte for
    nothing, and otherwise the string without its leading zero bytes. -/
theorem toBytes_forRPC (bytes : Bytes) :
    toBytes (fromBytes bytes true).forRPC =
      .ok (if bytes = [] then [0] else bytes.dropWhile (· == 0)) := by
  rw [forRPC_fromBytes]
  split
  · decide
  · exact toBytes_stripped bytes

end Hex

end OrbiterSdk
