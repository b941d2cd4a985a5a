import OrbiterSdk.Contract.Abi
import OrbiterSdk.Utils.Bounds

namespace OrbiterSdk

namespace Abi

/-!
# Function headers

The constructor `Encoder(data, func)` with its check of the header `name(t1,...,tk)` against
the values.

* `checkLoop` — the loop that looks for commas; positions are `int`s;
* `encoder` — the constructor;
* `checkTypes` — what the loop does, type by type: it compares every type but the last one.

`encoder_header` replaces the loop by `checkTypes`, and `header_checked_iff` says for which
headers and values the check comes to the right result.
-/

/-! ### Types -/

/-- The names of the types in a header. -/
def Types.name : Types → List Char
  | .uint256 => ['u', 'i', 'n', 't', '2', '5', '6']
  | .address => ['a', 'd', 'd', 'r', 'e', 's', 's']
  | .boolean => ['b', 'o', 'o', 'l']
  | .bytes => ['b', 'y', 't', 'e', 's']
  | .string => ['s', 't', 'r', 'i', 'n', 'g']
  | .uint256Arr => ['u', 'i', 'n', 't', '2', '5', '6', '[', ']']
  | .addressArr => ['a', 'd', 'd', 'r', 'e', 's', 's', '[', ']']
  | .booleanArr => ['b', 'o', 'o', 'l', '[', ']']
  | .bytesArr => ['b', 'y', 't', 'e', 's', '[', ']']
  | .stringArr => ['s', 't', 'r', 'i', 'n', 'g', '[', ']']

/-- The text of a type in a header. -/
def Types.text (type : Types) : Bytes := type.name.map fun c => UInt8.ofNat c.toNat

/-- The ten supported types. -/
def Types.all : List Types :=
  [.uint256, .address, .boolean, .bytes, .string, .uint256Arr, .addressArr, .booleanArr, .bytesArr,
    .stringArr]

/-- The type with a name. -/
def Types.ofName? (name : Bytes) : Option Types :=
  Types.all.find? fun type => type.text == name

/-- `std::holds_alternative`; `bytes` and `string` are both `std::string`. -/
def Value.holds : Value → Types → Bool
  | .uint256 _, .uint256 => true
  | .address _, .address => true
  | .boolean _, .boolean => true
  | .bytes _, .bytes => true
  | .bytes _, .string => true
  | .uint256Arr _, .uint256Arr => true
  | .addressArr _, .addressArr => true
  | .booleanArr _, .booleanArr => true
  | .bytesArr _, .bytesArr => true
  | .bytesArr _, .stringArr => true
  | _, _ => false

/-! ### The constructor -/

/-- `std::string::npos`. -/
def npos : Nat := 2 ^ 64 - 1

/-- `str.find(c, pos)`. -/
def find (str : Bytes) (c : UInt8) (pos : Nat) : Nat :=
  match (str.drop pos).findIdx? (· == c) with
  | some k => pos + k
  | none => npos

/-- The conversion to `int`. -/
def toInt32 (n : Int) : Int := Int.bmod n (2 ^ 32)

/-- The conversion of an `int` to `size_t`. -/
def toSize (n : Int) : Nat := (n % 2 ^ 64).toNat

/-- The two checks of a type; `data[ct]` is not compared with the size. -/
def checkType (data : List Value) (funcType : Bytes) (ct : Nat) : Except Fail Unit :=
  match Types.ofName? funcType with
  | none => raise "Invalid function header type"
  | some type =>
    match data[ct]? with
    | none => .error .oob
    | some v =>
      if v.holds type then .ok ()
      else raise ("Header and data types at position " ++ toString ct ++ " don't match")

/-- `while (e = funcTmp.find(",", b))`: the loop ends at a comma in front of everything, and in
    its body when there is no comma left.  With fewer than `2 ^ 31` characters every iteration
    moves `b`, so `funcTmp.length + 1` iterations are enough. -/
def checkLoop (funcTmp : Bytes) (data : List Value) : Nat → Int → Nat → Except Fail Unit
  | 0, _, _ => .error .oob
  | fuel + 1, b, ct =>
    let e := toInt32 (find funcTmp 0x2c (toSize b))
    if e = 0 then .ok ()
    else do
      let funcType ← liftExn (substr funcTmp (toSize b) (toSize (e - b)))
      if toSize e = npos then return ()
      checkType data funcType ct
      checkLoop funcTmp data fuel (toInt32 (e + 1)) (ct + 1)

/-- `Encoder(data, func).getRaw()`. -/
def encoder (C : Crypto) (data : List Value) (func : Bytes) : Except Fail Bytes := do
  if func = [] then return encode data
  if 0x28 ∉ func ∨ 0x29 ∉ func then raise "Invalid function header"
  -- from behind the first `(` up to the last character
  let first := find func 0x28 0 + 1
  if func.length - 1 < first then .error .oob
  let funcTmp := (func.drop first).take (func.length - 1 - first)
  if funcTmp = [] ∧ data ≠ [] then raise "Invalid function header"
  checkLoop funcTmp data (funcTmp.length + 1) 0 0
  return encodeCall C func data

/-! ### The loop -/

/-- The types of a header with the given text between its parentheses. -/
def headerTypes (body : Bytes) : List Bytes := if body = [] then [] else body.splitOn 0x2c

/-- All types but the last one are checked. -/
def checkTypes (data : List Value) : List Bytes → Nat → Except Fail Unit
  | t :: t' :: ts, ct => do
    checkType data t ct
    checkTypes data (t' :: ts) (ct + 1)
  | _, _ => .ok ()

section

variable {body : Bytes} {data : List Value}

theorem toInt32_of_lt {n : Nat} (h : n < 2 ^ 31) : toInt32 n = n := by
  unfold toInt32
  rw [Int.bmod_eq_of_le (by omega) (by omega)]

theorem toSize_natCast {n : Nat} (h : n < 2 ^ 64) : toSize n = n := by
  unfold toSize
  omega

theorem find_of_notMem {c : UInt8} {pos : Nat} (h : c ∉ body.drop pos) :
    find body c pos = npos := by
  have hnone : (body.drop pos).findIdx? (· == c) = none := by
    rw [List.findIdx?_eq_none_iff]
    intro x hx
    simpa using fun heq : x = c => h (heq ▸ hx)
  rw [find, hnone]

theorem find_of_drop {c : UInt8} {pos : Nat} {xs as : Bytes} (h : body.drop pos = xs ++ c :: as)
    (hxs : c ∉ xs) : find body c pos = pos + xs.length := by
  have hfront : xs.findIdx? (· == c) = none := by
    rw [List.findIdx?_eq_none_iff]
    intro x hx
    simpa using fun heq : x = c => hxs (heq ▸ hx)
  have hsome : (body.drop pos).findIdx? (· == c) = some xs.length := by
    rw [h, List.findIdx?_append, hfront, List.findIdx?_cons]
    simp
  rw [find, hsome]

/-- One step of `checkTypes`; behind a comma there is always another type. -/
theorem checkTypes_splitOn {xs as : Bytes} (hxs : 0x2c ∉ xs) (ct : Nat) :
    checkTypes data ((xs ++ 0x2c :: as).splitOn 0x2c) ct =
      (checkType data xs ct >>= fun _ => checkTypes data (as.splitOn 0x2c) (ct + 1)) := by
  have hsplit : (xs ++ 0x2c :: as).splitOn 0x2c = xs :: as.splitOn 0x2c :=
    List.splitOnP_append_cons_of_forall_mem (fun x hx => by
      simpa using fun heq : x = 0x2c => hxs (heq ▸ hx)) _ (by simp) as
  obtain ⟨t, ts, hts⟩ := List.exists_cons_of_ne_nil (List.splitOnP_ne_nil (· == 0x2c) as)
  rw [hsplit, show as.splitOn 0x2c = t :: ts from hts]
  rfl

/-- **The loop, type by type**: from `b` on, where there is no comma in front of everything. -/
theorem checkLoop_eq (hlen : body.length < 2 ^ 31) {fuel b ct : Nat} (hb : b ≤ body.length)
    (hfuel : body.length - b < fuel) (hfirst : 0 < b ∨ body.head? ≠ some 0x2c) :
    checkLoop body data fuel b ct = checkTypes data ((body.drop b).splitOn 0x2c) ct := by
  induction fuel generalizing b ct with
  | zero => omega
  | succ fuel ih =>
    have hsize : toSize (b : Int) = b := toSize_natCast (by omega)
    rw [checkLoop, hsize]
    by_cases hcomma : 0x2c ∈ body.drop b
    · obtain ⟨xs, as, hdrop, hxs⟩ := List.eq_append_cons_of_mem hcomma
      have hlength := congrArg List.length hdrop
      rw [List.length_drop, List.length_append, List.length_cons] at hlength
      have hint : toInt32 (find body 0x2c b : Int) = ((b + xs.length : Nat) : Int) := by
        rw [find_of_drop hdrop hxs]
        exact toInt32_of_lt (by omega)
      -- the comma is not the first character
      have hpos : b + xs.length ≠ 0 := by
        intro hzero
        obtain rfl : b = 0 := by omega
        obtain rfl : xs = [] := List.length_eq_zero_iff.mp (by omega)
        rcases hfirst with h | h
        · omega
        · rw [List.drop_zero] at hdrop
          exact h (by rw [hdrop]; rfl)
      have htype : substr body b (toSize (((b + xs.length : Nat) : Int) - (b : Int))) = .ok xs := by
        have hcut : toSize (((b + xs.length : Nat) : Int) - (b : Int)) = xs.length := by
          rw [show ((b + xs.length : Nat) : Int) - (b : Int) = (xs.length : Nat) by omega]
          exact toSize_natCast (by omega)
        rw [substr, if_neg (by omega), hcut, hdrop, List.take_left]
      have hmore : toSize ((b + xs.length : Nat) : Int) ≠ npos := by
        rw [toSize_natCast (by omega), npos]
        omega
      have hnext : toInt32 (((b + xs.length : Nat) : Int) + 1) = ((b + xs.length + 1 : Nat) : Int) :=
        toInt32_of_lt (n := b + xs.length + 1) (by omega)
      have hrest : body.drop (b + xs.length + 1) = as := by
        rw [Nat.add_assoc, ← List.drop_drop, hdrop, ← List.drop_drop, List.drop_left]
        rfl
      have hstep : checkLoop body data fuel ((b + xs.length + 1 : Nat) : Int) (ct + 1) =
          checkTypes data ((body.drop (b + xs.length + 1)).splitOn 0x2c) (ct + 1) :=
        ih (by omega) (by omega) (.inl (by omega))
      rw [hrest] at hstep
      simp only [hint, Int.natCast_eq_zero, hpos, if_false, htype, liftExn, hmore, hnext, hstep]
      rw [hdrop, checkTypes_splitOn hxs]
      rfl
    · -- the last type is cut out but not looked at
      have hint : toInt32 (find body 0x2c b : Int) = -1 := by
        rw [find_of_notMem hcomma]
        decide
      rw [List.splitOn_eq_singleton hcomma]
      simp only [hint]
      rw [if_neg (by decide), substr, if_neg (by omega)]
      rfl

/-- **The constructor on a header** `name(body)`: nothing is checked when the body starts with a
    comma. -/
theorem encoder_header (C : Crypto) {name : Bytes} (hname : 0x28 ∉ name)
    (hlen : body.length < 2 ^ 31) :
    encoder C data (name ++ 0x28 :: (body ++ [0x29])) =
      if body = [] ∧ data ≠ [] then raise "Invalid function header"
      else if body.head? = some 0x2c then
        .ok (encodeCall C (name ++ 0x28 :: (body ++ [0x29])) data)
      else (checkTypes data (body.splitOn 0x2c) 0).map fun _ =>
        encodeCall C (name ++ 0x28 :: (body ++ [0x29])) data := by
  set func := name ++ 0x28 :: (body ++ [0x29]) with hfunc
  have hne : func ≠ [] := by simp [hfunc]
  have hparens : ¬ (0x28 ∉ func ∨ 0x29 ∉ func) := by simp [hfunc]
  have hfirst : find func 0x28 0 = name.length := by
    rw [find_of_drop (show func.drop 0 = name ++ 0x28 :: (body ++ [0x29]) from hfunc) hname]
    omega
  have hlength : func.length = name.length + (body.length + 2) := by simp [hfunc]
  have htmp : (func.drop (name.length + 1)).take (func.length - 1 - (name.length + 1)) = body := by
    have hdrop : func.drop (name.length + 1) = body ++ [0x29] := by
      rw [hfunc, ← List.drop_drop, List.drop_left]
      rfl
    rw [hdrop, show func.length - 1 - (name.length + 1) = body.length by omega, List.take_left]
  unfold encoder
  simp only [hne, hparens, if_false, hfirst, htmp,
    show ¬ func.length - 1 < name.length + 1 by omega]
  by_cases hnoArgs : body = [] ∧ data ≠ []
  · simp only [if_pos hnoArgs]
    rfl
  · simp only [if_neg hnoArgs]
    by_cases hcomma : body.head? = some 0x2c
    · -- the first comma is found at position zero, which ends the loop
      obtain ⟨rest, hbody⟩ : ∃ rest, body = 0x2c :: rest := by
        cases hb : body with
        | nil => rw [hb] at hcomma; cases hcomma
        | cons c rest =>
          rw [hb] at hcomma
          exact ⟨rest, by rw [Option.some.inj hcomma]⟩
      have hzero : find body 0x2c 0 = 0 := by
        rw [find_of_drop (show body.drop 0 = [] ++ 0x2c :: rest from hbody) List.not_mem_nil]
        rfl
      rw [if_pos hcomma, checkLoop]
      simp only [show toSize 0 = 0 from rfl, hzero, show toInt32 ((0 : Nat) : Int) = 0 from rfl,
        if_true]
      rfl
    · have hloop : checkLoop body data (body.length + 1) 0 0 =
          checkTypes data ((body.drop 0).splitOn 0x2c) 0 :=
        checkLoop_eq hlen (Nat.zero_le _) (by omega) (.inr hcomma)
      rw [if_neg hcomma, hloop, List.drop_zero]
      cases checkTypes data (body.splitOn 0x2c) 0 <;> rfl

/-! ### What is checked -/

/-- The type is supported and the value has it. -/
def Matches (t : Bytes) (v : Value) : Prop := ∃ type, Types.ofName? t = some type ∧ v.holds type

/-- The value at an index has the type there. -/
def MatchesAt (types : List Bytes) (data : List Value) (i : Nat) : Prop :=
  ∃ t v, types[i]? = some t ∧ data[i]? = some v ∧ Matches t v

/-- The type at an index is not supported, or there is a value that does not have it. -/
def RefusedAt (types : List Bytes) (data : List Value) (i : Nat) : Prop :=
  ∃ t, types[i]? = some t ∧ (Types.ofName? t = none ∨ ∃ v, data[i]? = some v ∧ ¬ Matches t v)

/-- The header agrees with the values. -/
def Agrees (types : List Bytes) (data : List Value) : Prop :=
  types.length = data.length ∧ ∀ i < types.length, MatchesAt types data i

variable {t : Bytes} {ts types : List Bytes} {ct i : Nat}

theorem checkType_eq_ok : checkType data t ct = .ok () ↔ ∃ v, data[ct]? = some v ∧ Matches t v := by
  unfold checkType Matches
  cases Types.ofName? t with
  | none => simp [raise]
  | some type =>
    cases data[ct]? with
    | none => simp
    | some v => cases hv : v.holds type <;> simp [hv, raise]

theorem checkType_eq_exn : (∃ e, checkType data t ct = .error (.exn e)) ↔
    Types.ofName? t = none ∨ ∃ v, data[ct]? = some v ∧ ¬ Matches t v := by
  unfold checkType Matches
  cases Types.ofName? t with
  | none => simp [raise]
  | some type =>
    cases data[ct]? with
    | none => simp
    | some v => cases hv : v.holds type <;> simp [hv, raise]

theorem matchesAt_succ : MatchesAt (t :: ts) (data.drop ct) (i + 1) ↔
    MatchesAt ts (data.drop (ct + 1)) i := by
  simp only [MatchesAt, List.getElem?_cons_succ, List.getElem?_drop,
    show ct + (i + 1) = ct + 1 + i by omega]

theorem refusedAt_succ : RefusedAt (t :: ts) (data.drop ct) (i + 1) ↔
    RefusedAt ts (data.drop (ct + 1)) i := by
  simp only [RefusedAt, List.getElem?_cons_succ, List.getElem?_drop,
    show ct + (i + 1) = ct + 1 + i by omega]

theorem matchesAt_zero : MatchesAt (t :: ts) (data.drop ct) 0 ↔ checkType data t ct = .ok () := by
  simp only [checkType_eq_ok, MatchesAt, List.getElem?_cons_zero, List.getElem?_drop, Nat.add_zero,
    Option.some.injEq, exists_and_left, exists_eq_left']

theorem refusedAt_zero : RefusedAt (t :: ts) (data.drop ct) 0 ↔
    ∃ e, checkType data t ct = .error (.exn e) := by
  simp only [checkType_eq_exn, RefusedAt, List.getElem?_cons_zero, List.getElem?_drop, Nat.add_zero,
    Option.some.injEq, exists_eq_left']

/-- The check passes when all values in front of the last type have their types. -/
theorem checkTypes_eq_ok : checkTypes data types ct = .ok () ↔
    ∀ i, i + 1 < types.length → MatchesAt types (data.drop ct) i := by
  induction types generalizing ct with
  | nil => exact ⟨fun _ i hi => absurd hi (by simp), fun _ => rfl⟩
  | cons t ts ih =>
    cases ts with
    | nil => exact ⟨fun _ i hi => absurd hi (by simp), fun _ => rfl⟩
    | cons t' ts =>
      rw [checkTypes, Except.bind_eq_ok]
      constructor
      · rintro ⟨_, hhead, htail⟩ i hi
        cases i with
        | zero => exact matchesAt_zero.mpr hhead
        | succ i => exact matchesAt_succ.mpr (ih.mp htail i (by simpa using hi))
      · intro h
        exact ⟨(), matchesAt_zero.mp (h 0 (by simp)),
          ih.mpr fun i hi => matchesAt_succ.mp (h (i + 1) (by simpa using hi))⟩

/-- The check throws at the first type in front of the last one that does not pass, if it is
    refused. -/
theorem checkTypes_eq_exn : (∃ e, checkTypes data types ct = .error (.exn e)) ↔
    ∃ i, i + 1 < types.length ∧ (∀ j < i, MatchesAt types (data.drop ct) j) ∧
      RefusedAt types (data.drop ct) i := by
  induction types generalizing ct with
  | nil =>
    constructor
    · rintro ⟨e, h⟩
      cases h
    · rintro ⟨i, hi, -⟩
      simp at hi
  | cons t ts ih =>
    cases ts with
    | nil =>
      constructor
      · rintro ⟨e, h⟩
        cases h
      · rintro ⟨i, hi, -⟩
        simp at hi
    | cons t' ts =>
      rw [checkTypes]
      cases hhead : checkType data t ct with
      | error e =>
        -- a type that does not pass ends the loop
        constructor
        · rintro ⟨e', h⟩
          exact ⟨0, by simp, fun j hj => absurd hj (by omega),
            refusedAt_zero.mpr ⟨e', hhead.trans h⟩⟩
        · rintro ⟨i, hi, hfront, hrefused⟩
          cases i with
          | zero =>
            obtain ⟨e', he'⟩ := refusedAt_zero.mp hrefused
            exact ⟨e', hhead.symm.trans he'⟩
          | succ i =>
            have hzero := matchesAt_zero.mp (hfront 0 (by omega))
            rw [hhead] at hzero
            cases hzero
      | ok u =>
        refine Iff.trans (show _ ↔ ∃ e, checkTypes data (t' :: ts) (ct + 1) = .error (.exn e)
          from Iff.rfl) (ih.trans ⟨?_, ?_⟩)
        · rintro ⟨i, hi, hfront, hrefused⟩
          refine ⟨i + 1, by simpa using hi, fun j hj => ?_, refusedAt_succ.mpr hrefused⟩
          cases j with
          | zero => exact matchesAt_zero.mpr hhead
          | succ j => exact matchesAt_succ.mpr (hfront j (by omega))
        · rintro ⟨i, hi, hfront, hrefused⟩
          cases i with
          | zero =>
            obtain ⟨e, he⟩ := refusedAt_zero.mp hrefused
            rw [hhead] at he
            cases he
          | succ i =>
            exact ⟨i, by simpa using hi, fun j hj => matchesAt_succ.mp (hfront (j + 1) (by omega)),
              refusedAt_succ.mp hrefused⟩

end

/-! ### The right result -/

/-- The header is checked against the values: with agreement the functor and the encoding come
    out, without it an exception. -/
def Checked (C : Crypto) (name body : Bytes) (data : List Value) : Prop :=
  (Agrees (headerTypes body) data →
    encoder C data (name ++ 0x28 :: (body ++ [0x29])) =
      .ok ((C.sha3 (name ++ 0x28 :: (body ++ [0x29]))).data.take 4 ++ encode data)) ∧
  (¬ Agrees (headerTypes body) data →
    ∃ e, encoder C data (name ++ 0x28 :: (body ++ [0x29])) = .error (.exn e))

theorem not_matches_nil {v : Value} : ¬ Matches [] v := by
  rintro ⟨type, htype, -⟩
  cases htype

/-- A header whose first type is empty does not agree with anything. -/
theorem not_agrees_of_head_comma {body : Bytes} {data : List Value}
    (hcomma : body.head? = some 0x2c) : ¬ Agrees (body.splitOn 0x2c) data := by
  obtain ⟨rest, hrest⟩ : ∃ rest, body = [] ++ 0x2c :: rest := by
    cases body with
    | nil => cases hcomma
    | cons c rest => exact ⟨rest, by rw [Option.some.inj hcomma]; rfl⟩
  have hsplit : body.splitOn 0x2c = [] :: rest.splitOn 0x2c := by
    rw [hrest]
    exact List.splitOnP_append_cons_of_forall_mem (fun x hx => absurd hx (by simp)) _ (by simp) rest
  rintro ⟨-, hall⟩
  obtain ⟨t, v, ht, -, hmatch⟩ := hall 0 (by rw [hsplit]; simp)
  rw [hsplit] at ht
  cases ht
  exact not_matches_nil hmatch

theorem agrees_nil {data : List Value} : Agrees [] data ↔ data = [] := by
  constructor
  · intro h
    exact List.length_eq_zero_iff.mp h.1.symm
  · rintro rfl
    exact ⟨rfl, fun i hi => absurd hi (by simp)⟩

/-- What the loop makes of agreement: it passes what agrees, and of the rest it notices what it
    throws at. -/
theorem loop_checked_iff {α : Type} {types : List Bytes} {data : List Value} (out : α) :
    ((Agrees types data → (checkTypes data types 0).map (fun _ => out) = .ok out) ∧
      (¬ Agrees types data → ∃ e, (checkTypes data types 0).map (fun _ => out) =
        .error (.exn e))) ↔
    (∃ i, i + 1 < types.length ∧ (∀ j < i, MatchesAt types data j) ∧ RefusedAt types data i) ∨
      Agrees types data := by
  have hok : checkTypes data types 0 = .ok () ↔
      ∀ i, i + 1 < types.length → MatchesAt types data i := checkTypes_eq_ok
  have hexn : (∃ e, checkTypes data types 0 = .error (.exn e)) ↔
      ∃ i, i + 1 < types.length ∧ (∀ j < i, MatchesAt types data j) ∧ RefusedAt types data i :=
    checkTypes_eq_exn
  have hmap : ∀ e, (checkTypes data types 0).map (fun _ => out) = .error e ↔
      checkTypes data types 0 = .error e := by
    intro e
    cases checkTypes data types 0 <;> simp [Except.map]
  simp only [← hexn, hmap]
  constructor
  · rintro ⟨-, hthrow⟩
    by_cases hagrees : Agrees types data
    · exact .inr hagrees
    · exact .inl (hthrow hagrees)
  · intro hcases
    refine ⟨fun hagrees => ?_, fun hno => hcases.resolve_right hno⟩
    rw [hok.mpr fun i hi => hagrees.2 i (by omega)]
    rfl

/-- **When a header is checked against the values**: when it has no types; or when its first
    type is not empty and either a type in front of the last one is refused, everything before
    it being right, or the whole header agrees.  The number of values and the last type are
    never looked at. -/
theorem header_checked_iff (C : Crypto) {name body : Bytes} (data : List Value)
    (hname : 0x28 ∉ name) (hlen : body.length < 2 ^ 31) :
    Checked C name body data ↔ body = [] ∨ body.head? ≠ some 0x2c ∧
      ((∃ i, i + 1 < (headerTypes body).length ∧
        (∀ j < i, MatchesAt (headerTypes body) data j) ∧ RefusedAt (headerTypes body) data i) ∨
      Agrees (headerTypes body) data) := by
  unfold Checked
  rw [encoder_header C hname hlen]
  by_cases hbody : body = []
  · subst hbody
    refine iff_of_true ⟨fun h => ?_, fun h => ?_⟩ (.inl rfl)
    · rw [agrees_nil.mp h]
      rfl
    · rw [if_pos ⟨rfl, fun hdata => h (agrees_nil.mpr hdata)⟩]
      exact ⟨_, rfl⟩
  · have htypes : headerTypes body = body.splitOn 0x2c := if_neg hbody
    rw [if_neg fun h => hbody h.1, htypes]
    by_cases hcomma : body.head? = some 0x2c
    · -- an empty first type is not noticed
      rw [if_pos hcomma]
      refine iff_of_false (fun h => ?_) (by simp [hbody, hcomma])
      obtain ⟨e, he⟩ := h.2 (not_agrees_of_head_comma hcomma)
      cases he
    · rw [if_neg hcomma, or_iff_right hbody, and_iff_right hcomma]
      exact loop_checked_iff _

/-- The text `address,address`. -/
def twoAddresses : Bytes := Types.address.text ++ 0x2c :: Types.address.text

/-- `f(address,address)` with a number in the place of the first address. -/
theorem header_checked_iff_refused :
    0x28 ∉ ([0x66] : Bytes) ∧ twoAddresses.length < 2 ^ 31 ∧
      ∀ C, Checked C [0x66] twoAddresses [.uint256 1, .uint256 2] := by
  have hname : 0x28 ∉ ([0x66] : Bytes) := by decide
  have hlen : twoAddresses.length < 2 ^ 31 := by decide
  refine ⟨hname, hlen, fun C => (header_checked_iff C [.uint256 1, .uint256 2] hname hlen).mpr
    (.inr ⟨by decide, .inl ⟨0, by decide, fun j hj => absurd hj (by omega), ?_⟩⟩)⟩
  refine ⟨Types.address.text, by decide, .inr ⟨.uint256 1, rfl, ?_⟩⟩
  rintro ⟨type, htype, hholds⟩
  cases htype
  cases hholds

/-- `f(address)` is accepted with a number, and with no value at all; for `f(address,address)`
    and no value the data is indexed past its end. -/
theorem header_unchecked :
    (∀ C, ∃ out, encoder C [.uint256 1] ([0x66] ++ 0x28 :: (Types.address.text ++ [0x29])) =
      .ok out) ∧
    (∀ C, ∃ out, encoder C [] ([0x66] ++ 0x28 :: (Types.address.text ++ [0x29])) = .ok out) ∧
    ∀ C, encoder C [] ([0x66] ++ 0x28 :: (twoAddresses ++ [0x29])) = .error .oob := by
  have hname : 0x28 ∉ ([0x66] : Bytes) := by decide
  have hone : Types.address.text.splitOn 0x2c = [Types.address.text] := by decide
  have htwo : twoAddresses.splitOn 0x2c = [Types.address.text, Types.address.text] := by decide
  refine ⟨fun C => ?_, fun C => ?_, fun C => ?_⟩
  · rw [encoder_header C hname (by decide), if_neg (by decide), if_neg (by decide), hone]
    exact ⟨_, rfl⟩
  · rw [encoder_header C hname (by decide), if_neg (by decide), if_neg (by decide), hone]
    exact ⟨_, rfl⟩
  · rw [encoder_header C hname (by decide), if_neg (by decide), if_neg (by decide), htwo]
    rfl

end Abi

end OrbiterSdk
