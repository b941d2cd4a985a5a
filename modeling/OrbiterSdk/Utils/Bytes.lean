import OrbiterSdk.Lib.BigEndian
import OrbiterSdk.Lib.Checked

namespace OrbiterSdk

/-!
# Byte strings, fixed-size strings, checked integers and exceptions

The data types of `utils/strings.h` and `utils/utils.h`:

* `Bytes` — `std::string`, always used as a byte string;
* `FixedStr N` — exactly `N` bytes; `Hash`, `Address`, `Signature`, `UPubKey` and
  `PrivKey` are its instances;
* `Uint256` — boost's *checked* 256-bit unsigned integer: `uadd`, `usub` and `umul` throw
  instead of wrapping;
* `Exn` — the C++ exceptions of the modelled code, all caught as `std::exception`.
-/

/-- `std::string` used as a byte string. -/
abbrev Bytes := List UInt8

/-- `std::exception`: what can be thrown.  A handler that rethrows
    `std::runtime_error(e.what())` only changes the static type, so it is the identity. -/
inductive Exn where
  /-- `std::runtime_error(what)`. -/
  | runtimeError (what : String)
  /-- `std::out_of_range` of `substr` or `at`. -/
  | outOfRange
  /-- `std::overflow_error` of boost's checked arithmetic. -/
  | overflow
  /-- `std::range_error` of boost's checked arithmetic: a negative unsigned result, or a
      conversion to a type the value does not fit. -/
  | rangeError
  /-- `boost::bad_lexical_cast`. -/
  | badCast
  /-- `std::invalid_argument(what)`. -/
  | invalidArgument (what : String)
deriving DecidableEq, Repr

/-! ### Fixed-size strings -/

/-- `FixedStr<N>`: exactly `n` bytes. -/
structure FixedStr (n : Nat) where
  data : Bytes
  size_eq : data.length = n
deriving DecidableEq

/-- `Hash`. -/
abbrev Hash := FixedStr 32

/-- `Address`. -/
abbrev Address := FixedStr 20

instance Address.lawfulBEq : LawfulBEq Address := inferInstance

/-- `Signature`: `r`, `s` and the recovery id. -/
abbrev Signature := FixedStr 65

/-- `UPubKey`: an uncompressed public key. -/
abbrev UPubKey := FixedStr 65

/-- `PrivKey`. -/
abbrev PrivKey := FixedStr 32

namespace FixedStr

variable {n : Nat}

theorem ext {a b : FixedStr n} (h : a.data = b.data) : a = b := by
  cases a; cases b; cases h; rfl

/-- The string whose bytes are the big-endian digits of `x` (hexadecimal literals). -/
def ofNat (n x : Nat) : FixedStr n := ⟨BigEndian.fixed n x, BigEndian.length_fixed n x⟩

/-- The default constructor: all bytes zero. -/
def zero : FixedStr n := ⟨List.replicate n 0, List.length_replicate⟩

/-- The constructor from a string: cut or padded with zero bytes to `n`. -/
def ofBytes (bs : Bytes) : FixedStr n :=
  ⟨(bs ++ List.replicate n 0).take n, by simp⟩

theorem ofBytes_data (a : FixedStr n) : ofBytes a.data = a := by
  refine ext ?_
  show (a.data ++ List.replicate n 0).take n = a.data
  exact List.take_left' a.size_eq

/-- `operator bool`: some byte is not zero. -/
def toBool (a : FixedStr n) : Bool := a.data.any (· != 0)

/-- `operator<=`: lexicographic on the bytes. -/
instance : LE (FixedStr n) := ⟨fun a b => a.data ≤ b.data⟩

instance (a b : FixedStr n) : Decidable (a ≤ b) := inferInstanceAs (Decidable (a.data ≤ b.data))

theorem le_total (a b : FixedStr n) : a ≤ b ∨ b ≤ a := List.le_total a.data b.data

theorem le_trans {a b c : FixedStr n} (hab : a ≤ b) (hbc : b ≤ c) : a ≤ c :=
  List.le_trans (α := UInt8) hab hbc

theorem le_antisymm {a b : FixedStr n} (hab : a ≤ b) (hba : b ≤ a) : a = b :=
  ext (List.le_antisymm (α := UInt8) hab hba)

instance : Std.Total (α := FixedStr n) (· ≤ ·) := ⟨le_total⟩

instance : IsTrans (FixedStr n) (· ≤ ·) := ⟨fun _ _ _ => le_trans⟩

end FixedStr

/-! ### Checked 256-bit integers -/

/-- `uint256_t`. -/
abbrev Uint256 := Fin (2 ^ 256)

instance Uint256.neZero : NeZero (2 ^ 256) := ⟨Nat.two_pow_pos 256 |>.ne'⟩

/-- `a + b`. -/
def uadd (a b : Uint256) : Except Exn Uint256 := (Checked.add a b).elim (.error .overflow) .ok

/-- `a - b`. -/
def usub (a b : Uint256) : Except Exn Uint256 := (Checked.sub a b).elim (.error .rangeError) .ok

/-- `a * b`. -/
def umul (a b : Uint256) : Except Exn Uint256 := (Checked.mul a b).elim (.error .overflow) .ok

theorem uadd_eq_ok {a b c : Uint256} : uadd a b = .ok c ↔ c.val = a.val + b.val := by
  rw [← Checked.add_eq_some]
  unfold uadd
  cases Checked.add a b <;> simp

theorem uadd_eq_error {a b : Uint256} {e : Exn} :
    uadd a b = .error e ↔ e = .overflow ∧ 2 ^ 256 ≤ a.val + b.val := by
  rw [← Checked.add_eq_none]
  unfold uadd
  cases Checked.add a b <;> simp [eq_comm]

theorem usub_eq_ok {a b c : Uint256} : usub a b = .ok c ↔ c.val + b.val = a.val := by
  rw [← Checked.sub_eq_some]
  unfold usub
  cases Checked.sub a b <;> simp

theorem usub_eq_error {a b : Uint256} {e : Exn} :
    usub a b = .error e ↔ e = .rangeError ∧ a.val < b.val := by
  rw [← Checked.sub_eq_none]
  unfold usub
  cases Checked.sub a b <;> simp [eq_comm]

theorem umul_eq_ok {a b c : Uint256} : umul a b = .ok c ↔ c.val = a.val * b.val := by
  rw [← Checked.mul_eq_some]
  unfold umul
  cases Checked.mul a b <;> simp

/-! ### Strings -/

/-- Lower-case hexadecimal digits. -/
def hexOf (bs : Bytes) : String :=
  String.ofList (bs.flatMap fun b => [Nat.digitChar (b.toNat / 16), Nat.digitChar (b.toNat % 16)])

/-- `str.substr(pos, len)`: throws when `pos` is past the end, cuts at the end. -/
def substr (s : Bytes) (pos len : Nat) : Except Exn Bytes :=
  if s.length < pos then .error .outOfRange else .ok ((s.drop pos).take len)

/-- `str.substr(pos)`. -/
def substrFrom (s : Bytes) (pos : Nat) : Except Exn Bytes :=
  if s.length < pos then .error .outOfRange else .ok (s.drop pos)

/-- `Address(add, true)`: throws unless there are 20 bytes. -/
def addressOfBytes (bs : Bytes) : Except Exn Address :=
  if h : bs.length = 20 then .ok ⟨bs, h⟩
  else .error (.invalidArgument "Address must be 20 bytes long.")

theorem addressOfBytes_data (a : Address) : addressOfBytes a.data = .ok a := by
  rw [addressOfBytes, dif_pos a.size_eq]

/-- `Hash::toUint256`. -/
def toUint256 (h : Hash) : Nat := BigEndian.decode h.data

end OrbiterSdk
