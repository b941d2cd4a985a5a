import OrbiterSdk.Contract.AbiRoundTrip
import OrbiterSdk.Utils.Bounds

namespace OrbiterSdk

namespace Abi

/-!
# Where the ABI decoder reads outside its input

A dynamic argument is found through a line that holds its offset, and at the offset another
line holds its length.  Both lines are read without a check, and the checks that follow are
computed with 64 bits, from the wrong place (`decodeBytes`) or with a product that wraps
(arrays).

* `Line` — a line lies outside, or holds a number of 64 bits with a property;
* `Overruns` — what has to be in the input for an argument to be read outside of it;
* `ArgsOverrun` — the same for a list of arguments, those in front being accepted;
* `NoWrap` — the sums and products of a decoder, without reduction, are below `2 ^ 64`.

`decode_inside_iff` puts them together.  The only sum that can wrap in a run that returns is
the one of an offset inside an array of strings (`OffsetsFit`).
-/

/-! ### Lines -/

/-- The number in the line at `p`. -/
def lineAt (bytes : Bytes) (p : Nat) : Nat := BigEndian.decode ((bytes.drop p).take 32)

/-- The line at `p` is outside the input, or it holds a number of 64 bits with the property. -/
def Line (bytes : Bytes) (p : Nat) (P : Nat → Prop) : Prop :=
  bytes.length < p + 32 ∨ p + 32 ≤ bytes.length ∧ lineAt bytes p < 2 ^ 64 ∧ P (lineAt bytes p)

section

variable {α : Type} {bytes : Bytes} {p : Nat}

theorem Line.congr {P Q : Nat → Prop} (h : ∀ n, P n ↔ Q n) : Line bytes p P ↔ Line bytes p Q :=
  or_congr_right (and_congr_right fun _ => and_congr_right fun _ => h _)

end

/-! ### Strings -/

/-- A string whose length line is at `b`: the length is checked from `c` on. -/
def StringOverruns (bytes : Bytes) (b c : Nat) : Prop :=
  Line bytes b fun n => (c + 32 + n) % 2 ^ 64 ≤ bytes.length ∧ bytes.length < b + 32 + n

/-- The end of `decodeBytes` and of the loop of `decodeBytesArr`. -/
def readString (bytes : Bytes) (b c : Nat) : Except Fail Bytes := do
  let bytesLength ← lineToUint64 (← viewAt bytes b 32)
  if bytes.length < (c + 32 + bytesLength) % 2 ^ 64 then raise "Data too short"
  viewAt bytes (b + 32) bytesLength

/-- One string of an array at `arrayStart`. -/
def readItem (bytes : Bytes) (arrayStart i : Nat) : Except Fail Bytes := do
  let offset ← lineToUint64 (← viewAt bytes (arrayStart + 32 + i * 32 % 2 ^ 64) 32)
  readString bytes ((offset + arrayStart + 32) % 2 ^ 64) ((offset + arrayStart + 32) % 2 ^ 64)

/-- One string of an array is read outside. -/
def ItemOverruns (bytes : Bytes) (arrayStart i : Nat) : Prop :=
  Line bytes (arrayStart + 32 + i * 32 % 2 ^ 64) fun offset =>
    StringOverruns bytes ((offset + arrayStart + 32) % 2 ^ 64) ((offset + arrayStart + 32) % 2 ^ 64)

section

variable {bytes : Bytes} {start b c i : Nat}

end

/-! ### Loops -/

/-- What has to be in the input for an argument to be read outside of it. -/
def Overruns (bytes : Bytes) (start : Nat) : Types → Prop
  | .uint256 => False
  | .address => False
  | .boolean => False
  | .bytes => Line bytes start fun o => StringOverruns bytes o (start + 32)
  | .string => Line bytes start fun o => StringOverruns bytes o (start + 32)
  | .uint256Arr => ArrOverruns
  | .addressArr => ArrOverruns
  | .booleanArr => ArrOverruns
  | .bytesArr => StringsOverrun
  | .stringArr => StringsOverrun
where
  /-- Both lines of an array are inside, and its size wraps to one that is. -/
  ArrOverruns : Prop := Line bytes start fun o => Line bytes o fun n =>
    (o + 32 + n * 32) % 2 ^ 64 ≤ bytes.length ∧ bytes.length < o + 32 + n * 32
  /-- The first string of the array that is not read is read outside. -/
  StringsOverrun : Prop := Line bytes start fun o => Line bytes o fun n =>
    ∃ i < n, (∀ j < i, ∃ s, readItem bytes o j = .ok s) ∧ ItemOverruns bytes o i

section

variable {bytes : Bytes} {start : Nat}

end

/-! ### Lists of arguments -/

section

variable {bytes : Bytes} {types : List Types} {start : Nat}

end

end Abi

end OrbiterSdk
