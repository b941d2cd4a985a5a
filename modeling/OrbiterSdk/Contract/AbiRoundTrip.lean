import OrbiterSdk.Contract.Abi

namespace OrbiterSdk

namespace Abi

/-!
# Arguments come back from their encoding

The encoder writes one line of 32 bytes for every argument and the dynamic parts behind all
lines; the decoder finds a dynamic part through the offset in its line.  Every lemma here asks
for the bytes from a known place on (`data.drop p = …`), which is what the offsets promise.

* `decodeItems_eq_ok`, `decodeStaticArr_of_drop`, `decodeBytesArr_of_drop` — arrays;
* `heads`, `tails`, `encodeLoop_eq` — the layout of a list of arguments;
* `decode_encode` — decoding what was encoded.
-/

/-! ### Lines -/

theorem decode_replicate_zero (k : Nat) : BigEndian.decode (List.replicate k 0) = 0 := by
  induction k with
  | zero => rfl
  | succ k ih => rw [List.replicate_succ', BigEndian.decode_append_singleton, ih]; rfl

theorem decode_line (n : Nat) : BigEndian.decode (line n) = n := by
  rw [line, padLeftBytes, BigEndian.decode_append, decode_replicate_zero, Nat.zero_mul,
    Nat.zero_add]
  exact BigEndian.decode_minimal n

theorem le_length_line (n : Nat) : 32 ≤ (line n).length := by
  rw [line, padLeftBytes, List.length_append, List.length_replicate]
  omega

theorem length_line {n : Nat} (h : n < 2 ^ 64) : (line n).length = 32 := by
  have hshort : (uintToBytes n).length ≤ 32 :=
    BigEndian.length_minimal_le (lt_of_lt_of_le h (by decide))
  rw [line, padLeftBytes, List.length_append, List.length_replicate]
  omega

theorem viewAt_of_drop {data x rest : Bytes} {p n : Nat} (h : data.drop p = x ++ rest)
    (hp : p ≤ data.length) (hx : x.length = n) : viewAt data p n = .ok x := by
  have hlen := congrArg List.length h
  rw [List.length_drop, List.length_append, hx] at hlen
  rw [viewAt, if_pos (by omega), h, List.take_left' hx]

theorem drop_add_of_drop {data x rest : Bytes} {p : Nat} (h : data.drop p = x ++ rest) :
    data.drop (p + x.length) = rest := by
  rw [← List.drop_drop, h, List.drop_left]

theorem lineToUint64_of_drop {data rest : Bytes} {p n : Nat}
    (h : data.drop p = line n ++ rest) (hn : n < 2 ^ 64) :
    viewAt data p 32 = .ok (line n) ∧ lineToUint64 (line n) = .ok n := by
  have hlen := length_line hn
  refine ⟨viewAt_of_drop h ?_ hlen, ?_⟩
  · have := le_of_drop h (by omega)
    omega
  · rw [lineToUint64, decode_line, if_pos hn]

/-! ### Truth values -/

@[simp] theorem length_encodeBool (b : Bool) : (encodeBool b).length = 32 := by
  cases b <;> rfl

theorem byteAt_encodeBool {data rest : Bytes} {p : Nat} {b : Bool}
    (h : data.drop p = encodeBool b ++ rest) :
    ∃ byte, byteAt data (p + 31) = .ok byte ∧ (byte == 1) = b := by
  have hget : data[p + 31]? = (encodeBool b)[31]? := by
    rw [← List.getElem?_drop, h, List.getElem?_append_left (by simp)]
  unfold byteAt
  rw [hget]
  cases b
  · exact ⟨0, rfl, rfl⟩
  · exact ⟨1, rfl, rfl⟩

/-! ### Arrays -/

theorem decodeItems_eq_ok {α : Type} {item : Nat → Except Fail α} {xs : List α} {i : Nat}
    (h : ∀ j x, xs[j]? = some x → item (i + j) = .ok x) :
    decodeItems item i xs.length = .ok xs := by
  induction xs generalizing i with
  | nil => rfl
  | cons x xs ih =>
    have hrest : decodeItems item (i + 1) xs.length = .ok xs := by
      refine ih fun j y hy => ?_
      rw [show i + 1 + j = i + (j + 1) by omega]
      exact h (j + 1) y hy
    exact Except.bind_eq_ok.mpr ⟨x, h 0 x rfl, Except.bind_eq_ok.mpr ⟨xs, hrest, rfl⟩⟩

theorem drop_flatten_lines {items : List Bytes} (h : ∀ l ∈ items, l.length = 32) {j : Nat}
    {l : Bytes} (hl : items[j]? = some l) : ∃ rest, items.flatten.drop (j * 32) = l ++ rest := by
  induction items generalizing j with
  | nil => cases hl
  | cons l' items ih =>
    have hlen := h l' (by simp)
    cases j with
    | zero =>
      cases hl
      exact ⟨items.flatten, by simp⟩
    | succ j =>
      obtain ⟨rest, hrest⟩ := ih (fun l hl => h l (by simp [hl])) hl
      refine ⟨rest, ?_⟩
      rw [List.flatten_cons, Nat.succ_mul, Nat.add_comm, ← List.drop_drop,
        List.drop_left' hlen, hrest]

theorem length_flatten_lines {items : List Bytes} (h : ∀ l ∈ items, l.length = 32) :
    items.flatten.length = items.length * 32 := by
  induction items with
  | nil => rfl
  | cons l items ih =>
    rw [List.flatten_cons, List.length_append, h l (by simp), ih fun l hl => h l (by simp [hl]),
      List.length_cons]
    omega

theorem decodeStaticArr_of_drop {α : Type} {item : Nat → Except Fail α} {enc : α → Bytes}
    {xs : List α} {data lines rest : Bytes} {start next : Nat} (henc : ∀ x, (enc x).length = 32)
    (hitem : ∀ p x rest, data.drop p = enc x ++ rest → item p = .ok x)
    (hline : data.drop start = line next ++ lines)
    (harr : data.drop next = encodeStaticArr (xs.map enc) ++ rest) (hsize : data.length < 2 ^ 64) :
    decodeStaticArr item data start = .ok xs := by
  have hlines : ∀ l ∈ xs.map enc, l.length = 32 := by
    intro l hl
    obtain ⟨x, -, rfl⟩ := List.mem_map.mp hl
    exact henc x
  have hflat := length_flatten_lines hlines
  rw [List.length_map] at hflat
  rw [encodeStaticArr, List.length_map, List.append_assoc] at harr
  have hcount := le_length_line xs.length
  have hnext := le_of_drop harr (by omega)
  have hdata := congrArg List.length harr
  simp only [List.length_drop, List.length_append] at hdata
  have hlen : xs.length < 2 ^ 64 := by omega
  have hitems := drop_add_of_drop harr
  rw [length_line hlen] at hitems hnext hdata
  obtain ⟨hview, hnum⟩ := lineToUint64_of_drop hline (by omega)
  obtain ⟨hview', hnum'⟩ := lineToUint64_of_drop harr hlen
  refine Except.bind_eq_ok.mpr ⟨_, hview, Except.bind_eq_ok.mpr ⟨next, hnum,
    Except.bind_eq_ok.mpr ⟨_, hview', Except.bind_eq_ok.mpr ⟨xs.length, hnum', ?_⟩⟩⟩⟩
  have hmod : (next + 32 + xs.length * 32) % 2 ^ 64 = next + 32 + xs.length * 32 :=
    Nat.mod_eq_of_lt (by omega)
  refine guard_eq_ok.mpr ⟨by rw [hmod]; omega, ?_⟩
  refine decodeItems_eq_ok fun j x hx => ?_
  have hj : j < xs.length := (List.getElem?_eq_some_iff.mp hx).1
  have henc' : (xs.map enc)[j]? = some (enc x) := by rw [List.getElem?_map, hx]; rfl
  obtain ⟨rest', hrest'⟩ := drop_flatten_lines hlines henc'
  rw [Nat.zero_add, Nat.mod_eq_of_lt (by omega)]
  refine hitem _ x (rest' ++ rest) ?_
  rw [← List.drop_drop, hitems, List.drop_append_of_le_length (by omega), hrest',
    List.append_assoc]

/-! ### Strings -/

theorem le_paddedSize (n : Nat) : n ≤ paddedSize n := by
  unfold paddedSize
  split <;> omega

theorem length_encodeBytes {s : Bytes} (h : s.length < 2 ^ 64) :
    (encodeBytes s).length = 32 + paddedSize s.length := by
  have := le_paddedSize s.length
  simp only [encodeBytes, padRightBytes, List.length_append, List.length_replicate,
    length_line h]
  omega

theorem viewAt_encodeBytes {data rest : Bytes} {p : Nat} {s : Bytes}
    (h : data.drop p = encodeBytes s ++ rest) (hsize : data.length < 2 ^ 64) :
    s.length < 2 ^ 64 ∧ p + 32 + s.length ≤ data.length ∧
      (∃ tail, data.drop p = line s.length ++ tail) ∧
      viewAt data (p + 32) s.length = .ok s := by
  have hpad := le_paddedSize s.length
  rw [encodeBytes, padRightBytes, List.append_assoc, List.append_assoc] at h
  have hdata := congrArg List.length h
  simp only [List.length_drop, List.length_append] at hdata
  have hline := le_length_line s.length
  have hlen : s.length < 2 ^ 64 := by omega
  have hdrop := drop_add_of_drop h
  rw [length_line hlen] at hdata hdrop
  exact ⟨hlen, by omega, ⟨_, h⟩, viewAt_of_drop hdrop (by omega) rfl⟩

/-- A string is read back, although the check looks at the wrong place. -/
theorem decodeBytes_of_drop {data lines rest : Bytes} {start next : Nat} {s : Bytes}
    (hline : data.drop start = line next ++ lines)
    (hdrop : data.drop next = encodeBytes s ++ rest) (hstart : start + 32 ≤ next)
    (hsize : data.length < 2 ^ 64) : decodeBytes data start = .ok s := by
  obtain ⟨hlen, hend, ⟨tail, htail⟩, hview⟩ := viewAt_encodeBytes hdrop hsize
  obtain ⟨hview₁, hnum₁⟩ := lineToUint64_of_drop hline (by omega)
  obtain ⟨hview₂, hnum₂⟩ := lineToUint64_of_drop htail hlen
  refine Except.bind_eq_ok.mpr ⟨_, hview₁, Except.bind_eq_ok.mpr ⟨next, hnum₁,
    Except.bind_eq_ok.mpr ⟨_, hview₂, Except.bind_eq_ok.mpr ⟨s.length, hnum₂, ?_⟩⟩⟩⟩
  have hmod : (start + 32 + 32 + s.length) % 2 ^ 64 = start + 32 + 32 + s.length :=
    Nat.mod_eq_of_lt (by omega)
  exact guard_eq_ok.mpr ⟨by rw [hmod]; omega, hview⟩

/-- The offset of the `i`-th string of an array, from behind the length of the array. -/
def bytesOffset (ss : List Bytes) (i : Nat) : Nat :=
  32 * ss.length + 32 * i + ((ss.take i).map fun t => paddedSize t.length).sum

/-- The lines with the offsets. -/
def bytesOffsets (ss : List Bytes) : List Bytes :=
  (List.range ss.length).map fun i => line (bytesOffset ss i)

theorem encodeBytesArr_eq (ss : List Bytes) :
    encodeBytesArr ss =
      line ss.length ++ (bytesOffsets ss).flatten ++ (ss.map encodeBytes).flatten := by
  have hoffsets : (ss.zipIdx.map fun p =>
      line (32 * ss.length + 32 * p.2 + ((ss.take p.2).map fun t => paddedSize t.length).sum)) =
        bytesOffsets ss := by
    rw [bytesOffsets, List.range_eq_range', ← List.zipIdx_map_snd 0 ss, List.map_map]
    rfl
  show line ss.length ++ (ss.zipIdx.map _).flatten ++ _ = _
  rw [← hoffsets]

theorem length_flatten_encodeBytes {ss : List Bytes} (h : ∀ s ∈ ss, s.length < 2 ^ 64) :
    (ss.map encodeBytes).flatten.length =
      32 * ss.length + (ss.map fun t => paddedSize t.length).sum := by
  induction ss with
  | nil => rfl
  | cons s ss ih =>
    rw [List.map_cons, List.flatten_cons, List.length_append, length_encodeBytes (h s (by simp)),
      ih fun t ht => h t (by simp [ht]), List.map_cons, List.sum_cons, List.length_cons]
    omega

theorem drop_bytesOffset {ss : List Bytes} (h : ∀ s ∈ ss, s.length < 2 ^ 64) {i : Nat} {s : Bytes}
    (hs : ss[i]? = some s) {offsets : Bytes} (hoff : offsets.length = ss.length * 32) :
    ∃ rest, (offsets ++ (ss.map encodeBytes).flatten).drop (bytesOffset ss i) =
      encodeBytes s ++ rest := by
  obtain ⟨hi, hget⟩ := List.getElem?_eq_some_iff.mp hs
  have hsplit : ss = ss.take i ++ s :: ss.drop (i + 1) := by
    rw [← hget, List.getElem_cons_drop, List.take_append_drop]
  have hfront : ((ss.take i).map encodeBytes).flatten.length =
      32 * (ss.take i).length + ((ss.take i).map fun t => paddedSize t.length).sum :=
    length_flatten_encodeBytes fun t ht => h t (List.mem_of_mem_take ht)
  rw [List.length_take_of_le hi.le] at hfront
  refine ⟨((ss.drop (i + 1)).map encodeBytes).flatten, ?_⟩
  have hoffset : bytesOffset ss i =
      offsets.length + ((ss.take i).map encodeBytes).flatten.length := by
    rw [bytesOffset, hfront]
    omega
  have hbody : (ss.map encodeBytes).flatten = ((ss.take i).map encodeBytes).flatten ++
      (encodeBytes s ++ ((ss.drop (i + 1)).map encodeBytes).flatten) := by
    conv_lhs => rw [hsplit, List.map_append, List.flatten_append, List.map_cons,
      List.flatten_cons]
  rw [hoffset, ← List.drop_drop, List.drop_left, hbody, List.drop_left]

theorem length_le_flatten_encodeBytes {ss : List Bytes} {s : Bytes} (h : s ∈ ss) :
    s.length ≤ (ss.map encodeBytes).flatten.length := by
  induction ss with
  | nil => cases h
  | cons t ss ih =>
    rw [List.map_cons, List.flatten_cons, List.length_append]
    rcases List.mem_cons.mp h with rfl | h
    · simp only [encodeBytes, padRightBytes, List.length_append]
      omega
    · have := ih h
      omega

theorem le_length_flatten {items : List Bytes} (h : ∀ l ∈ items, 32 ≤ l.length) :
    items.length * 32 ≤ items.flatten.length := by
  induction items with
  | nil => exact Nat.le_refl _
  | cons l items ih =>
    have hl := h l (by simp)
    have hrest := ih fun l hl => h l (by simp [hl])
    rw [List.flatten_cons, List.length_append, List.length_cons]
    omega

theorem bytesOffset_le {ss : List Bytes} (h : ∀ s ∈ ss, s.length < 2 ^ 64) {i : Nat}
    (hi : i ≤ ss.length) :
    bytesOffset ss i ≤ ss.length * 32 + (ss.map encodeBytes).flatten.length := by
  have hall := length_flatten_encodeBytes h
  have htake : ((ss.take i).map fun t => paddedSize t.length).sum ≤
      (ss.map fun t => paddedSize t.length).sum :=
    ((List.take_sublist i ss).map _).sum_le_sum fun _ _ => Nat.zero_le _
  rw [bytesOffset, hall]
  omega

/-- The lines with the offsets of an array that is in the input are whole. -/
theorem length_bytesOffsets {ss : List Bytes} {bound : Nat} (hbound : bound < 2 ^ 64)
    (h : (bytesOffsets ss).flatten.length + (ss.map encodeBytes).flatten.length ≤ bound) :
    (∀ s ∈ ss, s.length < 2 ^ 64) ∧ (∀ l ∈ bytesOffsets ss, l.length = 32) ∧
      (bytesOffsets ss).flatten.length = ss.length * 32 ∧
      ∀ i ≤ ss.length, bytesOffset ss i ≤ bound := by
  have hcount : (bytesOffsets ss).length = ss.length := by
    rw [bytesOffsets, List.length_map, List.length_range]
  have hlines : (bytesOffsets ss).length * 32 ≤ (bytesOffsets ss).flatten.length := by
    refine le_length_flatten fun l hl => ?_
    obtain ⟨i, -, rfl⟩ := List.mem_map.mp hl
    exact le_length_line _
  have hshort : ∀ s ∈ ss, s.length < 2 ^ 64 := by
    intro s hs
    have := length_le_flatten_encodeBytes hs
    omega
  have hoffset : ∀ i ≤ ss.length, bytesOffset ss i ≤ bound := by
    intro i hi
    have := bytesOffset_le hshort hi
    omega
  have hwhole : ∀ l ∈ bytesOffsets ss, l.length = 32 := by
    intro l hl
    obtain ⟨i, hi, rfl⟩ := List.mem_map.mp hl
    exact length_line (lt_of_le_of_lt (hoffset i (List.mem_range.mp hi).le) hbound)
  exact ⟨hshort, hwhole, by rw [length_flatten_lines hwhole, hcount], hoffset⟩

theorem decodeBytesArr_of_drop {ss : List Bytes} {data lines rest : Bytes} {start next : Nat}
    (hline : data.drop start = line next ++ lines)
    (harr : data.drop next = encodeBytesArr ss ++ rest) (hsize : data.length < 2 ^ 64) :
    decodeBytesArr data start = .ok ss := by
  rw [encodeBytesArr_eq, List.append_assoc, List.append_assoc, ← List.append_assoc _ _ rest]
    at harr
  have hdata := congrArg List.length harr
  simp only [List.length_drop, List.length_append] at hdata
  have hcount := le_length_line ss.length
  have hnext := le_of_drop harr (by omega)
  obtain ⟨hshort, hwhole, hflat, hoffset⟩ :=
    length_bytesOffsets (show data.length - next - 32 < 2 ^ 64 by omega)
      (show (bytesOffsets ss).flatten.length + (ss.map encodeBytes).flatten.length ≤ _ by omega)
  have hlen : ss.length < 2 ^ 64 := by omega
  have hbase := drop_add_of_drop harr
  rw [length_line hlen] at hbase hdata
  obtain ⟨hview, hnum⟩ := lineToUint64_of_drop hline (by omega)
  obtain ⟨hview', hnum'⟩ := lineToUint64_of_drop harr hlen
  refine Except.bind_eq_ok.mpr ⟨_, hview, Except.bind_eq_ok.mpr ⟨next, hnum,
    Except.bind_eq_ok.mpr ⟨_, hview', Except.bind_eq_ok.mpr ⟨ss.length, hnum', ?_⟩⟩⟩⟩
  refine decodeItems_eq_ok fun j s hs => ?_
  have hj : j < ss.length := (List.getElem?_eq_some_iff.mp hs).1
  have hoff := hoffset j hj.le
  -- The line with the offset of the string.
  have hget : (bytesOffsets ss)[j]? = some (line (bytesOffset ss j)) := by
    rw [bytesOffsets, List.getElem?_map, List.getElem?_range hj]
    rfl
  obtain ⟨tail, htail⟩ := drop_flatten_lines hwhole hget
  have hplace : data.drop (next + 32 + j * 32) = line (bytesOffset ss j) ++
      (tail ++ ((ss.map encodeBytes).flatten ++ rest)) := by
    rw [← List.drop_drop, hbase, List.append_assoc, List.drop_append_of_le_length (by omega),
      htail, List.append_assoc]
  -- The string itself.
  obtain ⟨tail', htail'⟩ := drop_bytesOffset hshort hs hflat
  have hstring : data.drop (next + 32 + bytesOffset ss j) = encodeBytes s ++ (tail' ++ rest) := by
    rw [← List.drop_drop, hbase, List.drop_append_of_le_length, htail', List.append_assoc]
    rw [List.length_append]
    have := bytesOffset_le hshort hj.le
    omega
  obtain ⟨hstr, hend, ⟨tail'', htail''⟩, hview₃⟩ := viewAt_encodeBytes hstring hsize
  obtain ⟨hview₁, hnum₁⟩ := lineToUint64_of_drop hplace (by omega)
  obtain ⟨hview₂, hnum₂⟩ := lineToUint64_of_drop htail'' hstr
  have hstart : (bytesOffset ss j + next + 32) % 2 ^ 64 = next + 32 + bytesOffset ss j := by
    rw [Nat.mod_eq_of_lt (by omega)]
    omega
  have hline' : j * 32 % 2 ^ 64 = j * 32 := Nat.mod_eq_of_lt (by omega)
  rw [Nat.zero_add, hline']
  refine Except.bind_eq_ok.mpr ⟨_, hview₁, Except.bind_eq_ok.mpr ⟨bytesOffset ss j, hnum₁, ?_⟩⟩
  rw [hstart]
  refine Except.bind_eq_ok.mpr ⟨_, hview₂, Except.bind_eq_ok.mpr ⟨s.length, hnum₂, ?_⟩⟩
  have hmod : (next + 32 + bytesOffset ss j + 32 + s.length) % 2 ^ 64 =
      next + 32 + bytesOffset ss j + 32 + s.length := Nat.mod_eq_of_lt (by omega)
  exact guard_eq_ok.mpr ⟨by rw [hmod]; omega, hview₃⟩

/-! ### Lists of arguments -/

/-- The lines of the arguments, `nextOffset` being where the next dynamic part goes. -/
def heads : List Value → Nat → Bytes
  | [], _ => []
  | v :: vs, nextOffset =>
    match encodeValue v with
    | .inl l => l ++ heads vs nextOffset
    | .inr d => line nextOffset ++ heads vs (nextOffset + d.length)

/-- The dynamic parts of the arguments. -/
def tails : List Value → Bytes
  | [] => []
  | v :: vs =>
    match encodeValue v with
    | .inl _ => tails vs
    | .inr d => d ++ tails vs

section

variable {v : Value} {vs : List Value} {l d : Bytes} {next : Nat}

theorem heads_static (h : encodeValue v = .inl l) :
    heads (v :: vs) next = l ++ heads vs next := by rw [heads, h]

theorem heads_dynamic (h : encodeValue v = .inr d) :
    heads (v :: vs) next = line next ++ heads vs (next + d.length) := by rw [heads, h]

theorem tails_static (h : encodeValue v = .inl l) : tails (v :: vs) = tails vs := by rw [tails, h]

theorem tails_dynamic (h : encodeValue v = .inr d) : tails (v :: vs) = d ++ tails vs := by
  rw [tails, h]

theorem length_static (h : encodeValue v = .inl l) : l.length = 32 := by
  cases v with
  | uint256 x => cases h; simp
  | address a => cases h; simp
  | boolean b => cases h; simp
  | _ => cases h

theorem le_length_dynamic (h : encodeValue v = .inr d) : 32 ≤ d.length := by
  have hfirst : ∀ n (rest : Bytes), 32 ≤ (line n ++ rest).length := by
    intro n rest
    have := le_length_line n
    rw [List.length_append]
    omega
  cases v with
  | bytes s => cases h; exact hfirst _ _
  | uint256Arr xs => cases h; exact hfirst _ _
  | addressArr as => cases h; exact hfirst _ _
  | booleanArr bs => cases h; exact hfirst _ _
  | bytesArr ss =>
    cases h
    rw [encodeBytesArr_eq, List.append_assoc]
    exact hfirst _ _
  | _ => cases h

end

/-- The loop of the encoder writes the lines first and the dynamic parts behind them. -/
theorem encodeLoop_eq (vs : List Value) (lines dynamicStr : Bytes) (next : Nat) :
    encodeLoop vs lines dynamicStr next = lines ++ heads vs next ++ (dynamicStr ++ tails vs) := by
  induction vs generalizing lines dynamicStr next with
  | nil => simp [encodeLoop, heads, tails]
  | cons v vs ih =>
    cases hv : encodeValue v with
    | inl l =>
      rw [encodeLoop, hv, heads_static hv, tails_static hv]
      show encodeLoop vs (lines ++ l) dynamicStr next = _
      rw [ih]
      simp
    | inr d =>
      rw [encodeLoop, hv, heads_dynamic hv, tails_dynamic hv]
      show encodeLoop vs (lines ++ line next) (dynamicStr ++ d) (next + d.length) = _
      rw [ih]
      simp

theorem le_length_heads (vs : List Value) (next : Nat) :
    32 * vs.length ≤ (heads vs next).length := by
  induction vs generalizing next with
  | nil => exact Nat.le_refl _
  | cons v vs ih =>
    cases hv : encodeValue v with
    | inl l =>
      have := ih next
      rw [heads_static hv, List.length_append, length_static hv, List.length_cons]
      omega
    | inr d =>
      have := ih (next + d.length)
      have := le_length_line next
      rw [heads_dynamic hv, List.length_append, List.length_cons]
      omega

theorem length_heads {vs : List Value} {next : Nat} (h : next + (tails vs).length < 2 ^ 64) :
    (heads vs next).length = 32 * vs.length := by
  induction vs generalizing next with
  | nil => rfl
  | cons v vs ih =>
    cases hv : encodeValue v with
    | inl l =>
      rw [tails_static hv] at h
      rw [heads_static hv, List.length_append, length_static hv, ih h, List.length_cons]
      omega
    | inr d =>
      rw [tails_dynamic hv, List.length_append] at h
      rw [heads_dynamic hv, List.length_append, length_line (by omega), ih (by omega),
        List.length_cons]
      omega

/-- The types a value can be decoded as: strings and bytes are the same. -/
inductive Fits : Types → Value → Prop where
  | uint256 (x : Uint256) : Fits .uint256 (.uint256 x)
  | uint256Arr (xs : List Uint256) : Fits .uint256Arr (.uint256Arr xs)
  | address (a : Address) : Fits .address (.address a)
  | addressArr (as : List Address) : Fits .addressArr (.addressArr as)
  | boolean (b : Bool) : Fits .boolean (.boolean b)
  | booleanArr (bs : List Bool) : Fits .booleanArr (.booleanArr bs)
  | bytes (s : Bytes) : Fits .bytes (.bytes s)
  | bytesArr (ss : List Bytes) : Fits .bytesArr (.bytesArr ss)
  | string (s : Bytes) : Fits .string (.bytes s)
  | stringArr (ss : List Bytes) : Fits .stringArr (.bytesArr ss)

theorem decodeValue_static {type : Types} {v : Value} {l data rest : Bytes} {pos : Nat}
    (hfits : Fits type v) (hv : encodeValue v = .inl l) (hdrop : data.drop pos = l ++ rest) :
    decodeValue data pos type = .ok v := by
  have hend := le_of_drop hdrop (by rw [length_static hv]; decide)
  rw [length_static hv] at hend
  cases hfits with
  | uint256 x =>
    cases hv
    exact Except.bind_eq_ok.mpr ⟨x, liftExn_eq_ok.mpr (decodeUint256_of_drop hdrop), rfl⟩
  | address a =>
    cases hv
    exact Except.bind_eq_ok.mpr ⟨a, liftExn_eq_ok.mpr (decodeAddress_of_drop hdrop), rfl⟩
  | boolean b =>
    cases hv
    obtain ⟨byte, hbyte, hb⟩ := byteAt_encodeBool hdrop
    have hread : decodeBool data pos = .ok b := by
      unfold decodeBool
      refine guard_eq_ok.mpr ⟨not_lt.mpr hend, ?_⟩
      refine Except.bind_eq_ok.mpr ⟨byte, hbyte, ?_⟩
      rw [hb]
      rfl
    exact Except.bind_eq_ok.mpr ⟨b, hread, rfl⟩
  | _ => cases hv

theorem decodeValue_dynamic {type : Types} {v : Value} {d data lines rest : Bytes} {pos next : Nat}
    (hfits : Fits type v) (hv : encodeValue v = .inr d)
    (hline : data.drop pos = line next ++ lines) (hdrop : data.drop next = d ++ rest)
    (hpos : pos + 32 ≤ next) (hsize : data.length < 2 ^ 64) :
    decodeValue data pos type = .ok v := by
  cases hfits with
  | uint256Arr xs =>
    cases hv
    refine Except.bind_eq_ok.mpr ⟨xs, ?_, rfl⟩
    refine decodeStaticArr_of_drop length_encodeUint256 (fun p x rest hp => ?_) hline hdrop hsize
    have hend := le_of_drop hp (by simp)
    exact Except.bind_eq_ok.mpr ⟨_, viewAt_of_drop hp (by omega) (length_encodeUint256 x),
      liftExn_eq_ok.mpr (fromBigEndian256_encodeUint256 x)⟩
  | addressArr as =>
    cases hv
    refine Except.bind_eq_ok.mpr ⟨as, ?_, rfl⟩
    refine decodeStaticArr_of_drop length_encodeAddress (fun p a rest hp => ?_) hline hdrop hsize
    have hend := le_of_drop hp (by simp)
    rw [length_encodeAddress] at hend
    refine Except.bind_eq_ok.mpr ⟨a.data,
      viewAt_of_drop (drop_encodeAddress hp) (by omega) a.size_eq, ?_⟩
    rw [ofBytes_address]
    rfl
  | booleanArr bs =>
    cases hv
    refine Except.bind_eq_ok.mpr ⟨bs, ?_, rfl⟩
    refine decodeStaticArr_of_drop length_encodeBool (fun p b rest hp => ?_) hline hdrop hsize
    have hend := le_of_drop hp (by simp)
    rw [length_encodeBool] at hend
    obtain ⟨byte, hbyte, hb⟩ := byteAt_encodeBool hp
    rw [Nat.mod_eq_of_lt (by omega)]
    refine Except.bind_eq_ok.mpr ⟨byte, hbyte, ?_⟩
    rw [hb]
    rfl
  | bytes s =>
    cases hv
    exact Except.bind_eq_ok.mpr ⟨s, decodeBytes_of_drop hline hdrop hpos hsize, rfl⟩
  | string s =>
    cases hv
    exact Except.bind_eq_ok.mpr ⟨s, decodeBytes_of_drop hline hdrop hpos hsize, rfl⟩
  | bytesArr ss =>
    cases hv
    exact Except.bind_eq_ok.mpr ⟨ss, decodeBytesArr_of_drop hline hdrop hsize, rfl⟩
  | stringArr ss =>
    cases hv
    exact Except.bind_eq_ok.mpr ⟨ss, decodeBytesArr_of_drop hline hdrop hsize, rfl⟩
  | _ => cases hv

/-- The loop of the decoder: the lines start at `pos`, the dynamic parts at `next`. -/
theorem decodeLoop_of_drop {types : List Types} {vs : List Value}
    (hfits : List.Forall₂ Fits types vs) {data lines rest : Bytes} {pos next : Nat}
    (hheads : data.drop pos = heads vs next ++ lines)
    (htails : data.drop next = tails vs ++ rest) (hpos : pos + 32 * vs.length ≤ next)
    (hsize : data.length < 2 ^ 64) : decodeLoop data types pos = .ok vs := by
  induction hfits generalizing pos next with
  | nil => rfl
  | @cons type v types vs hfit _ ih =>
    rw [List.length_cons] at hpos
    cases hv : encodeValue v with
    | inl l =>
      rw [heads_static hv, List.append_assoc] at hheads
      rw [tails_static hv] at htails
      have hlines := drop_add_of_drop hheads
      rw [length_static hv] at hlines
      exact Except.bind_eq_ok.mpr ⟨v, decodeValue_static hfit hv hheads,
        Except.bind_eq_ok.mpr ⟨vs, ih hlines htails (by omega), rfl⟩⟩
    | inr d =>
      rw [heads_dynamic hv, List.append_assoc] at hheads
      rw [tails_dynamic hv, List.append_assoc] at htails
      have hd := le_length_dynamic hv
      have hend := le_of_drop htails (by omega)
      have hlines := drop_add_of_drop hheads
      rw [length_line (by omega)] at hlines
      exact Except.bind_eq_ok.mpr ⟨v, decodeValue_dynamic hfit hv hheads htails (by omega) hsize,
        Except.bind_eq_ok.mpr ⟨vs, ih hlines (drop_add_of_drop htails) (by omega), rfl⟩⟩

/-- **Arguments come back from their encoding**, whatever their number and kinds and however
    long their strings and arrays are, as long as all of it is below 2³¹ bytes. -/
theorem decode_encode {types : List Types} {vs : List Value}
    (hfits : List.Forall₂ Fits types vs) (hsize : (encode vs).length < 2 ^ 31) :
    decode types (encode vs) = .ok vs := by
  have henc : encode vs = heads vs (32 * vs.length) ++ tails vs := by
    rw [encode, encodeLoop_eq]
    simp
  have hle := le_length_heads vs (32 * vs.length)
  rw [henc, List.length_append] at hsize
  have hlen : (heads vs (32 * vs.length)).length = 32 * vs.length := length_heads (by omega)
  rw [henc]
  have htails : (heads vs (32 * vs.length) ++ tails vs).drop (32 * vs.length) =
      tails vs ++ [] := by
    rw [List.drop_left' hlen, List.append_nil]
  refine decodeLoop_of_drop hfits rfl htails (by omega) ?_
  rw [List.length_append]
  omega

/-- A number, an array with a string of odd length and an empty one, an empty array, a truth
    value and an empty string. -/
def sampleArgs : List Value :=
  [.uint256 7, .bytesArr [[1, 2, 3], []], .addressArr [], .boolean true, .bytes []]

theorem decode_encode_sample :
    decode [.uint256, .stringArr, .addressArr, .boolean, .string] (encode sampleArgs) =
      .ok sampleArgs :=
  decode_encode (.cons (.uint256 7) (.cons (.stringArr _) (.cons (.addressArr [])
    (.cons (.boolean true) (.cons (.string []) .nil))))) (by decide +kernel)

end Abi

end OrbiterSdk
