import OrbiterSdk.Lib.Cursor

/-!
# Loops over entries

`while (index < size) { … }`: a decoder reads one entry after the other, and each entry says
where the next one starts.

* `readAll` — the loop, with fuel;
* `Path` — entries that are read one after the other.

With a reader that moves forward the loop comes to an end (`readAll_ne_none`), and it returns
or fails exactly as the paths from its start say (`path_of_readAll`, `path_of_readAll_error` and
`Path.readAll_ok`, `Path.readAll_error`).  Entries that stand one after the other form a path
(`path_of_at`), so a list of them is read back (`readAll_flatMap`).  A path that ends inside the
payload has gone over complete entries (`Path.concatenation`).
-/

namespace Cursor

variable {α β ε : Type}

/-- Entries up to the end; `none` when the fuel runs out. -/
def readAll (read : Nat → Except ε (α × Nat)) (size : Nat) :
    Nat → Nat → Option (Except ε (List α))
  | 0, _ => none
  | fuel + 1, i =>
    if i < size then
      match read i with
      | .error e => some (.error e)
      | .ok (x, j) => (readAll read size fuel j).map (Except.map (x :: ·))
    else some (.ok [])

/-- From `i` on the entries are read one after the other; the next index is the last one. -/
inductive Path (read : Nat → Except ε (α × Nat)) (size : Nat) : Nat → List α → Nat → Prop
  | nil (i : Nat) : Path read size i [] i
  | cons {i j k : Nat} {x : α} {xs : List α} (hi : i < size) (hread : read i = .ok (x, j))
      (hpath : Path read size j xs k) : Path read size i (x :: xs) k

/-- Every entry moves the index forward. -/
def Advances (read : Nat → Except ε (α × Nat)) (size : Nat) : Prop :=
  ∀ i x j, i < size → read i = .ok (x, j) → i < j

section

variable {read : Nat → Except ε (α × Nat)} {size fuel i j : Nat} {x : α} {xs : List α} {e : ε}

theorem readAll_of_ge (h : size ≤ i) : readAll read size (fuel + 1) i = some (.ok []) :=
  if_neg (by omega)

theorem readAll_of_error (hi : i < size) (h : read i = .error e) :
    readAll read size (fuel + 1) i = some (.error e) := by
  rw [readAll, if_pos hi, h]

theorem readAll_of_ok (hi : i < size) (h : read i = .ok (x, j)) :
    readAll read size (fuel + 1) i = (readAll read size fuel j).map (Except.map (x :: ·)) := by
  rw [readAll, if_pos hi, h]

/-- **The loop comes to an end.** -/
theorem readAll_ne_none (hadv : Advances read size) (hfuel : size - i < fuel) :
    readAll read size fuel i ≠ none := by
  induction fuel generalizing i with
  | zero => omega
  | succ fuel ih =>
    by_cases hi : i < size
    · cases hread : read i with
      | error e =>
        rw [readAll_of_error hi hread]
        exact Option.some_ne_none _
      | ok p =>
        obtain ⟨x, j⟩ := p
        -- what is left shrinks by more than the one unit of fuel
        have hmove := hadv i x j hi hread
        rw [readAll_of_ok hi hread, Ne, Option.map_eq_none_iff]
        exact ih (by omega)
    · rw [readAll_of_ge (by omega)]
      exact Option.some_ne_none _

theorem path_of_readAll (h : readAll read size fuel i = some (.ok xs)) :
    ∃ j, Path read size i xs j ∧ size ≤ j := by
  induction fuel generalizing i xs with
  | zero => cases h
  | succ fuel ih =>
    by_cases hi : i < size
    · cases hread : read i with
      | error e =>
        rw [readAll_of_error hi hread] at h
        cases h
      | ok p =>
        obtain ⟨x, j⟩ := p
        rw [readAll_of_ok hi hread] at h
        obtain ⟨r, hr, hmap⟩ := Option.map_eq_some_iff.mp h
        cases r with
        | error e => cases hmap
        | ok ys =>
          cases hmap
          obtain ⟨k, hpath, hk⟩ := ih hr
          exact ⟨k, .cons hi hread hpath, hk⟩
    · rw [readAll_of_ge (by omega)] at h
      cases h
      exact ⟨i, .nil i, by omega⟩

/-- Where the loop fails, a path ends at an entry that cannot be read. -/
theorem path_of_readAll_error (h : readAll read size fuel i = some (.error e)) :
    ∃ xs j, Path read size i xs j ∧ j < size ∧ read j = .error e := by
  induction fuel generalizing i with
  | zero => cases h
  | succ fuel ih =>
    by_cases hi : i < size
    · cases hread : read i with
      | error e' =>
        rw [readAll_of_error hi hread] at h
        cases h
        exact ⟨[], i, .nil i, hi, hread⟩
      | ok p =>
        obtain ⟨x, j⟩ := p
        rw [readAll_of_ok hi hread] at h
        obtain ⟨r, hr, hmap⟩ := Option.map_eq_some_iff.mp h
        cases r with
        | ok ys => cases hmap
        | error e' =>
          cases hmap
          obtain ⟨xs, k, hpath, hk, herr⟩ := ih hr
          exact ⟨x :: xs, k, .cons hi hread hpath, hk, herr⟩
    · rw [readAll_of_ge (by omega)] at h
      cases h

theorem Path.readAll_ok (h : Path read size i xs j) (hj : size ≤ j) (hadv : Advances read size)
    (hfuel : size - i < fuel) : readAll read size fuel i = some (.ok xs) := by
  induction h generalizing fuel with
  | nil i =>
    obtain ⟨n, rfl⟩ : ∃ n, fuel = n + 1 := ⟨fuel - 1, by omega⟩
    exact readAll_of_ge hj
  | cons hi hread hpath ih =>
    obtain ⟨n, rfl⟩ : ∃ n, fuel = n + 1 := ⟨fuel - 1, by omega⟩
    have hmove := hadv _ _ _ hi hread
    rw [readAll_of_ok hi hread, ih hj (by omega)]
    rfl

theorem Path.readAll_error (h : Path read size i xs j) (hj : j < size) (herr : read j = .error e)
    (hadv : Advances read size) (hfuel : size - i < fuel) :
    readAll read size fuel i = some (.error e) := by
  induction h generalizing fuel with
  | nil i =>
    obtain ⟨n, rfl⟩ : ∃ n, fuel = n + 1 := ⟨fuel - 1, by omega⟩
    exact readAll_of_error hj herr
  | cons hi hread hpath ih =>
    obtain ⟨n, rfl⟩ : ∃ n, fuel = n + 1 := ⟨fuel - 1, by omega⟩
    have hmove := hadv _ _ _ hi hread
    rw [readAll_of_ok hi hread, ih hj herr (by omega)]
    rfl

end

theorem path_of_at {read : List β → Nat → Except ε (α × Nat)} {enc : α → List β} {bs : List β}
    {i : Nat} {xs : List α} (hreads : ∀ x ∈ xs, Reads read (enc x) x) (hne : ∀ x, enc x ≠ [])
    (h : At bs i (xs.flatMap enc)) :
    Path (read bs) bs.length i xs (i + (xs.flatMap enc).length) := by
  induction xs generalizing i with
  | nil => exact .nil i
  | cons x xs ih =>
    rw [List.flatMap_cons] at h ⊢
    obtain ⟨hx, hxs⟩ := at_append.mp h
    have hpos := List.length_pos_iff.mpr (hne x)
    have hle := hx.length_le (hne x)
    rw [List.length_append, ← Nat.add_assoc]
    refine .cons (by omega) (hreads x List.mem_cons_self bs i hx) ?_
    exact ih (fun y hy => hreads y (List.mem_cons_of_mem x hy)) hxs

/-- **Entries that can be read are read back one after the other.** -/
theorem readAll_flatMap {read : List β → Nat → Except ε (α × Nat)} {enc : α → List β} {xs : List α}
    (hreads : ∀ x ∈ xs, Reads read (enc x) x) (hne : ∀ x, enc x ≠ [])
    (hadv : Advances (read (xs.flatMap enc)) (xs.flatMap enc).length) :
    readAll (read (xs.flatMap enc)) (xs.flatMap enc).length ((xs.flatMap enc).length + 1) 0 =
      some (.ok xs) := by
  have hat : At (xs.flatMap enc) 0 (xs.flatMap enc) := List.prefix_rfl
  exact (path_of_at hreads hne hat).readAll_ok (by omega) hadv (by omega)

/-! ### Payloads made of entries -/

section

variable {read : Nat → Except ε (α × Nat)} {bs : List β} {i j : Nat} {xs : List α}
  {E : List β → Prop}

/-- One entry after the other and nothing else. -/
def Concatenation (E : List β → Prop) (bs : List β) : Prop :=
  ∃ cs : List (List β), bs = cs.flatten ∧ ∀ c ∈ cs, E c

theorem Concatenation.cons {c bs : List β} (hc : E c) (h : Concatenation E bs) :
    Concatenation E (c ++ bs) := by
  obtain ⟨cs, rfl, hcs⟩ := h
  refine ⟨c :: cs, rfl, ?_⟩
  intro d hd
  rcases List.mem_cons.mp hd with rfl | hd
  · exact hc
  · exact hcs d hd

theorem Path.le {size : Nat} (h : Path read size i xs j) (hadv : Advances read size) : i ≤ j := by
  induction h with
  | nil i => exact le_rfl
  | cons hi hread hpath ih => exact (hadv _ _ _ hi hread).le.trans ih

theorem Path.concatenation (h : Path read bs.length i xs j) (hj : j ≤ bs.length)
    (hadv : Advances read bs.length)
    (hentry : ∀ i x j, read i = .ok (x, j) → j ≤ bs.length → E ((bs.drop i).take (j - i))) :
    Concatenation E ((bs.drop i).take (j - i)) := by
  induction h with
  | nil i =>
    rw [Nat.sub_self, List.take_zero]
    exact ⟨[], rfl, List.forall_mem_nil E⟩
  | @cons i k j x xs hi hread hpath ih =>
    have hik := hadv _ _ _ hi hread
    have hkj := hpath.le hadv
    -- the first entry ends at `k`, the others follow
    have hsplit : (bs.drop i).take (j - i) =
        (bs.drop i).take (k - i) ++ (bs.drop k).take (j - k) := by
      rw [show j - i = (k - i) + (j - k) by omega, List.take_add, List.drop_drop,
        show i + (k - i) = k by omega]
    rw [hsplit]
    exact Concatenation.cons (hentry _ _ _ hread (hkj.trans hj)) (ih hj)

/-- Over a payload of complete entries a path goes from entry to entry. -/
theorem Path.le_of_concatenation (h : Path read bs.length i xs j) (hi : i ≤ bs.length)
    (hbs : Concatenation E (bs.drop i))
    (hnext : ∀ i c x j, At bs i c → E c → read i = .ok (x, j) → j = i + c.length) :
    j ≤ bs.length := by
  induction h with
  | nil i => exact hi
  | cons hlt hread hpath ih =>
    obtain ⟨cs, hdrop, hcs⟩ := hbs
    cases cs with
    | nil =>
      -- the payload is not used up at the start of a step
      have := List.drop_eq_nil_iff.mp hdrop
      omega
    | cons c cs =>
      rw [List.flatten_cons] at hdrop
      have hat : At bs _ c := ⟨cs.flatten, hdrop.symm⟩
      have hj := hnext _ _ _ _ hat (hcs c List.mem_cons_self) hread
      have hlen := congrArg List.length hdrop
      rw [List.length_drop, List.length_append] at hlen
      refine ih (by omega) ⟨cs, ?_, fun d hd => hcs d (List.mem_cons_of_mem c hd)⟩
      rw [hj, ← List.drop_drop, hdrop, List.drop_left]

end

end Cursor
