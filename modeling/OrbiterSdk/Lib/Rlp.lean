import OrbiterSdk.Lib.BigEndian

/-!
# Headers of the recursive length prefix encoding

An item is a byte below `0x80`, or a header that says how long its payload is, and the payload.

* `header` — what the first bytes of an item say, by the rules of the encoding: a single byte,
  a short or a long string, a short or a long list;
* `IsItem` — a header and exactly the payload it announces;
* `split` — the items of a payload, one after the other as the headers say;
* `IsListOf` — a list header that announces exactly what follows it, in front of given items.

Items keep their headers in front of other bytes (`header_append`), so a concatenation of items
is split into them again (`split_flatten`) and makes a list (`isListOf_short`, `isListOf_long`).
-/

namespace Rlp

/-! ### Headers -/

/-- Strings hold bytes, lists hold items. -/
inductive Kind where
  | string
  | list
deriving DecidableEq

/-- What the first bytes of an item say.  A single byte has a header of no bytes. -/
structure Header where
  kind : Kind
  headerSize : Nat
  payloadSize : Nat
deriving DecidableEq

/-- A length of `n` bytes behind the first one. -/
def longHeader (kind : Kind) (n : Nat) (bs : List UInt8) : Option Header :=
  if n ≤ bs.length then some ⟨kind, 1 + n, BigEndian.decode (bs.take n)⟩ else none

/-- The header at the start of `bs`; `none` where it is not complete. -/
def header : List UInt8 → Option Header
  | [] => none
  | b :: bs =>
    if b.toNat < 0x80 then some ⟨.string, 0, 1⟩
    else if b.toNat ≤ 0xb7 then some ⟨.string, 1, b.toNat - 0x80⟩
    else if b.toNat ≤ 0xbf then longHeader .string (b.toNat - 0xb7) bs
    else if b.toNat ≤ 0xf7 then some ⟨.list, 1, b.toNat - 0xc0⟩
    else longHeader .list (b.toNat - 0xf7) bs

/-- A header and exactly the payload it announces. -/
def IsItem (bs : List UInt8) : Prop :=
  ∃ h, header bs = some h ∧ h.headerSize + h.payloadSize = bs.length

section

variable {bs rest : List UInt8} {h : Header} {b : UInt8} {n : Nat} {kind : Kind}

theorem longHeader_append (hlong : longHeader kind n bs = some h) :
    longHeader kind n (bs ++ rest) = some h := by
  unfold longHeader at hlong ⊢
  split at hlong
  · next hn =>
    rw [if_pos (by rw [List.length_append]; omega), List.take_append_of_le_length hn]
    exact hlong
  · cases hlong

theorem header_append (hbs : header bs = some h) : header (bs ++ rest) = some h := by
  cases bs with
  | nil => cases hbs
  | cons b bs =>
    rw [List.cons_append]
    rw [header] at hbs ⊢
    by_cases hbyte : b.toNat < 0x80
    · rwa [if_pos hbyte] at hbs ⊢
    · rw [if_neg hbyte] at hbs ⊢
      by_cases hshort : b.toNat ≤ 0xb7
      · rwa [if_pos hshort] at hbs ⊢
      · rw [if_neg hshort] at hbs ⊢
        by_cases hlong : b.toNat ≤ 0xbf
        · rw [if_pos hlong] at hbs ⊢
          exact longHeader_append hbs
        · rw [if_neg hlong] at hbs ⊢
          by_cases hlist : b.toNat ≤ 0xf7
          · rwa [if_pos hlist] at hbs ⊢
          · rw [if_neg hlist] at hbs ⊢
            exact longHeader_append hbs

theorem IsItem.ne_nil (hitem : IsItem bs) : bs ≠ [] := by
  rintro rfl
  obtain ⟨h, hh, -⟩ := hitem
  cases hh

/-! ### Items -/

theorem toNat_ofNat (hn : n < 256) : (UInt8.ofNat n).toNat = n := by
  rw [UInt8.toNat_ofNat']
  exact Nat.mod_eq_of_lt hn

theorem isItem_byte (hb : b.toNat < 0x80) : IsItem [b] := ⟨_, if_pos hb, rfl⟩

theorem isItem_empty : IsItem [0x80] := ⟨⟨.string, 1, 0⟩, rfl, rfl⟩

theorem isItem_short (hlen : bs.length ≤ 55) : IsItem (UInt8.ofNat (bs.length + 0x80) :: bs) := by
  have hbyte := toNat_ofNat (show bs.length + 0x80 < 256 by omega)
  refine ⟨⟨.string, 1, bs.length⟩, ?_, Nat.add_comm 1 bs.length⟩
  rw [header, hbyte, if_neg (by omega), if_pos (by omega), Nat.add_sub_cancel]

theorem longHeader_minimal (kind : Kind) (bs : List UInt8) :
    longHeader kind (BigEndian.minimal bs.length).length (BigEndian.minimal bs.length ++ bs) =
      some ⟨kind, 1 + (BigEndian.minimal bs.length).length, bs.length⟩ := by
  rw [longHeader, if_pos (by rw [List.length_append]; omega), List.take_left,
    BigEndian.decode_minimal]

theorem isItem_long (hpos : 0 < bs.length) (hlen : bs.length < 2 ^ 64) :
    IsItem (UInt8.ofNat ((BigEndian.minimal bs.length).length + 0xb7) ::
      (BigEndian.minimal bs.length ++ bs)) := by
  have hone := List.length_pos_iff.mpr (BigEndian.minimal_ne_nil hpos)
  have height : (BigEndian.minimal bs.length).length ≤ 8 :=
    BigEndian.length_minimal_le (show bs.length < 256 ^ 8 by omega)
  have hbyte := toNat_ofNat (show (BigEndian.minimal bs.length).length + 0xb7 < 256 by omega)
  refine ⟨⟨.string, 1 + (BigEndian.minimal bs.length).length, bs.length⟩, ?_, ?_⟩
  · rw [header, hbyte, if_neg (by omega), if_neg (by omega), if_pos (by omega),
      Nat.add_sub_cancel, longHeader_minimal]
  · rw [List.length_cons, List.length_append, Nat.add_comm 1, Nat.add_right_comm]

/-! ### Lists -/

/-- The items of a payload, one after the other as their headers say; `none` where a header or
    its payload is not complete. -/
def split : Nat → List UInt8 → Option (List (List UInt8))
  | _, [] => some []
  | 0, _ :: _ => none
  | fuel + 1, b :: bs =>
    match header (b :: bs) with
    | none => none
    | some h =>
      if h.headerSize + h.payloadSize ≤ (b :: bs).length then
        (split fuel ((b :: bs).drop (h.headerSize + h.payloadSize))).map
          ((b :: bs).take (h.headerSize + h.payloadSize) :: ·)
      else none

/-- `bs` is a list: its header announces exactly the bytes that follow it, and they are the
    given items. -/
def IsListOf (items : List (List UInt8)) (bs : List UInt8) : Prop :=
  ∃ n, header bs = some ⟨.list, n, (bs.drop n).length⟩ ∧
    split (bs.drop n).length (bs.drop n) = some items ∧ ∀ item ∈ items, IsItem item

theorem split_append {item : List UInt8} {fuel : Nat} (hitem : IsItem item) :
    split (fuel + 1) (item ++ rest) = (split fuel rest).map (item :: ·) := by
  obtain ⟨h, hh, hlen⟩ := hitem
  have happ : header (item ++ rest) = some h := header_append hh
  have hdrop : (item ++ rest).drop (h.headerSize + h.payloadSize) = rest := by
    rw [hlen, List.drop_left]
  have htake : (item ++ rest).take (h.headerSize + h.payloadSize) = item := by
    rw [hlen, List.take_left]
  have hle : h.headerSize + h.payloadSize ≤ (item ++ rest).length := by
    rw [List.length_append]
    omega
  cases hbs : item ++ rest with
  | nil =>
    rw [hbs] at happ
    cases happ
  | cons b bs =>
    rw [hbs] at happ hdrop htake hle
    rw [split, happ]
    dsimp only
    rw [if_pos hle, hdrop, htake]

/-- **A concatenation of items is split into them.** -/
theorem split_flatten {items : List (List UInt8)} (hitems : ∀ item ∈ items, IsItem item)
    {fuel : Nat} (hfuel : items.flatten.length ≤ fuel) :
    split fuel items.flatten = some items := by
  induction items generalizing fuel with
  | nil =>
    rw [List.flatten_nil, split]
  | cons item items ih =>
    obtain ⟨hitem, hitems⟩ := List.forall_mem_cons.mp hitems
    have hpos := List.length_pos_iff.mpr hitem.ne_nil
    rw [List.flatten_cons, List.length_append] at hfuel
    obtain ⟨fuel, rfl⟩ : ∃ k, fuel = k + 1 := ⟨fuel - 1, by omega⟩
    rw [List.flatten_cons, split_append hitem, ih hitems (by omega)]
    rfl

theorem isListOf_of_header {items : List (List UInt8)} {front : List UInt8}
    (hheader : header (front ++ items.flatten) =
      some ⟨.list, front.length, items.flatten.length⟩)
    (hitems : ∀ item ∈ items, IsItem item) : IsListOf items (front ++ items.flatten) := by
  refine ⟨front.length, ?_, ?_, hitems⟩
  · rw [List.drop_left]
    exact hheader
  · rw [List.drop_left]
    exact split_flatten hitems le_rfl

theorem isListOf_short {items : List (List UInt8)} (hitems : ∀ item ∈ items, IsItem item)
    (hlen : items.flatten.length ≤ 55) :
    IsListOf items ([UInt8.ofNat (items.flatten.length + 0xc0)] ++ items.flatten) := by
  have hbyte := toNat_ofNat (show items.flatten.length + 0xc0 < 256 by omega)
  refine isListOf_of_header ?_ hitems
  rw [List.singleton_append, header, hbyte, if_neg (by omega), if_neg (by omega),
    if_neg (by omega), if_pos (by omega), Nat.add_sub_cancel, List.length_singleton]

theorem isListOf_long {items : List (List UInt8)} (hitems : ∀ item ∈ items, IsItem item)
    (hpos : 0 < items.flatten.length) (hlen : items.flatten.length < 2 ^ 64) :
    IsListOf items (UInt8.ofNat ((BigEndian.minimal items.flatten.length).length + 0xf7) ::
      BigEndian.minimal items.flatten.length ++ items.flatten) := by
  have hone := List.length_pos_iff.mpr (BigEndian.minimal_ne_nil hpos)
  have height : (BigEndian.minimal items.flatten.length).length ≤ 8 :=
    BigEndian.length_minimal_le (show items.flatten.length < 256 ^ 8 by omega)
  have hbyte := toNat_ofNat
    (show (BigEndian.minimal items.flatten.length).length + 0xf7 < 256 by omega)
  refine isListOf_of_header ?_ hitems
  rw [List.cons_append, header, hbyte, if_neg (by omega), if_neg (by omega), if_neg (by omega),
    if_neg (by omega), Nat.add_sub_cancel, longHeader_minimal, List.length_cons, Nat.add_comm]

end

end Rlp
