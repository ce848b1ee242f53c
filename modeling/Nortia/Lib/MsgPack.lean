import Nortia.Lib.Digits

/-!
# MessagePack

The grammar of MessagePack values. A value starts with a header, a marker byte that may have a count
behind it; the header says whether bytes or further values follow, and how many.
-/

namespace Lib.MsgPack

/-- What follows a header. -/
inductive Follow where
  | bytes (n : Nat)
  | values (n : Nat)
deriving DecidableEq, Repr

/-- What a marker says: what follows it, or the width of the count that stands between. -/
inductive Marker where
  | fixed (follow : Follow)
  | counted (width : Nat) (follow : Nat → Follow)

/-- The marker bytes; `0xc1` is none. -/
def marker (b : UInt8) : Option Marker :=
  if b ≤ 0x7f then some (.fixed (.bytes 0))
  else if b ≤ 0x8f then some (.fixed (.values (2 * (b.toNat % 16))))
  else if b ≤ 0x9f then some (.fixed (.values (b.toNat % 16)))
  else if b ≤ 0xbf then some (.fixed (.bytes (b.toNat % 32)))
  else if 0xe0 ≤ b then some (.fixed (.bytes 0))
  else if b = 0xc0 ∨ b = 0xc2 ∨ b = 0xc3 then some (.fixed (.bytes 0))
  else if b = 0xc4 ∨ b = 0xd9 then some (.counted 1 .bytes)
  else if b = 0xc5 ∨ b = 0xda then some (.counted 2 .bytes)
  else if b = 0xc6 ∨ b = 0xdb then some (.counted 4 .bytes)
  else if b = 0xc7 then some (.counted 1 fun n => .bytes (1 + n))
  else if b = 0xc8 then some (.counted 2 fun n => .bytes (1 + n))
  else if b = 0xc9 then some (.counted 4 fun n => .bytes (1 + n))
  else if b = 0xcc ∨ b = 0xd0 then some (.fixed (.bytes 1))
  else if b = 0xcd ∨ b = 0xd1 then some (.fixed (.bytes 2))
  else if b = 0xca ∨ b = 0xce ∨ b = 0xd2 then some (.fixed (.bytes 4))
  else if b = 0xcb ∨ b = 0xcf ∨ b = 0xd3 then some (.fixed (.bytes 8))
  else if b = 0xd4 then some (.fixed (.bytes 2))
  else if b = 0xd5 then some (.fixed (.bytes 3))
  else if b = 0xd6 then some (.fixed (.bytes 5))
  else if b = 0xd7 then some (.fixed (.bytes 9))
  else if b = 0xd8 then some (.fixed (.bytes 17))
  else if b = 0xdc then some (.counted 2 .values)
  else if b = 0xdd then some (.counted 4 .values)
  else if b = 0xde then some (.counted 2 fun n => .values (2 * n))
  else if b = 0xdf then some (.counted 4 fun n => .values (2 * n))
  else none

/-- The markers of the extension types. -/
def IsExtension (b : UInt8) : Prop := (0xc7 ≤ b ∧ b ≤ 0xc9) ∨ (0xd4 ≤ b ∧ b ≤ 0xd8)

instance (b : UInt8) : Decidable (IsExtension b) :=
  inferInstanceAs (Decidable (_ ∨ _))

/-- The header in front of some bytes, what follows it, and the bytes behind it. -/
def header : List UInt8 → Option (Follow × List UInt8)
  | [] => none
  | b :: rest =>
    match marker b with
    | none => none
    | some (.fixed follow) => some (follow, rest)
    | some (.counted width follow) =>
      if width ≤ rest.length then some (follow (ofBeBytes (rest.take width)), rest.drop width)
      else none

/-- A header with an allowed marker, and what follows it. -/
inductive Header (allowed : UInt8 → Prop) : List UInt8 → Follow → Prop
  | fixed {b : UInt8} {follow : Follow} (h : marker b = some (.fixed follow)) (ha : allowed b) :
      Header allowed [b] follow
  | counted {b : UInt8} {width : Nat} {follow : Nat → Follow} {count : List UInt8}
      (h : marker b = some (.counted width follow)) (ha : allowed b)
      (hwidth : count.length = width) : Header allowed (b :: count) (follow (ofBeBytes count))

/-- One value, all of whose markers are allowed. -/
inductive IsValue (allowed : UInt8 → Prop) : List UInt8 → Prop
  | bytes {head body : List UInt8} (h : Header allowed head (.bytes body.length)) :
      IsValue allowed (head ++ body)
  | values {head : List UInt8} {items : List (List UInt8)}
      (h : Header allowed head (.values items.length)) (hitems : ∀ item ∈ items, IsValue allowed item) :
      IsValue allowed (head ++ items.flatten)

variable {allowed : UInt8 → Prop} {head value : List UInt8} {follow : Follow}

/-- The function finds the headers, and nothing else. -/
theorem header_eq_some {bytes rest : List UInt8} : header bytes = some (follow, rest) ↔
    ∃ head, Header (fun _ => True) head follow ∧ bytes = head ++ rest := by
  constructor
  · intro h
    cases bytes with
    | nil => cases h
    | cons b behind =>
      simp only [header] at h
      split at h
      · cases h
      · next hmarker =>
        cases h
        exact ⟨[b], .fixed hmarker trivial, rfl⟩
      · next width f hmarker =>
        split at h
        · next hle =>
          cases h
          refine ⟨b :: behind.take width, .counted hmarker trivial ?_, ?_⟩
          · exact List.length_take_of_le hle
          · rw [List.cons_append, List.take_append_drop]
        · cases h
  · rintro ⟨head, hhead, rfl⟩
    cases hhead with
    | fixed hmarker _ => simp [header, hmarker]
    | counted hmarker _ hwidth => simp [header, hmarker, ← hwidth]

/-- The marker of a header is its first byte. -/
theorem Header.allow {other : UInt8 → Prop} (h : Header allowed head follow)
    (hother : ∀ b ∈ head.head?, other b) : Header other head follow := by
  cases h with
  | fixed hmarker _ => exact .fixed hmarker (hother _ rfl)
  | counted hmarker _ hwidth => exact .counted hmarker (hother _ rfl) hwidth

theorem Header.eq_cons (h : Header allowed head follow) : ∃ b tail, head = b :: tail ∧ allowed b := by
  cases h with
  | @fixed b _ _ ha => exact ⟨b, [], rfl, ha⟩
  | @counted b _ _ count _ ha _ => exact ⟨b, count, rfl, ha⟩

theorem Header.length_pos (h : Header allowed head follow) : 0 < head.length := by
  cases h with
  | fixed => exact Nat.one_pos
  | counted => exact Nat.succ_pos _

theorem IsValue.length_pos (h : IsValue allowed value) : 0 < value.length := by
  cases h with
  | bytes h =>
    rw [List.length_append]
    exact Nat.add_pos_left h.length_pos _
  | values h _ =>
    rw [List.length_append]
    exact Nat.add_pos_left h.length_pos _

/-- **The values inside a value are shorter than it**: nesting is bounded by the length. -/
theorem length_item_lt {items : List (List UInt8)} (h : Header allowed head follow)
    {item : List UInt8} (hitem : item ∈ items) : item.length < (head ++ items.flatten).length := by
  have hhead : 0 < head.length := h.length_pos
  have hle : item.length ≤ items.flatten.length :=
    (List.sublist_flatten_of_mem hitem).length_le
  rw [List.length_append]
  omega

end Lib.MsgPack
