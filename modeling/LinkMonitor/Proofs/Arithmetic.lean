/-!
# Arithmetic that may overflow

Where a program runs, the sizes of buffers and the positions in them are words of 64 bits.  A sum or
a difference that is no word wraps around or ends the program, and a position beyond the end of a
buffer ends it.  Here such an operation has no result, so that a calculation that has a result has
done nothing of the kind.

An algorithm is written once, for any `Arithmetic`, and can then be carried out with words and with
numbers without a bound.  Both are `Exact` as long as all results are words, and what is shown for
exact arithmetic is true of both.

`IsAt` says what stands in a buffer from a position on.  Positions are moved, subtracted and used
for slices in terms of it.
-/

namespace LinkMonitor

/-- Numbers that serve as sizes and positions.  An operation has no result where there is no such
number. -/
class Arithmetic (ν : Type) where
  number : ν → Nat
  ofNat? : Nat → Option ν
  add? : ν → ν → Option ν
  sub? : ν → ν → Option ν
  /-- The sum, or the greatest number if the sum lies beyond it. -/
  addCapped : ν → ν → ν

namespace Arithmetic

/-- Words, without wrapping around. -/
instance : Arithmetic UInt64 where
  number := UInt64.toNat
  ofNat? n := if n < UInt64.size then some (.ofNat n) else none
  add? x y := if x.toNat + y.toNat < UInt64.size then some (x + y) else none
  sub? x y := if y ≤ x then some (x - y) else none
  addCapped x y := if x.toNat + y.toNat < UInt64.size then x + y else .ofNat (UInt64.size - 1)

/-- Numbers without a bound, but not below zero. -/
instance : Arithmetic Nat where
  number := id
  ofNat? := some
  add? x y := some (x + y)
  sub? x y := if y ≤ x then some (x - y) else none
  addCapped x y := x + y

/-- Arithmetic that has a result wherever the true one is a word, and that result.  A sum with a cap
cannot be told from the true one by numbers below the greatest word. -/
class Exact (ν : Type) [Arithmetic ν] : Prop where
  ofNat? {n : Nat} : n < UInt64.size → ∃ x : ν, Arithmetic.ofNat? n = some x ∧ number x = n
  add? {x y : ν} : number x + number y < UInt64.size →
    ∃ z, Arithmetic.add? x y = some z ∧ number z = number x + number y
  sub? {x y : ν} : number y ≤ number x →
    ∃ z, Arithmetic.sub? x y = some z ∧ number z = number x - number y
  lt_addCapped_iff {x y : ν} {n : Nat} : n + 1 < UInt64.size →
    (n < number (addCapped x y) ↔ n < number x + number y)

theorem toNat_add_of_lt {x y : UInt64} (h : x.toNat + y.toNat < UInt64.size) :
    (x + y).toNat = x.toNat + y.toNat := by
  rw [UInt64.toNat_add]
  exact Nat.mod_eq_of_lt h

instance : Exact UInt64 where
  ofNat? h := ⟨_, if_pos h, UInt64.toNat_ofNat_of_lt' h⟩
  add? h := ⟨_, if_pos h, toNat_add_of_lt h⟩
  sub? {x y} h := ⟨_, if_pos h, UInt64.toNat_sub_of_le x y h⟩
  lt_addCapped_iff {x y n} hn := by
    change n < UInt64.toNat (if x.toNat + y.toNat < UInt64.size then x + y else _) ↔
      n < x.toNat + y.toNat
    split
    · rename_i h
      rw [toNat_add_of_lt h]
    · rw [UInt64.toNat_ofNat_of_lt' (by decide)]
      omega

instance : Exact Nat where
  ofNat? _ := ⟨_, rfl, rfl⟩
  add? _ := ⟨_, rfl, rfl⟩
  sub? h := ⟨_, if_pos h, rfl⟩
  lt_addCapped_iff _ := Iff.rfl

/-! ## Positions -/

variable {ν : Type} [Arithmetic ν]

/-- The position so many bytes behind another. -/
def behind? (pos : ν) (count : Nat) : Option ν := do
  add? pos (← ofNat? count)

/-- The number of bytes from a position on. -/
def left? (bytes : List UInt8) (pos : ν) : Option ν := do
  sub? (← ofNat? bytes.length) pos

/-- The bytes between two positions, which must lie in the buffer in this order. -/
def slice? (bytes : List UInt8) (start stop : ν) : Option (List UInt8) :=
  if number start ≤ number stop ∧ number stop ≤ bytes.length then
    some ((bytes.drop (number start)).take (number stop - number start))
  else none

/-- `IsAt bytes pos rest`: the position `pos` lies in the buffer `bytes`, and `rest` is what stands
there. -/
structure IsAt (bytes : List UInt8) (pos : ν) (rest : List UInt8) : Prop where
  le_length : number pos ≤ bytes.length
  drop_eq : bytes.drop (number pos) = rest

namespace IsAt

variable {bytes front rest : List UInt8} {pos next : ν}

theorem number_add_length (h : IsAt bytes pos rest) : number pos + rest.length = bytes.length := by
  rw [← h.drop_eq, List.length_drop, Nat.add_sub_cancel' h.le_length]

theorem lt_length_iff (h : IsAt bytes pos rest) : number pos < bytes.length ↔ rest ≠ [] := by
  rw [← h.number_add_length, Nat.lt_add_right_iff_pos, List.length_pos_iff]

theorem not_lt_length (h : IsAt bytes pos []) : ¬ number pos < bytes.length :=
  fun hlt ↦ h.lt_length_iff.mp hlt rfl

theorem getElem?_eq {b : UInt8} (h : IsAt bytes pos (b :: rest)) : bytes[number pos]? = some b := by
  rw [← List.head?_drop, h.drop_eq, List.head?_cons]

/-- A position is known by what stands there. -/
theorem number_eq {μ : Type} [Arithmetic μ] {pos' : μ} (h : IsAt bytes pos rest)
    (h' : IsAt bytes pos' rest) : number pos = number pos' := by
  have hlength := h.number_add_length
  rw [← h'.number_add_length] at hlength
  exact Nat.add_right_cancel hlength

theorem forward (h : IsAt bytes pos (front ++ rest))
    (hnext : number next = number pos + front.length) :
    IsAt bytes next rest := by
  have hlength := h.number_add_length
  rw [List.length_append] at hlength
  refine ⟨by omega, ?_⟩
  rw [hnext, ← List.drop_drop, h.drop_eq, List.drop_left]

theorem slice?_eq (h : IsAt bytes pos (front ++ rest)) (hnext : IsAt bytes next rest) :
    slice? bytes pos next = some front := by
  have hlength := h.number_add_length
  rw [List.length_append, ← hnext.number_add_length, ← Nat.add_assoc] at hlength
  have hfront : number next - number pos = front.length := by omega
  rw [slice?, if_pos ⟨by omega, hnext.le_length⟩, h.drop_eq, hfront, List.take_left]

variable [Exact ν]

theorem exists_left?_eq (h : IsAt bytes pos rest) (hlen : bytes.length < UInt64.size) :
    ∃ left, left? bytes pos = some left ∧ number left = rest.length := by
  obtain ⟨length, hlength, hvalue⟩ := Exact.ofNat? (ν := ν) hlen
  have hle : number pos ≤ number length := hvalue ▸ h.le_length
  obtain ⟨left, hleft, hdiff⟩ := Exact.sub? hle
  refine ⟨left, by simp [left?, hlength, hleft], ?_⟩
  rw [hdiff, hvalue, ← h.number_add_length, Nat.add_sub_cancel_left]

/-- Going forward over bytes of the buffer ends at what stands behind them. -/
theorem exists_add?_eq (h : IsAt bytes pos (front ++ rest)) (hlen : bytes.length < UInt64.size)
    {count : ν} (hcount : number count = front.length) :
    ∃ next, add? pos count = some next ∧ IsAt bytes next rest := by
  have hlength := h.number_add_length
  rw [List.length_append] at hlength
  obtain ⟨next, hnext, hsum⟩ := Exact.add? (x := pos) (y := count) (by omega)
  exact ⟨next, hnext, h.forward (by rw [hsum, hcount])⟩

theorem exists_behind?_eq (h : IsAt bytes pos (front ++ rest)) (hlen : bytes.length < UInt64.size)
    {count : Nat} (hcount : count = front.length) :
    ∃ next, behind? pos count = some next ∧ IsAt bytes next rest := by
  have hlength := h.number_add_length
  rw [List.length_append] at hlength
  obtain ⟨n, hn, hvalue⟩ := Exact.ofNat? (ν := ν) (n := count) (by omega)
  obtain ⟨next, hnext, hat⟩ := h.exists_add?_eq hlen (hvalue.trans hcount)
  exact ⟨next, by simp [behind?, hn, hnext], hat⟩

end IsAt

/-- The whole buffer stands at the first position. -/
theorem exists_ofNat?_zero [Exact ν] (bytes : List UInt8) :
    ∃ pos : ν, ofNat? 0 = some pos ∧ IsAt bytes pos bytes := by
  obtain ⟨pos, hpos, hvalue⟩ := Exact.ofNat? (ν := ν) (n := 0) (by decide)
  exact ⟨pos, hpos, by rw [hvalue]; exact Nat.zero_le _, by rw [hvalue, List.drop_zero]⟩

/-- Nothing stands at the last position. -/
theorem exists_ofNat?_length [Exact ν] {bytes : List UInt8} (hlen : bytes.length < UInt64.size) :
    ∃ pos : ν, ofNat? bytes.length = some pos ∧ IsAt bytes pos [] := by
  obtain ⟨pos, hpos, hvalue⟩ := Exact.ofNat? (ν := ν) hlen
  exact ⟨pos, hpos, Nat.le_of_eq hvalue, by rw [hvalue, List.drop_length]⟩

end Arithmetic

end LinkMonitor
