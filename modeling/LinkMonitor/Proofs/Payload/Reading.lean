import LinkMonitor.Payload.Rendering

/-!
# What directives read and show

A directive needs a certain number of bytes.  If there are fewer, it fails and reads none of them
(`render_of_lt`).  If there are enough, how many it reads depends on how many there are at the most,
and what it shows depends on the bytes that it reads (`render_of_le`).

These two equations are all that is said about the kinds of directive.  What holds of lists of
directives comes from them.
-/

namespace LinkMonitor.Payload

open LinkMonitor.Text

/-! ## Places in a payload -/

namespace Cursor

variable {c : Cursor} {count : Nat}

@[simp] theorem advance_zero (c : Cursor) : c.advance 0 = c := rfl

@[simp] theorem position_advance : (c.advance count).position = c.position + count := rfl

@[simp] theorem remaining_advance : (c.advance count).remaining = c.remaining - count :=
  List.length_drop

theorem takeField_eq (c : Cursor) (k : Kind) :
    c.takeField k = ((c.take k.width).1.map k.valueOf, (c.take k.width).2) := by
  rw [takeField, k.arraySize_eq_width]

theorem takeField_of_le {k : Kind} (h : k.width ≤ c.remaining) :
    c.takeField k = (.ok (k.valueOf (c.unread.take k.width)), c.advance k.width) := by
  rw [takeField_eq, take_of_le h]
  rfl

theorem takeField_of_lt {k : Kind} (h : c.remaining < k.width) :
    c.takeField k = (.error (.tooShort k.width c.remaining), c) := by
  rw [takeField_eq, take_of_lt h]
  rfl

/-- The place is one of the payload, or its end, and the bytes behind it are still to be read. -/
structure IsIn (payload : List UInt8) (c : Cursor) : Prop where
  position_le : c.position ≤ payload.length
  unread : c.unread = payload.drop c.position

theorem isIn_start (payload : List UInt8) : (start payload).IsIn payload :=
  ⟨Nat.zero_le _, rfl⟩

variable {payload : List UInt8}

theorem IsIn.remaining_eq (h : c.IsIn payload) :
    c.remaining = payload.length - c.position := by
  rw [remaining, h.unread, List.length_drop]

theorem IsIn.advance (h : c.IsIn payload) (hcount : count ≤ c.remaining) :
    (c.advance count).IsIn payload := by
  have hle := h.position_le
  rw [h.remaining_eq] at hcount
  refine ⟨?_, ?_⟩
  · rw [position_advance]
    omega
  · rw [unread_advance, position_advance, h.unread, List.drop_drop]

end Cursor

/-! ## Divisions by zero -/

theorem Transform.applyAll_cons (t : Transform) (ts : List Transform) (n : Number) :
    applyAll (t :: ts) n = (n.apply t.operator t.operand).bind (applyAll ts) := by
  rw [applyAll, List.foldlM_cons]
  rfl

/-- A division by zero comes through from wherever it is. -/
theorem Transform.applyAll_eq_error_iff {ts : List Transform} {n : Number} {e : DecodeError} :
    applyAll ts n = .error e ↔
      e = .divisionByZero ∧ ∃ t ∈ ts, t.operator = .div ∧ t.operand.isZero = true := by
  induction ts generalizing n with
  | nil =>
      constructor
      · intro h
        cases h
      · rintro ⟨-, t, ht, -⟩
        cases ht
  | cons t ts ih =>
      rw [applyAll_cons]
      cases hn : n.apply t.operator t.operand with
      | error e' =>
          obtain ⟨rfl, hzero⟩ := Number.apply_eq_error_iff.mp hn
          constructor
          · intro h
            exact ⟨(Except.error.inj h).symm, t, List.mem_cons_self .., hzero⟩
          · rintro ⟨rfl, -⟩
            rfl
      | ok n' =>
          have hhead : ¬ (t.operator = .div ∧ t.operand.isZero = true) := by
            intro hzero
            rw [Number.apply_eq_error_iff.mpr ⟨rfl, hzero⟩] at hn
            cases hn
          rw [Except.bind, ih]
          simp [hhead]

/-! ## Single directives -/

namespace Directive

/-- The number of bytes without which a directive fails. -/
def needed : Directive → Nat
  | .field k _ => k.width
  | .hex count => count
  | .ascii count => count.getD 0
  | .literal _ => 0

/-- The number of bytes that a directive reads, if there are enough. -/
def extent (remaining : Nat) : Directive → Nat
  | .ascii none => remaining
  | d => d.needed

/-- What a directive makes of the bytes that it has read. -/
def shown : Directive → List UInt8 → Except DecodeError String
  | .field k ts, bs => (Transform.applyAll ts (k.valueOf bs)).map Number.text
  | .hex _, bs => .ok (.ofList (hexBytes bs))
  | .ascii _, bs => .ok (.ofList (asciiText bs))
  | .literal text, _ => .ok text

/-- The number of bytes that a directive reads if so many remain. -/
def consumed (remaining : Nat) (d : Directive) : Nat :=
  if d.needed ≤ remaining then d.extent remaining else 0

variable {d : Directive} {c : Cursor}

theorem render_of_le (h : d.needed ≤ c.remaining) :
    d.render c = (d.shown (c.unread.take (d.extent c.remaining)),
      c.advance (d.extent c.remaining)) := by
  cases d with
  | field k ts =>
      have hwidth : k.width ≤ c.remaining := h
      rw [render, Cursor.takeField_of_le hwidth]
      rfl
  | hex count =>
      have hcount : count ≤ c.remaining := h
      rw [render, Cursor.take_of_le hcount]
      rfl
  | ascii count =>
      cases count with
      | none =>
          have htake : c.unread.take c.remaining = c.unread := List.take_length
          simp only [render, Cursor.takeRest, shown, extent, htake]
      | some count =>
          have hcount : count ≤ c.remaining := h
          rw [render, Cursor.take_of_le hcount]
          rfl
  | literal text => rfl

theorem render_of_lt (h : c.remaining < d.needed) :
    d.render c = (.error (.tooShort d.needed c.remaining), c) := by
  cases d with
  | field k ts =>
      have hwidth : c.remaining < k.width := h
      rw [render, Cursor.takeField_of_lt hwidth]
      rfl
  | hex count =>
      have hcount : c.remaining < count := h
      rw [render, Cursor.take_of_lt hcount]
      rfl
  | ascii count =>
      cases count with
      | none => exact absurd h (Nat.not_lt_zero _)
      | some count =>
          have hcount : c.remaining < count := h
          rw [render, Cursor.take_of_lt hcount]
          rfl
  | literal text => exact absurd h (Nat.not_lt_zero _)

theorem extent_le {remaining : Nat} (h : d.needed ≤ remaining) :
    d.extent remaining ≤ remaining := by
  unfold extent
  split
  · exact Nat.le_refl _
  · exact h

/-- Only a run without a count takes more than it needs. -/
theorem extent_eq_needed (hd : d ≠ .ascii none) (remaining : Nat) :
    d.extent remaining = d.needed := by
  cases d with
  | ascii count =>
      cases count with
      | none => contradiction
      | some count => rfl
  | field _ _ | hex _ | literal _ => rfl

theorem needed_le_extent (d : Directive) (remaining : Nat) : d.needed ≤ d.extent remaining := by
  by_cases hd : d = .ascii none
  · rw [hd]
    exact Nat.zero_le _
  · exact Nat.le_of_eq (extent_eq_needed hd remaining).symm

theorem consumed_le (remaining : Nat) (d : Directive) : d.consumed remaining ≤ remaining := by
  unfold consumed
  split
  · rename_i h
    exact extent_le h
  · exact Nat.zero_le _

theorem shown_eq_error {bs : List UInt8} {e : DecodeError} (h : d.shown bs = .error e) :
    e = .divisionByZero := by
  cases d with
  | field k ts =>
      cases hn : Transform.applyAll ts (k.valueOf bs) with
      | error e' =>
          rw [shown, hn] at h
          obtain rfl := Except.error.inj h
          exact (Transform.applyAll_eq_error_iff.mp hn).1
      | ok n =>
          rw [shown, hn] at h
          cases h
  | hex _ | ascii _ | literal _ => cases h

theorem after_eq_advance (d : Directive) (c : Cursor) :
    d.after c = c.advance (d.consumed c.remaining) := by
  unfold after consumed
  split
  · rename_i h
    rw [render_of_le h]
  · rename_i h
    rw [render_of_lt (Nat.not_le.mp h), Cursor.advance_zero]

/-- The result of a directive is that of any other place with as many bytes behind it, if it reads
the same bytes there. -/
theorem render_congr {c' : Cursor} (hremaining : c.remaining = c'.remaining)
    (hunread : c.unread.take (d.consumed c.remaining) =
      c'.unread.take (d.consumed c'.remaining)) : (d.render c).1 = (d.render c').1 := by
  by_cases h : d.needed ≤ c.remaining
  · have h' : d.needed ≤ c'.remaining := hremaining ▸ h
    rw [consumed, consumed, if_pos h, if_pos h'] at hunread
    rw [render_of_le h, render_of_le h', hunread]
  · have h' : ¬ d.needed ≤ c'.remaining := hremaining ▸ h
    rw [render_of_lt (Nat.not_le.mp h), render_of_lt (Nat.not_le.mp h'), hremaining]

theorem piece_congr {c' : Cursor} (h : (d.render c).1 = (d.render c').1) :
    d.piece c = d.piece c' := by
  rw [piece, piece, h]

theorem isIn_after {payload : List UInt8} (h : c.IsIn payload) (d : Directive) :
    (d.after c).IsIn payload := by
  rw [after_eq_advance]
  exact h.advance (d.consumed_le _)

end Directive

/-! ## Lists of directives -/

/-- The place behind all directives of a list. -/
def placeAfter (ds : List Directive) (c : Cursor) : Cursor :=
  ds.foldl (fun c d ↦ d.after c) c

@[simp] theorem placeAfter_nil (c : Cursor) : placeAfter [] c = c := rfl

@[simp] theorem placeAfter_cons (d : Directive) (ds : List Directive) (c : Cursor) :
    placeAfter (d :: ds) c = placeAfter ds (d.after c) := rfl

@[simp] theorem pieces_nil (c : Cursor) : pieces [] c = [] := rfl

@[simp] theorem pieces_cons (d : Directive) (ds : List Directive) (c : Cursor) :
    pieces (d :: ds) c = d.piece c :: pieces ds (d.after c) := rfl

theorem isIn_placeAfter {payload : List UInt8} {c : Cursor} (h : c.IsIn payload)
    (ds : List Directive) : (placeAfter ds c).IsIn payload := by
  induction ds generalizing c with
  | nil => exact h
  | cons d ds ih => exact ih (Directive.isIn_after h d)

end LinkMonitor.Payload
