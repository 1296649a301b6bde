import LinkMonitor.Proofs.Arithmetic
import LinkMonitor.Proofs.Payload.Reading
import LinkMonitor.Proofs.Trace

/-!
# Calls that read a payload

Bytes of a payload are asked for by calls, in any order.  How many bytes a call asks for is up to
the author of a spec, and may be any machine word.  A call fails if this is more than what remains,
and otherwise goes over a number of bytes and answers with them (`perform_of_lt`, `perform_of_le`).
A run of calls has gone over what stands before the place that it has come to.

On a machine the place is a position in the payload, a word of 64 bits, and is moved by adding to
it.  `Reader` reads a payload in this way, and gives up where a position would not be a word or
would not lie in the payload.  It never does: it answers as the calls say, at every point of every
run (`exists_perform?_eq`, `exists_run?_eq`).
-/

namespace LinkMonitor.Payload

namespace Cursor

/-! ## Calls -/

/-- What can be asked for. -/
inductive Call where
  | /-- Nothing, but to know whether so many bytes remain. -/
    require (needed : UInt64)
  | take (count : UInt64)
  | takeRest
  | takeField (kind : Kind)
deriving DecidableEq, Repr

/-- What a call gives that does not fail. -/
inductive Answer where
  | nothing
  | bytes (bs : List UInt8)
  | number (n : Number)

def perform (c : Cursor) : Call → Cursor × Except DecodeError Answer
  | .require needed => (c, (c.require needed.toNat).map fun _ ↦ .nothing)
  | .take count =>
    let (result, after) := c.take count.toNat
    (after, result.map .bytes)
  | .takeRest =>
    let (bs, after) := c.takeRest
    (after, .ok (.bytes bs))
  | .takeField k =>
    let (result, after) := c.takeField k
    (after, result.map .number)

/-- A call at some point of a run. -/
abbrev CallStep : Type := Step Cursor Call (Except DecodeError Answer)

/-- The steps of calls in a row. -/
def history (c : Cursor) (calls : List Call) : List CallStep := trace perform c calls

/-- The place after calls in a row. -/
def performAll (c : Cursor) (calls : List Call) : Cursor := stateAfter perform c calls

/-- The bytes that a step has gone over. -/
def CallStep.consumed (t : CallStep) : List UInt8 :=
  t.before.unread.take (t.after.position - t.before.position)

/-- The number of bytes without which a call fails. -/
def Call.needed : Call → Nat
  | .require needed => needed.toNat
  | .take count => count.toNat
  | .takeRest => 0
  | .takeField k => k.width

/-- The number of bytes that a call goes over if it does not fail and so many remain. -/
def Call.extent (remaining : Nat) : Call → Nat
  | .require _ => 0
  | .take count => count.toNat
  | .takeRest => remaining
  | .takeField k => k.width

/-- What a call makes of the bytes that it goes over. -/
def Call.answer (bs : List UInt8) : Call → Answer
  | .require _ => .nothing
  | .take _ | .takeRest => .bytes bs
  | .takeField k => .number (k.valueOf bs)

variable {c : Cursor} {call : Call} {payload : List UInt8}

/-- A call that asks for more than remains says so and stays where it is. -/
theorem perform_of_lt (h : c.remaining < call.needed) :
    c.perform call = (c, .error (.tooShort call.needed c.remaining)) := by
  cases call with
  | require needed =>
      have hlt : c.remaining < needed.toNat := h
      rw [perform, require, if_pos hlt]
      rfl
  | take count =>
      have hlt : c.remaining < count.toNat := h
      rw [perform, take_of_lt hlt]
      rfl
  | takeRest => cases h
  | takeField k =>
      have hlt : c.remaining < k.width := h
      rw [perform, takeField_of_lt hlt]
      rfl

/-- Any other call goes over bytes and answers with them. -/
theorem perform_of_le (h : call.needed ≤ c.remaining) :
    c.perform call = (c.advance (call.extent c.remaining),
      .ok (call.answer (c.unread.take (call.extent c.remaining)))) := by
  cases call with
  | require needed =>
      have hle : ¬ c.remaining < needed.toNat := Nat.not_lt.mpr h
      rw [perform, require, if_neg hle]
      rfl
  | take count =>
      have hle : count.toNat ≤ c.remaining := h
      rw [perform, take_of_le hle]
      rfl
  | takeRest => simp [perform, takeRest, Call.extent, Call.answer, remaining]
  | takeField k =>
      have hle : k.width ≤ c.remaining := h
      rw [perform, takeField_of_le hle]
      rfl

theorem Call.extent_le (h : call.needed ≤ c.remaining) : call.extent c.remaining ≤ c.remaining := by
  cases call with
  | require needed => exact Nat.zero_le _
  | take count => exact h
  | takeRest => exact Nat.le_refl _
  | takeField k => exact h

theorem consumed_of_le (h : call.needed ≤ c.remaining) :
    CallStep.consumed ⟨c, call, (c.perform call).2, (c.perform call).1⟩ =
      c.unread.take (call.extent c.remaining) := by
  rw [CallStep.consumed, perform_of_le h, position_advance, Nat.add_sub_cancel_left]

/-- What a step goes over stands before what it leaves. -/
theorem consumed_append_unread (c : Cursor) (call : Call) :
    CallStep.consumed ⟨c, call, (c.perform call).2, (c.perform call).1⟩ ++
      (c.perform call).1.unread = c.unread := by
  rcases Nat.lt_or_ge c.remaining call.needed with hlt | hle
  · rw [CallStep.consumed, perform_of_lt hlt, Nat.sub_self, List.take_zero, List.nil_append]
  · rw [consumed_of_le hle, perform_of_le hle, unread_advance, List.take_append_drop]

theorem IsIn.perform (h : c.IsIn payload) (call : Call) : (c.perform call).1.IsIn payload := by
  rcases Nat.lt_or_ge c.remaining call.needed with hlt | hle
  · rwa [perform_of_lt hlt]
  · rw [perform_of_le hle]
    exact h.advance (Call.extent_le hle)

theorem isIn_performAll (payload : List UInt8) (calls : List Call) :
    ((start payload).performAll calls).IsIn payload :=
  stateAfter_induction (P := IsIn payload) (fun _ call h ↦ h.perform call) (isIn_start payload)

/-- What every step keeps to. -/
structure CallStep.Lawful (payload : List UInt8) (t : CallStep) : Prop where
  /-- The place never lies beyond the end of the payload. -/
  isIn_before : t.before.IsIn payload
  isIn_after : t.after.IsIn payload
  /-- A call fails just when it asks for more than remains, and tells both numbers. -/
  error_iff (e : DecodeError) : t.reply = .error e ↔
    payload.length - t.before.position < t.action.needed ∧
      e = .tooShort t.action.needed (payload.length - t.before.position)
  after_of_error {e : DecodeError} : t.reply = .error e → t.after = t.before
  after_of_require {needed : UInt64} : t.action = .require needed → t.after = t.before
  /-- A call that does not fail goes over as many bytes as it is to give and answers with them. -/
  ok {answer : Answer} : t.reply = .ok answer → answer = t.action.answer t.consumed ∧
    t.consumed.length = t.action.extent (payload.length - t.before.position) ∧
    t.after.position = t.before.position + t.consumed.length

theorem lawful_of_isIn (h : c.IsIn payload) (call : Call) :
    CallStep.Lawful payload ⟨c, call, (c.perform call).2, (c.perform call).1⟩ where
  isIn_before := h
  isIn_after := h.perform call
  error_iff e := by
    rw [← h.remaining_eq]
    rcases Nat.lt_or_ge c.remaining call.needed with hlt | hle
    · simp [perform_of_lt hlt, hlt, eq_comm]
    · simp [perform_of_le hle, Nat.not_lt.mpr hle]
  after_of_error := by
    intro e he
    rcases Nat.lt_or_ge c.remaining call.needed with hlt | hle
    · rw [perform_of_lt hlt]
    · rw [perform_of_le hle] at he
      cases he
  after_of_require := by
    rintro needed rfl
    rfl
  ok := by
    intro answer hanswer
    rw [← h.remaining_eq]
    rcases Nat.lt_or_ge c.remaining call.needed with hlt | hle
    · rw [perform_of_lt hlt] at hanswer
      cases hanswer
    · have hlength : (c.unread.take (call.extent c.remaining)).length = call.extent c.remaining :=
        List.length_take_of_le (Call.extent_le hle)
      rw [consumed_of_le hle, hlength, perform_of_le hle]
      rw [perform_of_le hle] at hanswer
      exact ⟨(Except.ok.inj hanswer).symm, rfl, rfl⟩

/-- All that has been gone over stands before what is left. -/
theorem flatMap_consumed_append_unread (c : Cursor) (calls : List Call) :
    (c.history calls).flatMap CallStep.consumed ++ (c.performAll calls).unread = c.unread :=
  flatMap_trace_append consumed_append_unread

end Cursor

/-! ## Reading by position -/

open Arithmetic Cursor

theorem Kind.width_lt (k : Kind) : k.width < UInt64.size := by
  cases k with
  | unsigned w | signed w => cases w <;> decide
  | single | double => decide

/-- A payload and a position in it. -/
structure Reader where
  payload : List UInt8
  cursor : UInt64
deriving DecidableEq, Repr

namespace Reader

def start (payload : List UInt8) : Reader := ⟨payload, 0⟩

def remaining? (s : Reader) : Option UInt64 := left? s.payload s.cursor

def require? (s : Reader) (needed : UInt64) : Option (Except DecodeError Unit) := do
  if (← s.remaining?) < needed then
    return .error (.tooShort needed.toNat (← s.remaining?).toNat)
  else return .ok ()

def take? (s : Reader) (count : UInt64) :
    Option (Except DecodeError (List UInt8) × Reader) := do
  match ← s.require? count with
  | .error e => return (.error e, s)
  | .ok () =>
    let bs ← slice? s.payload s.cursor (← add? s.cursor count)
    return (.ok bs, ⟨s.payload, ← add? s.cursor count⟩)

def takeRest? (s : Reader) : Option (List UInt8 × Reader) := do
  let stop ← ofNat? s.payload.length
  return (← slice? s.payload s.cursor stop, ⟨s.payload, stop⟩)

/-- Reads a field.  Its bytes are copied into an array, which must be as long as they are. -/
def takeField? (s : Reader) (k : Kind) : Option (Except DecodeError Number × Reader) := do
  let (result, after) ← s.take? (← ofNat? k.arraySize)
  match result with
  | .error e => return (.error e, after)
  | .ok bs => if bs.length = k.arraySize then return (.ok (k.valueOf bs), after) else none

def perform? (s : Reader) : Call → Option (Reader × Except DecodeError Answer)
  | .require needed => do return (s, (← s.require? needed).map fun _ ↦ .nothing)
  | .take count => do
    let (result, after) ← s.take? count
    return (after, result.map .bytes)
  | .takeRest => do
    let (bs, after) ← s.takeRest?
    return (after, .ok (.bytes bs))
  | .takeField k => do
    let (result, after) ← s.takeField? k
    return (after, result.map .number)

/-- The replies to calls in a row, and the reader after them. -/
def run? (s : Reader) : List Call → Option (List (Except DecodeError Answer) × Reader)
  | [] => some ([], s)
  | call :: calls => do
    let (after, reply) ← s.perform? call
    let (replies, last) ← after.run? calls
    return (reply :: replies, last)

variable {payload : List UInt8} {cursor : UInt64} {c : Cursor}

section calls

variable (h : IsAt payload cursor c.unread) (hlen : payload.length < UInt64.size)

include h hlen

theorem require?_eq (needed : UInt64) :
    require? ⟨payload, cursor⟩ needed = some (c.require needed.toNat) := by
  obtain ⟨left, hleft, hcount⟩ := h.exists_left?_eq hlen
  have hremaining : left.toNat = c.remaining := hcount
  simp only [require?, remaining?, hleft, Option.bind_eq_bind, Option.bind_some,
    UInt64.lt_iff_toNat_lt, hremaining, require]
  split <;> rfl

theorem exists_take?_eq (count : UInt64) :
    ∃ next, take? ⟨payload, cursor⟩ count = some ((c.take count.toNat).1, ⟨payload, next⟩) ∧
      IsAt payload next (c.take count.toNat).2.unread := by
  rcases Nat.lt_or_ge c.remaining count.toNat with hlt | hle
  · refine ⟨cursor, ?_, by rwa [take_of_lt hlt]⟩
    simp [take?, require?_eq h hlen, require, hlt, take_of_lt hlt]
  · rw [take_of_le hle]
    -- The bytes are there, so that the position behind them is one of the payload.
    have hat : IsAt payload cursor (c.unread.take count.toNat ++ c.unread.drop count.toNat) := by
      rwa [List.take_append_drop]
    have hcount : count.toNat = (c.unread.take count.toNat).length :=
      (List.length_take_of_le hle).symm
    obtain ⟨next, hnext, hrest⟩ := hat.exists_add?_eq hlen hcount
    refine ⟨next, ?_, hrest⟩
    simp [take?, require?_eq h hlen, require, Nat.not_lt.mpr hle, hnext, hat.slice?_eq hrest]

theorem exists_takeRest?_eq :
    ∃ next, takeRest? ⟨payload, cursor⟩ = some (c.takeRest.1, ⟨payload, next⟩) ∧
      IsAt payload next c.takeRest.2.unread := by
  obtain ⟨stop, hstop, hend⟩ := exists_ofNat?_length (ν := UInt64) hlen
  rw [← List.append_nil c.unread] at h
  refine ⟨stop, by simp [takeRest?, takeRest, hstop, h.slice?_eq hend], ?_⟩
  rwa [takeRest, unread_advance, remaining, List.drop_length]

theorem exists_takeField?_eq (k : Kind) :
    ∃ next, takeField? ⟨payload, cursor⟩ k = some ((c.takeField k).1, ⟨payload, next⟩) ∧
      IsAt payload next (c.takeField k).2.unread := by
  obtain ⟨width, hwidth, hvalue⟩ := Exact.ofNat? (ν := UInt64) k.width_lt
  have hcount : width.toNat = k.width := hvalue
  obtain ⟨next, htake, hat⟩ := exists_take?_eq h hlen width
  rw [hcount] at htake hat
  refine ⟨next, ?_, by rwa [takeField_eq]⟩
  rcases Nat.lt_or_ge c.remaining k.width with hlt | hle
  · simp [takeField?, hwidth, htake, takeField_of_lt hlt, take_of_lt hlt]
  · have hlength : (c.unread.take k.width).length = k.width := List.length_take_of_le hle
    simp [takeField?, hwidth, htake, takeField_of_le hle, take_of_le hle, hlength]

/-- A reader answers a call at a place of a payload as the call says. -/
theorem exists_perform?_eq (call : Call) :
    ∃ next, perform? ⟨payload, cursor⟩ call = some (⟨payload, next⟩, (c.perform call).2) ∧
      IsAt payload next (c.perform call).1.unread := by
  cases call with
  | require needed => exact ⟨cursor, by rw [perform?, require?_eq h hlen]; rfl, h⟩
  | take count =>
      obtain ⟨next, htake, hat⟩ := exists_take?_eq h hlen count
      exact ⟨next, by rw [perform?, htake]; rfl, hat⟩
  | takeRest =>
      obtain ⟨next, htake, hat⟩ := exists_takeRest?_eq h hlen
      exact ⟨next, by rw [perform?, htake]; rfl, hat⟩
  | takeField k =>
      obtain ⟨next, htake, hat⟩ := exists_takeField?_eq h hlen k
      exact ⟨next, by rw [perform?, htake]; rfl, hat⟩

end calls

/-- A reader answers calls in a row as they say. -/
theorem exists_run?_eq (h : IsAt payload cursor c.unread) (hlen : payload.length < UInt64.size)
    (calls : List Call) :
    ∃ last,
      run? ⟨payload, cursor⟩ calls = some ((c.history calls).map Step.reply, ⟨payload, last⟩) ∧
      IsAt payload last (c.performAll calls).unread := by
  induction calls generalizing cursor c with
  | nil => exact ⟨cursor, rfl, h⟩
  | cons call calls ih =>
      obtain ⟨next, hperform, hnext⟩ := exists_perform?_eq h hlen call
      obtain ⟨last, hrun, hlast⟩ := ih hnext
      refine ⟨last, ?_, hlast⟩
      simp only [run?, hperform, hrun, Option.bind_eq_bind, Option.bind_some]
      rfl

/-- **Calls keep to the payload.**  However a payload is read whose length is a machine word, by
calls that ask for any number of bytes, the words for the position and the sizes never wrap around
and no byte is looked up beyond the end, neither at once nor after calls that fail.  A call fails
just when it asks for more bytes than remain: it tells both numbers and moves nothing, as does one
that only asks.  Any other call goes over the next bytes and answers with them.  What all calls have
gone over is, with what is left, the payload. -/
theorem calls_keep_to_payload (payload : List UInt8) (calls : List Call)
    (hlen : payload.length < UInt64.size) :
    (∃ last : UInt64,
      (start payload).run? calls =
        some (((Cursor.start payload).history calls).map Step.reply, ⟨payload, last⟩) ∧
      (Cursor.start payload).performAll calls = ⟨last.toNat, payload.drop last.toNat⟩ ∧
      last.toNat ≤ payload.length) ∧
    (∀ t ∈ (Cursor.start payload).history calls, t.Lawful payload) ∧
    ((Cursor.start payload).history calls).flatMap CallStep.consumed ++
      ((Cursor.start payload).performAll calls).unread = payload := by
  refine ⟨?_, ?_, flatMap_consumed_append_unread _ calls⟩
  · have hat : IsAt payload (0 : UInt64) (Cursor.start payload).unread := ⟨Nat.zero_le _, rfl⟩
    obtain ⟨last, hrun, hlast⟩ := exists_run?_eq hat hlen calls
    have hplace := isIn_performAll payload calls
    generalize (Cursor.start payload).performAll calls = c at hlast hplace ⊢
    have hat' : IsAt payload c.position c.unread := ⟨hplace.position_le, hplace.unread.symm⟩
    have hposition : last.toNat = c.position := hlast.number_eq hat'
    have hunread : payload.drop last.toNat = c.unread := hlast.drop_eq
    exact ⟨last, hrun, by rw [hunread, hposition], hlast.le_length⟩
  · exact forall_mem_trace (P := IsIn payload) (fun _ call hc ↦ hc.perform call)
      (fun _ call hc ↦ lawful_of_isIn hc call) (isIn_start payload)

/-- Six bytes.  Counts near the greatest word are refused at the beginning and in the middle, where
adding them to the position would wrap around, and a field that is too wide at a place where a
narrower one is not. -/
theorem calls_keep_to_payload_near_greatest_word :
    let payload : List UInt8 := [0x05, 0x00, 0xFF, 0x01, 0x02, 0x03]
    let calls : List Call := [.take 0xFFFFFFFFFFFFFFFF, .require 6, .takeField (.unsigned .w16),
      .take 0xFFFFFFFFFFFFFFFE, .takeField .double, .takeField (.signed .w8), .take 0, .takeRest,
      .takeField (.unsigned .w8)]
    let steps := (Cursor.start payload).history calls
    payload.length < UInt64.size ∧
      (start payload).run? calls = some ([.error (.tooShort 0xFFFFFFFFFFFFFFFF 6), .ok .nothing,
        .ok (.number (.exact 5)), .error (.tooShort 0xFFFFFFFFFFFFFFFE 4), .error (.tooShort 8 4),
        .ok (.number (.exact (-1))), .ok (.bytes []), .ok (.bytes [0x01, 0x02, 0x03]),
        .error (.tooShort 1 0)], ⟨payload, 6⟩) ∧
      steps.flatMap CallStep.consumed = payload ∧ ∀ t ∈ steps, t.Lawful payload := by
  intro payload calls steps
  have hlen : payload.length < UInt64.size := by decide
  obtain ⟨⟨last, hrun, hlast, -⟩, hlawful, hconsumed⟩ := calls_keep_to_payload payload calls hlen
  have hend : (Cursor.start payload).performAll calls = ⟨6, []⟩ := by decide
  rw [hend] at hlast hconsumed
  obtain rfl : 6 = last := UInt64.toNat_inj.mp (Cursor.mk.inj hlast).1
  rw [List.append_nil] at hconsumed
  refine ⟨hlen, hrun.trans ?_, hconsumed, hlawful⟩
  unfold calls payload
  rfl

end Reader

end LinkMonitor.Payload
