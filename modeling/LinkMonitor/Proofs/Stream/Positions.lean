import LinkMonitor.Proofs.Arithmetic
import LinkMonitor.Proofs.Stream.Decomposition

/-!
# Scanning by position

Where bytes are cut into frames on a machine, no list is taken apart.  The bytes are kept in a
buffer, and a loop goes over it with a position: it takes the difference of the length and the
position, compares it with the size of a frame, and adds the size to the position.  `scan?` is this
loop, written for any arithmetic.  In the arithmetic of words the size of a frame has a cap; in that
of numbers without a bound it has none.

A turn of the loop is a step of a derivation (`Turn.Follows`), and so the loop makes a derivation
(`exists_scan?_eq`), of which there is only one.  This is why it does not matter how it calculates.
-/

namespace LinkMonitor

open Arithmetic

namespace Registry

variable {r : Registry}

/-- `Advances r bs s rest`: the segment `s` can be cut off the bytes `bs`, and `rest` is left. -/
inductive Advances (r : Registry) : List UInt8 → Segment → List UInt8 → Prop
  | frame {h : Header} {f : MessageFormat} (data : List UInt8) {rest : List UInt8} :
      r.format? h = some f → data.length = f.length.toNat →
      Advances r (h.high :: h.low :: (data ++ rest)) (.message ⟨h, data⟩) rest
  | noise {b : UInt8} {rest : List UInt8} : r.IsNoise b rest →
      Advances r (b :: rest) (.unrecognized b) rest

namespace Advances

variable {bs rest pending : List UInt8} {s : Segment} {segments : List Segment}

theorem cut (h : r.Advances bs s rest) (hrest : r.Cut rest segments pending) :
    r.Cut bs (s :: segments) pending := by
  cases h with
  | frame data hf hdata => exact .frame data hf hdata hrest
  | noise hn => exact .noise hn hrest

theorem bytes_append (h : r.Advances bs s rest) : s.bytes ++ rest = bs := by
  cases h with
  | frame => simp [Segment.bytes, Message.bytes, Header.bytes]
  | noise => rfl

theorem length_lt (h : r.Advances bs s rest) : rest.length < bs.length := by
  cases h with
  | frame data => simp only [List.length_cons, List.length_append]; omega
  | noise => exact Nat.lt_succ_self _

theorem segment_eq (h : r.Advances bs s rest) (hlen : bs.length < 2 ^ 63) :
    r.segment bs = (s :: (r.segment rest).1, (r.segment rest).2) :=
  (h.cut (r.cut_segment (Nat.lt_trans h.length_lt hlen))).segment_eq hlen

end Advances

end Registry

namespace Reassembler

/-! ## The loop -/

variable {ν μ : Type}

/-- What a turn of the loop comes to. -/
inductive Turn (ν : Type) where
  | /-- Bytes are missing, and the loop ends. -/
    stop
  | /-- A segment is cut off, and the loop goes on at a position. -/
    go (segment : Segment) (next : ν)
deriving DecidableEq, Repr

def Turn.map (f : ν → μ) : Turn ν → Turn μ
  | .stop => .stop
  | .go s next => .go s (f next)

theorem Turn.map_id (t : Turn ν) : t.map id = t := by
  cases t <;> rfl

variable [Arithmetic ν] [Arithmetic μ]

/-- The size of a whole frame. -/
def frameSize? (f : MessageFormat) : Option ν := do
  return addCapped (← ofNat? Header.size) (← ofNat? f.length.toNat)

/-- The turn at a header of a format, of which so many bytes are left. -/
def frameTurn? (buffer : List UInt8) (pos left : ν) (h : Header) (f : MessageFormat) :
    Option (Turn ν) := do
  let size ← frameSize? f
  if number left < number size then return .stop
  else
    let next ← add? pos size
    let data ← slice? buffer (← behind? pos Header.size) next
    return .go (.message ⟨h, data⟩) next

/-- A turn of the loop at a position. -/
def turn? (r : Registry) (buffer : List UInt8) (pos : ν) : Option (Turn ν) := do
  let high ← buffer[number pos]?
  let left ← left? buffer pos
  if number left < Header.size then
    if r.startsHeader high then return .stop
    else return .go (.unrecognized high) (← behind? pos 1)
  else
    let low ← buffer[number (← behind? pos 1)]?
    match r.format? ⟨high, low⟩ with
    | none => return .go (.unrecognized high) (← behind? pos 1)
    | some f => frameTurn? buffer pos left ⟨high, low⟩ f

/-- The segments that the loop cuts off from a position on, and the position at which it ends.
There is no result if this takes more than a number of turns. -/
def scan? (r : Registry) (buffer : List UInt8) : Nat → ν → Option (List Segment × ν)
  | 0, pos => if number pos < buffer.length then none else some ([], pos)
  | turns + 1, pos =>
    if number pos < buffer.length then do
      match ← turn? r buffer pos with
      | .stop => return ([], pos)
      | .go s next =>
        let (segments, stop) ← scan? r buffer turns next
        return (s :: segments, stop)
    else some ([], pos)

/-- Takes a chunk as `feed` does, with a loop that has a turn for each byte at most. -/
def feedBy? (ν : Type) [Arithmetic ν] (a : Reassembler) (r : Registry) (chunk : List UInt8) :
    Option (List Segment × Reassembler) := do
  let buffer := a.pending ++ chunk
  let (segments, stop) ← scan? r buffer buffer.length (← (ofNat? 0 : Option ν))
  let pending ← slice? buffer stop (← ofNat? buffer.length)
  return (segments, ⟨pending⟩)

/-! ## Turns -/

variable {r : Registry} {buffer bs : List UInt8} {pos : ν}

/-- `Turn.Follows r buffer bs t`: at a position where `bs` stands in the buffer, the turn `t` is
right. -/
inductive Turn.Follows (r : Registry) (buffer bs : List UInt8) : Turn ν → Prop
  | stop : r.IsPartial bs → Follows r buffer bs .stop
  | go {s : Segment} {next : ν} {rest : List UInt8} : r.Advances bs s rest →
      IsAt buffer next rest → Follows r buffer bs (.go s next)

/-- There is one right turn, whatever numbers the positions are. -/
theorem Turn.Follows.map_number_eq {t : Turn ν} {t' : Turn μ} (h : t.Follows r buffer bs)
    (h' : t'.Follows r buffer bs) (hlen : bs.length < 2 ^ 63) : t.map number = t'.map number := by
  have hstop (hpartial : r.IsPartial bs) : (r.segment bs).1 = [] := by
    rw [(Registry.Cut.done hpartial).segment_eq hlen]
  have hgo {s : Segment} {rest : List UInt8} (h : r.Advances bs s rest) :
      (r.segment bs).1 = s :: (r.segment rest).1 := by
    rw [h.segment_eq hlen]
  cases h with
  | stop hpartial =>
      cases h' with
      | stop => rfl
      | go hs' =>
          have hnil := hstop hpartial
          rw [hgo hs'] at hnil
          cases hnil
  | @go s next rest hs hnext =>
      cases h' with
      | stop hpartial =>
          have hnil := hstop hpartial
          rw [hgo hs] at hnil
          cases hnil
      | @go s' next' rest' hs' hnext' =>
          have hsegment := hgo hs
          rw [hgo hs'] at hsegment
          obtain ⟨rfl, -⟩ := List.cons.inj hsegment
          have hrest : rest = rest' := List.append_cancel_left
            (hs.bytes_append.trans hs'.bytes_append.symm)
          rw [Turn.map, Turn.map, hnext.number_eq (hrest ▸ hnext')]

/-- The loop moves forward, and never beyond the end of the buffer. -/
theorem Turn.Follows.lt_number {s : Segment} {next : ν}
    (h : (Turn.go s next).Follows r buffer bs) (hpos : IsAt buffer pos bs) :
    number pos < number next ∧ number next ≤ buffer.length := by
  obtain - | ⟨hs, hnext⟩ := h
  have hlt := hs.length_lt
  have hlength := hpos.number_add_length
  have hlength' := hnext.number_add_length
  exact ⟨by omega, hnext.le_length⟩

variable [Exact ν]

/-- The cap on the size of a frame is out of reach for a buffer. -/
theorem exists_frameSize?_eq (f : MessageFormat) :
    ∃ size : ν, frameSize? f = some size ∧
      ∀ n < 2 ^ 63, n < number size ↔ n < Header.size + f.length.toNat := by
  obtain ⟨two, htwo, hvalue⟩ := Exact.ofNat? (ν := ν) (n := Header.size) (by decide)
  obtain ⟨length, hlength, hvalue'⟩ := Exact.ofNat? (ν := ν) f.length.toNat_lt
  refine ⟨addCapped two length, by simp [frameSize?, htwo, hlength], ?_⟩
  intro n hn
  have hword : (2 : Nat) ^ 63 < UInt64.size := by decide
  rw [Exact.lt_addCapped_iff (by omega), hvalue, hvalue']

/-- Where a whole frame has a place in a buffer, its size is not capped. -/
theorem exists_frameSize?_eq_of_lt {f : MessageFormat}
    (hlen : Header.size + f.length.toNat < 2 ^ 63) :
    ∃ size : ν, frameSize? f = some size ∧ number size = Header.size + f.length.toNat := by
  obtain ⟨size, hsize, hcap⟩ := exists_frameSize?_eq (ν := ν) f
  have hle := Nat.le_of_not_lt (mt (hcap _ hlen).mp (Nat.lt_irrefl _))
  have hge := Nat.le_of_not_lt (mt (hcap _ (Nat.lt_of_le_of_lt hle hlen)).mpr (Nat.lt_irrefl _))
  exact ⟨size, hsize, Nat.le_antisymm hle hge⟩

section turns

variable (hlen : buffer.length < 2 ^ 63)

include hlen

/-- One byte is left, which may begin a header. -/
theorem exists_turn?_byte {b : UInt8} (h : IsAt buffer pos [b]) :
    ∃ t, turn? r buffer pos = some t ∧ t.Follows r buffer [b] := by
  have hword : buffer.length < UInt64.size := Nat.lt_trans hlen (by decide)
  have hat : IsAt buffer pos ([b] ++ []) := h
  obtain ⟨left, hleft, hcount⟩ := h.exists_left?_eq hword
  obtain ⟨next, hnext, hend⟩ := hat.exists_behind?_eq hword (rfl : 1 = [b].length)
  have hshort : number left < Header.size := hcount ▸ Nat.one_lt_two
  cases hstarts : r.startsHeader b with
  | true =>
      refine ⟨.stop, ?_, .stop (.byte hstarts)⟩
      simp [turn?, h.getElem?_eq, hleft, hshort, hstarts]
  | false =>
      refine ⟨.go (.unrecognized b) next, ?_, .go (.noise hstarts) hend⟩
      simp [turn?, h.getElem?_eq, hleft, hshort, hstarts, hnext]

variable {k : Header} {rest : List UInt8}

/-- What a turn reads of two bytes or more: how many they are, and the second of them. -/
theorem exists_turn?_eq (h : IsAt buffer pos (k.high :: k.low :: rest)) :
    ∃ left second : ν, number left = Header.size + rest.length ∧
      IsAt buffer second (k.low :: rest) ∧
      turn? r buffer pos =
        match r.format? k with
        | none => some (.go (.unrecognized k.high) second)
        | some f => frameTurn? buffer pos left k f := by
  have hword : buffer.length < UInt64.size := Nat.lt_trans hlen (by decide)
  have hat : IsAt buffer pos ([k.high] ++ k.low :: rest) := h
  obtain ⟨left, hleft, hcount⟩ := h.exists_left?_eq hword
  obtain ⟨second, hsecond, hat'⟩ := hat.exists_behind?_eq hword (rfl : 1 = [k.high].length)
  simp only [List.length_cons] at hcount
  have hlong : ¬ number left < Header.size := by simp only [Header.size]; omega
  refine ⟨left, second, by simp only [Header.size]; omega, hat', ?_⟩
  simp only [turn?, h.getElem?_eq, hleft, hlong, hsecond, hat'.getElem?_eq, Option.bind_eq_bind,
    Option.bind_some, if_false]
  rfl

/-- The first byte of two begins no frame. -/
theorem exists_turn?_noise (hf : r.format? k = none)
    (h : IsAt buffer pos (k.high :: k.low :: rest)) :
    ∃ t, turn? r buffer pos = some t ∧ t.Follows r buffer (k.high :: k.low :: rest) := by
  obtain ⟨left, second, -, hat, hturn⟩ := exists_turn?_eq (r := r) hlen h
  exact ⟨.go (.unrecognized k.high) second, by rw [hturn, hf], .go (.noise hf) hat⟩

/-- A header is missing data. -/
theorem frameTurn?_of_lt {f : MessageFormat} {left : ν} (hle : number left ≤ buffer.length)
    (hshort : number left < Header.size + f.length.toNat) :
    frameTurn? buffer pos left k f = some .stop := by
  obtain ⟨size, hsize, hcap⟩ := exists_frameSize?_eq (ν := ν) f
  have hpartial : number left < number size :=
    (hcap _ (Nat.lt_of_le_of_lt hle hlen)).mpr hshort
  simp only [frameTurn?, hsize, hpartial, if_true, Option.bind_eq_bind, Option.bind_some]
  rfl

/-- A frame is cut off. -/
theorem exists_frameTurn?_eq {f : MessageFormat} {left : ν} {data : List UInt8}
    (h : IsAt buffer pos (k.high :: k.low :: (data ++ rest))) (hdata : data.length = f.length.toNat)
    (hleft : number left = Header.size + (data ++ rest).length) :
    ∃ next, frameTurn? buffer pos left k f = some (.go (.message ⟨k, data⟩) next) ∧
      IsAt buffer next rest := by
  have hword : buffer.length < UInt64.size := Nat.lt_trans hlen (by decide)
  have hlength := h.number_add_length
  simp only [List.length_cons, List.length_append, Header.size] at hlength hleft
  have hframe : IsAt buffer pos ((k.bytes ++ data) ++ rest) := h
  have hheader : IsAt buffer pos (k.bytes ++ (data ++ rest)) := h
  obtain ⟨size, hsize, hvalue⟩ :=
    exists_frameSize?_eq_of_lt (ν := ν) (f := f) (by simp only [Header.size]; omega)
  have hbytes : number size = (k.bytes ++ data).length := by
    rw [hvalue, ← hdata, List.length_append]
    rfl
  have hfull : ¬ number left < number size := by
    rw [hvalue, Header.size]
    omega
  obtain ⟨next, hnext, hrest⟩ := hframe.exists_add?_eq hword hbytes
  obtain ⟨start, hstart, hfront⟩ :=
    hheader.exists_behind?_eq hword (rfl : Header.size = k.bytes.length)
  refine ⟨next, ?_, hrest⟩
  simp only [frameTurn?, hsize, hfull, if_false, hnext, hstart, hfront.slice?_eq hrest,
    Option.bind_eq_bind, Option.bind_some]
  rfl

/-- The first two bytes are a header. -/
theorem exists_turn?_frame {f : MessageFormat} (hf : r.format? k = some f)
    (h : IsAt buffer pos (k.high :: k.low :: rest)) :
    ∃ t, turn? r buffer pos = some t ∧ t.Follows r buffer (k.high :: k.low :: rest) := by
  obtain ⟨left, second, hleft, -, hturn⟩ := exists_turn?_eq (r := r) hlen h
  rw [hturn, hf]
  rcases Nat.lt_or_ge rest.length f.length.toNat with hshort | hfull
  · have hlength := h.number_add_length
    simp only [List.length_cons, Header.size] at hlength hleft
    refine ⟨.stop, frameTurn?_of_lt hlen ?_ ?_, .stop (.header hf hshort)⟩
    · omega
    · rw [hleft, Header.size]
      exact Nat.add_lt_add_left hshort 2
  · obtain ⟨data, rest, rfl, hdata⟩ : ∃ data rest', rest = data ++ rest' ∧
        data.length = f.length.toNat :=
      ⟨_, _, (List.take_append_drop f.length.toNat rest).symm, List.length_take_of_le hfull⟩
    obtain ⟨next, hnext, hrest⟩ := exists_frameTurn?_eq hlen h hdata hleft
    exact ⟨_, hnext, .go (.frame data hf hdata) hrest⟩

/-- Every turn has a result, and the right one. -/
theorem exists_turn?_follows (h : IsAt buffer pos bs) (hne : bs ≠ []) :
    ∃ t, turn? r buffer pos = some t ∧ t.Follows r buffer bs := by
  match bs, hne, h with
  | [b], _, h => exact exists_turn?_byte hlen h
  | high :: low :: rest, _, h =>
      cases hf : r.format? ⟨high, low⟩ with
      | none => exact exists_turn?_noise (k := ⟨high, low⟩) hlen hf h
      | some f => exact exists_turn?_frame (k := ⟨high, low⟩) hlen hf h

/-! ## Runs of the loop -/

/-- With a turn for each byte that is left, the loop comes to an end and makes a derivation. -/
theorem exists_scan?_eq {turns : Nat} (h : IsAt buffer pos bs) (hturns : bs.length ≤ turns) :
    ∃ segments stop pending, scan? r buffer turns pos = some (segments, stop) ∧
      IsAt buffer stop pending ∧ r.Cut bs segments pending := by
  induction turns generalizing pos bs with
  | zero =>
      obtain rfl : bs = [] := List.length_eq_zero_iff.mp (Nat.le_zero.mp hturns)
      exact ⟨[], pos, [], by rw [scan?, if_neg h.not_lt_length], h, .done .nil⟩
  | succ turns ih =>
      by_cases hne : bs = []
      · subst hne
        exact ⟨[], pos, [], by rw [scan?, if_neg h.not_lt_length], h, .done .nil⟩
      · rw [scan?, if_pos (h.lt_length_iff.mpr hne)]
        obtain ⟨t, ht, hfollows⟩ := exists_turn?_follows (r := r) hlen h hne
        rw [ht]
        cases hfollows with
        | stop hpartial => exact ⟨[], pos, bs, rfl, h, .done hpartial⟩
        | @go s next rest hs hnext =>
            have hlt := hs.length_lt
            obtain ⟨segments, stop, pending, hscan, hstop, hcut⟩ := ih hnext (by omega)
            exact ⟨s :: segments, stop, pending, by simp [hscan], hstop, hs.cut hcut⟩

end turns

/-- Whatever exact arithmetic the loop is carried out in, it gives what feeding the chunk gives. -/
theorem feedBy?_eq {a : Reassembler} {chunk : List UInt8}
    (hlen : a.pending.length + chunk.length < 2 ^ 63) :
    feedBy? ν a r chunk = some (a.feed r chunk) := by
  rw [← List.length_append] at hlen
  obtain ⟨start, hstart, hat⟩ := exists_ofNat?_zero (ν := ν) (a.pending ++ chunk)
  obtain ⟨stop, hstop, hend⟩ :=
    exists_ofNat?_length (ν := ν) (Nat.lt_trans hlen (by decide))
  obtain ⟨segments, pos, pending, hscan, hpos, hcut⟩ :=
    exists_scan?_eq (r := r) hlen hat (Nat.le_refl _)
  rw [← List.append_nil pending] at hpos
  simp only [feedBy?, feed, hstart, hstop, hscan, hpos.slice?_eq hend, hcut.segment_eq hlen,
    Option.bind_eq_bind, Option.bind_some]
  rfl

/-- **Feeding in machine words is exact.**  A chunk is fed with words of 64 bits for the positions
and sizes, with the greatest word for the size of a frame that has no such size.  Nothing wraps
around, and no position lies outside of the buffer.  The segments and the pending bytes are those of
the same loop with numbers that have no bound, and those that feeding is said to give.  The loop
takes no more turns than there are bytes: wherever it stands in the buffer, its turn has a result,
the same as with numbers without a bound, and if the turn is not the last one, then it moves the
loop forward, but not beyond the end of the buffer. -/
theorem feed_exact_in_words (a : Reassembler) (r : Registry) (chunk : List UInt8)
    (hlen : a.pending.length + chunk.length < 2 ^ 63) :
    feedBy? UInt64 a r chunk = some (a.feed r chunk) ∧
    feedBy? Nat a r chunk = some (a.feed r chunk) ∧
    ∀ pos : UInt64, pos.toNat < (a.pending ++ chunk).length →
      ∃ t, turn? r (a.pending ++ chunk) pos = some t ∧
        turn? r (a.pending ++ chunk) pos.toNat = some (t.map UInt64.toNat) ∧
        ∀ s next, t = .go s next → pos < next ∧ next.toNat ≤ (a.pending ++ chunk).length := by
  refine ⟨feedBy?_eq hlen, feedBy?_eq hlen, fun pos hpos ↦ ?_⟩
  rw [← List.length_append] at hlen
  generalize a.pending ++ chunk = buffer at hlen hpos ⊢
  have hat : IsAt buffer pos (buffer.drop pos.toNat) := ⟨Nat.le_of_lt hpos, rfl⟩
  have hat' : IsAt buffer pos.toNat (buffer.drop pos.toNat) := ⟨Nat.le_of_lt hpos, rfl⟩
  have hne := hat.lt_length_iff.mp hpos
  have hshort : (buffer.drop pos.toNat).length < 2 ^ 63 :=
    List.length_drop ▸ Nat.lt_of_le_of_lt (Nat.sub_le ..) hlen
  obtain ⟨t, ht, hfollows⟩ := exists_turn?_follows (r := r) hlen hat hne
  obtain ⟨t', ht', hfollows'⟩ := exists_turn?_follows (r := r) hlen hat' hne
  have hsame : t.map number = t' := (hfollows.map_number_eq hfollows' hshort).trans t'.map_id
  refine ⟨t, ht, by rw [ht', ← hsame]; rfl, ?_⟩
  rintro s next rfl
  exact hfollows.lt_number hat

/-- Frames with two bytes of data, with none, and with more than there can be.  The first two are
cut off, with noise between them, and the header of the third waits for its data. -/
theorem feed_exact_in_words_without_end :
    let r : Registry :=
      { site := [⟨⟨0x01, 0x02⟩, "Speed", 2, "g"⟩, ⟨⟨0xAA, 0x55⟩, "Ping", 0, ""⟩,
          ⟨⟨0x7F, 0x01⟩, "Endless", 0xFFFFFFFFFFFFFFFF, ""⟩] }
    let a : Reassembler := ⟨[0x01]⟩
    let chunk : List UInt8 := [0x02, 0x7F, 0x01, 0xFF, 0xAA, 0x55, 0x7F, 0x01, 0x02]
    a.pending.length + chunk.length < 2 ^ 63 ∧
      a.feed r chunk =
        ([.message ⟨⟨0x01, 0x02⟩, [0x7F, 0x01]⟩, .unrecognized 0xFF, .message ⟨⟨0xAA, 0x55⟩, []⟩],
          ⟨[0x7F, 0x01, 0x02]⟩) := by
  intro r a chunk
  have hlen : a.pending.length + chunk.length < 2 ^ 63 := by decide
  have hfeed : feedBy? UInt64 a r chunk = some (a.feed r chunk) :=
    (feed_exact_in_words a r chunk hlen).1
  exact ⟨hlen, Option.some.inj (hfeed.symm.trans (by decide))⟩

end Reassembler

end LinkMonitor
