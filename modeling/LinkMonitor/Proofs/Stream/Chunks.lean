import LinkMonitor.Stream.Segmentation

/-!
# Streams that arrive in chunks

Where a stream is cut into chunks is an accident of the link.  This file shows that the cuts leave
no trace: feeding the chunks one after another gives the segments that feeding the whole stream at
once gives, and leaves the same bytes pending.

Everything turns on `segment_append`, which cuts `s ++ t` in two steps: `s` first, and then the
bytes that `s` leaves pending together with `t`.  Bytes are pending for one of three reasons, and
only one of them needs an argument.  A single last byte is judged by `startsHeader` as long as
nothing follows it, and by the format of a pair as soon as something does; the two judgements agree
because `startsHeader` asks for some format of some pair (`startsHeader_iff`).
-/

namespace LinkMonitor

namespace Registry

variable {r : Registry}

/-- A byte that begins no header forms none with any byte behind it. -/
theorem format?_eq_none_of_startsHeader {b : UInt8} (h : r.startsHeader b = false) (l : UInt8) :
    r.format? ⟨b, l⟩ = none := by
  cases hf : r.format? ⟨b, l⟩ with
  | none => rfl
  | some f =>
      have hs : r.startsHeader b = true := startsHeader_iff.mpr ⟨l, by rw [hf]; rfl⟩
      rw [h] at hs
      contradiction

/-! ## One cut -/

theorem segment_singleton_pending {b : UInt8} (h : r.startsHeader b = true) :
    r.segment [b] = ([], [b]) := by
  rw [segment, if_pos h]

theorem segment_singleton_noise {b : UInt8} (h : r.startsHeader b = false) :
    r.segment [b] = ([.unrecognized b], []) := by
  simp [segment, h]

/-- A byte that forms no header with the next one is a segment of its own. -/
theorem segment_noise {b n : UInt8} (h : r.format? ⟨b, n⟩ = none) (rest : List UInt8) :
    r.segment (b :: n :: rest) =
      (.unrecognized b :: (r.segment (n :: rest)).1, (r.segment (n :: rest)).2) := by
  rw [segment, h]

/-- A header stays pending as long as data is missing. -/
theorem segment_short {h : Header} {f : MessageFormat} (hf : r.format? h = some f)
    (rest : List UInt8) (hlt : rest.length < f.frameLength - Header.size) :
    r.segment (h.high :: h.low :: rest) = ([], h.high :: h.low :: rest) := by
  rw [segment, show r.format? ⟨h.high, h.low⟩ = some f from hf]
  have hlen : (rest.take (f.frameLength - Header.size)).length < f.frameLength - Header.size := by
    rw [List.length_take]
    omega
  simp only [hlen, if_true]

/-- A header and its data are a segment. -/
theorem segment_frame {h : Header} {f : MessageFormat} (hf : r.format? h = some f)
    {data : List UInt8} (hlen : data.length = f.frameLength - Header.size) (rest : List UInt8) :
    r.segment (h.high :: h.low :: (data ++ rest)) =
      (.message ⟨h, data⟩ :: (r.segment rest).1, (r.segment rest).2) := by
  rw [segment, show r.format? ⟨h.high, h.low⟩ = some f from hf]
  simp only [← hlen, List.take_left', List.drop_left', Nat.lt_irrefl, if_false]

/-- Bytes can be cut in two steps, the second of which starts from what the first leaves
pending. -/
theorem segment_append (r : Registry) (s t : List UInt8) :
    r.segment (s ++ t) =
      ((r.segment s).1 ++ (r.segment ((r.segment s).2 ++ t)).1,
        (r.segment ((r.segment s).2 ++ t)).2) := by
  fun_induction segment r s with
  | case1 => rfl
  | case2 b h => rfl
  | case3 b h =>
      have hb : r.startsHeader b = false := by simpa using h
      cases t with
      | nil => simp [segment_singleton_noise hb]
      | cons n t =>
          simp [segment_noise (format?_eq_none_of_startsHeader hb n)]
  | case4 high low rest hf segments pending hs ih =>
      rw [hs] at ih
      simp only [List.cons_append, segment_noise hf] at ih ⊢
      rw [ih]
  | case5 => rfl
  | case6 high low rest f hf size data hlen segments pending hs ih =>
      rw [hs] at ih
      have hdata : data.length = f.frameLength - Header.size := by
        simp only [data, List.length_take] at hlen ⊢
        omega
      have hsplit : high :: low :: rest ++ t = high :: low :: (data ++ (rest.drop size ++ t)) := by
        simp [data, ← List.append_assoc]
      rw [hsplit, segment_frame (h := ⟨high, low⟩) hf hdata, ih]
      rfl

end Registry

namespace Reassembler

/-- Takes chunks one after another and gives the segments of all of them. -/
def feedAll (a : Reassembler) (r : Registry) : List (List UInt8) → List Segment × Reassembler
  | [] => ([], a)
  | chunk :: chunks =>
    let (segments, a) := a.feed r chunk
    let (rest, a) := a.feedAll r chunks
    (segments ++ rest, a)

/-- Two chunks in a row are as good as one. -/
theorem feed_append (a : Reassembler) (r : Registry) (s t : List UInt8) :
    a.feed r (s ++ t) =
      ((a.feed r s).1 ++ ((a.feed r s).2.feed r t).1, ((a.feed r s).2.feed r t).2) := by
  simp only [feed, ← List.append_assoc]
  rw [Registry.segment_append]

/-- **Chunks leave no trace.**  A stream that is cut into one or more chunks, of any sizes and
after any pending bytes, gives the segments of the whole stream and leaves its pending bytes. -/
theorem feedAll_cons_eq_feed (a : Reassembler) (r : Registry) (chunk : List UInt8)
    (chunks : List (List UInt8)) :
    a.feedAll r (chunk :: chunks) = a.feed r (chunk :: chunks).flatten := by
  induction chunks generalizing a chunk with
  | nil => simp [feedAll]
  | cons next chunks ih =>
      have h := ih (a.feed r chunk).2 next
      rw [List.flatten_cons, feed_append, ← h]
      rfl

end Reassembler

end LinkMonitor
