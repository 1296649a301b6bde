import LinkMonitor.Proofs.Stream.Chunks
import Mathlib.Algebra.Group.Nat.Defs
import Mathlib.Logic.ExistsUnique

/-!
# What segmentation computes

`Registry.segment` says how a stream is cut.  This file says which cuts are right, without going
through the bytes in any order, and shows that there is exactly one right cut and that `segment`
finds it.

* `IsSegmentation` is the specification.  It looks at the segments all at once: their bytes are the
  bytes of the stream, frames are complete, bytes outside of frames begin no frame where they
  stand, and what is left over waits for more bytes.
* `Cut` is the same notion as a derivation, one segment after another (`cut_iff_isSegmentation`).
  Segmentation and derivations follow each other step by step, so both directions of
  `segment_eq_iff_cut` are inductions.

Lengths of frames are capped at the greatest machine word.  The cap cannot be seen as long as the
stream is shorter than `2 ^ 63` bytes, since a frame near the cap is never complete then.
-/

namespace LinkMonitor

namespace MessageFormat

variable {f : MessageFormat} {n : Nat}

/-- Fewer than `2 ^ 63` bytes of data do not reach the cap on the length of a frame. -/
theorem lt_frameLength_sub_size_iff (hn : n < 2 ^ 63) :
    n < f.frameLength - Header.size ↔ n < f.length.toNat := by
  simp only [frameLength, Header.size, UInt64.size]
  omega

theorem eq_frameLength_sub_size_iff (hn : n < 2 ^ 63) :
    n = f.frameLength - Header.size ↔ n = f.length.toNat := by
  simp only [frameLength, Header.size, UInt64.size]
  omega

end MessageFormat

open MessageFormat

namespace Registry

variable {r : Registry}

/-! ## The specification -/

/-- A byte that begins no frame, given the bytes behind it. -/
def IsNoise (r : Registry) (b : UInt8) : List UInt8 → Prop
  | [] => r.startsHeader b = false
  | next :: _ => r.format? ⟨b, next⟩ = none

/-- The beginning of a frame, or nothing at all. -/
inductive IsPartial (r : Registry) : List UInt8 → Prop
  | /-- Nothing is left over. -/
    nil : IsPartial r []
  | /-- Half of a header. -/
    byte {b : UInt8} : r.startsHeader b = true → IsPartial r [b]
  | /-- A header with too little data. -/
    header {h : Header} {f : MessageFormat} {data : List UInt8} :
      r.format? h = some f → data.length < f.length.toNat → IsPartial r (h.bytes ++ data)

/-- `IsSegmentation r bs segments pending`: the bytes `bs` are rightly cut into `segments`, with
`pending` left over. -/
structure IsSegmentation (r : Registry) (bs : List UInt8) (segments : List Segment)
    (pending : List UInt8) : Prop where
  /-- Nothing is lost, added or moved. -/
  bytes : segments.flatMap Segment.bytes ++ pending = bs
  /-- Messages have known headers and as much data as their formats say. -/
  message {m : Message} : .message m ∈ segments →
    ∃ f, r.format? m.header = some f ∧ m.data.length = f.length.toNat
  /-- A byte outside of all frames begins none where it stands. -/
  noise (before : List Segment) {b : UInt8} {after : List Segment} :
    segments = before ++ .unrecognized b :: after →
      r.IsNoise b (after.flatMap Segment.bytes ++ pending)
  /-- What is left over waits for more. -/
  pending : r.IsPartial pending

/-! ## Derivations -/

/-- `Cut r bs segments pending`: cutting `bs` from the front, by one segment at a time, gives
`segments` and leaves `pending`. -/
inductive Cut (r : Registry) : List UInt8 → List Segment → List UInt8 → Prop
  | /-- No segment can be cut off. -/
    done {pending : List UInt8} : r.IsPartial pending → Cut r pending [] pending
  | /-- A frame is cut off. -/
    frame {h : Header} {f : MessageFormat} (data : List UInt8) {bs : List UInt8}
      {segments : List Segment} {pending : List UInt8} :
      r.format? h = some f → data.length = f.length.toNat →
      Cut r bs segments pending →
      Cut r (h.high :: h.low :: (data ++ bs)) (.message ⟨h, data⟩ :: segments) pending
  | /-- A byte is cut off that begins no frame. -/
    noise {b : UInt8} {bs : List UInt8} {segments : List Segment} {pending : List UInt8} :
      r.IsNoise b bs → Cut r bs segments pending →
      Cut r (b :: bs) (.unrecognized b :: segments) pending

/-- Derivations lose nothing. -/
theorem Cut.bytes {bs pending : List UInt8} {segments : List Segment}
    (h : r.Cut bs segments pending) : segments.flatMap Segment.bytes ++ pending = bs := by
  induction h with
  | done _ => rfl
  | frame _ _ _ _ ih => simp [Segment.bytes, Message.bytes, Header.bytes, ih]
  | noise _ _ ih => simp [Segment.bytes, ih]

/-- What is derived is right. -/
theorem Cut.isSegmentation {bs pending : List UInt8} {segments : List Segment}
    (h : r.Cut bs segments pending) : r.IsSegmentation bs segments pending := by
  induction h with
  | done hp => exact ⟨rfl, by simp, by simp, hp⟩
  | @frame h f data bs segments pending hf hlen hcut ih =>
      refine ⟨(Cut.frame data hf hlen hcut).bytes, ?_, ?_, ih.pending⟩
      · intro m hm
        rcases List.mem_cons.mp hm with he | hm
        · cases he
          exact ⟨f, hf, hlen⟩
        · exact ih.message hm
      · intro before b after he
        cases before with
        | nil => simp at he
        | cons s before => exact ih.noise before (List.cons.inj he).2
  | @noise b bs segments pending hn hcut ih =>
      refine ⟨(Cut.noise hn hcut).bytes, ?_, ?_, ih.pending⟩
      · intro m hm
        exact ih.message (by simpa using hm)
      · intro before c after he
        cases before with
        | nil =>
            obtain ⟨hs, rfl⟩ := List.cons.inj he
            cases hs
            rwa [hcut.bytes]
        | cons s before => exact ih.noise before (List.cons.inj he).2

/-- What is right can be derived: the first segment is cut off, and the others are rightly cut from
the bytes behind it. -/
theorem IsSegmentation.cut {bs pending : List UInt8} {segments : List Segment}
    (h : r.IsSegmentation bs segments pending) : r.Cut bs segments pending := by
  induction segments generalizing bs with
  | nil =>
      obtain rfl : pending = bs := h.bytes
      exact .done h.pending
  | cons s segments ih =>
      have htail : r.Cut (segments.flatMap Segment.bytes ++ pending) segments pending :=
        ih ⟨rfl, fun hm ↦ h.message (List.mem_cons_of_mem _ hm),
          fun before _ _ he ↦ h.noise (s :: before) (by rw [he]; rfl), h.pending⟩
      have hbytes := h.bytes
      cases s with
      | message m =>
          obtain ⟨f, hf, hlen⟩ := h.message (List.mem_cons_self ..)
          have hcut := Cut.frame m.data hf hlen htail
          simp only [List.flatMap_cons, Segment.bytes, Message.bytes, Header.bytes,
            List.cons_append, List.nil_append, List.append_assoc] at hbytes
          rwa [hbytes] at hcut
      | unrecognized b =>
          have hcut := Cut.noise (h.noise [] rfl) htail
          simp only [List.flatMap_cons, Segment.bytes, List.cons_append, List.nil_append] at hbytes
          rwa [hbytes] at hcut

theorem cut_iff_isSegmentation {bs pending : List UInt8} {segments : List Segment} :
    r.Cut bs segments pending ↔ r.IsSegmentation bs segments pending :=
  ⟨Cut.isSegmentation, IsSegmentation.cut⟩

/-! ## Segmentation is derivation -/

/-- `segment` finds a derivation. -/
theorem cut_segment (r : Registry) {bs : List UInt8} (hlen : bs.length < 2 ^ 63) :
    r.Cut bs (r.segment bs).1 (r.segment bs).2 := by
  fun_induction segment r bs with
  | case1 => exact .done .nil
  | case2 b h => exact .done (.byte h)
  | case3 b h =>
      have hb : r.startsHeader b = false := by simpa using h
      exact .noise hb (.done .nil)
  | case4 high low rest hf segments pending hs ih =>
      rw [hs] at ih
      exact .noise hf (ih (by simp only [List.length_cons] at hlen ⊢; omega))
  | case5 high low rest f hf size data hshort =>
      have hrest : rest.length < f.frameLength - Header.size := by
        simp only [size, data, List.length_take] at hshort
        omega
      refine .done (IsPartial.header (h := ⟨high, low⟩) hf ?_)
      simp only [List.length_cons] at hlen
      exact (lt_frameLength_sub_size_iff (by omega)).mp hrest
  | case6 high low rest f hf size data hfull segments pending hs ih =>
      rw [hs] at ih
      have hrest : data.length ≤ rest.length := List.length_take_le' ..
      have hdata : data.length = f.frameLength - Header.size := by
        simp only [size, data, List.length_take] at hfull ⊢
        omega
      simp only [List.length_cons] at hlen
      have hsize : data.length = f.length.toNat :=
        (eq_frameLength_sub_size_iff (by omega)).mp hdata
      have hcut := Cut.frame (h := ⟨high, low⟩) data hf hsize
        (ih (by rw [List.length_drop]; omega))
      rwa [List.take_append_drop] at hcut

/-- There is no other derivation. -/
theorem Cut.segment_eq {bs pending : List UInt8} {segments : List Segment}
    (h : r.Cut bs segments pending) (hlen : bs.length < 2 ^ 63) :
    r.segment bs = (segments, pending) := by
  induction h with
  | done hp =>
      cases hp with
      | nil => exact segment_nil r
      | byte hb => exact segment_singleton_pending hb
      | @header h f data hf hlt =>
          rw [List.length_append] at hlen
          exact segment_short hf data ((lt_frameLength_sub_size_iff (by omega)).mpr hlt)
  | @frame h f data bs segments pending hf hdata hcut ih =>
      simp only [List.length_cons, List.length_append] at hlen
      have hsize : data.length = f.frameLength - Header.size :=
        (eq_frameLength_sub_size_iff (by omega)).mpr hdata
      rw [segment_frame hf hsize, ih (by omega)]
  | @noise b bs segments pending hn hcut ih =>
      simp only [List.length_cons] at hlen
      have hrest := ih (by omega)
      cases bs with
      | nil =>
          rw [segment_nil] at hrest
          obtain ⟨rfl, rfl⟩ := Prod.mk.inj hrest
          exact segment_singleton_noise hn
      | cons next bs => rw [segment_noise hn, hrest]

theorem segment_eq_iff_cut {bs pending : List UInt8} {segments : List Segment}
    (hlen : bs.length < 2 ^ 63) :
    r.segment bs = (segments, pending) ↔ r.Cut bs segments pending := by
  constructor
  · intro h
    simpa [h] using r.cut_segment hlen
  · exact fun h ↦ h.segment_eq hlen

end Registry

namespace Reassembler

theorem feed_eq_iff_segment_eq {a : Reassembler} {r : Registry} {chunk : List UInt8}
    {segments : List Segment} {pending : List UInt8} :
    a.feed r chunk = (segments, ⟨pending⟩) ↔
      r.segment (a.pending ++ chunk) = (segments, pending) := by
  simp [feed, Prod.ext_iff]

/-- **What feeding a chunk gives.**  The segments and the bytes left pending are those of the
right segmentation of the pending bytes and the chunk, and there is exactly one.  So a stream of
complete frames and of noise between them is split into just these. -/
theorem feed_eq_iff_isSegmentation (a : Reassembler) (r : Registry) (chunk : List UInt8)
    (hlen : a.pending.length + chunk.length < 2 ^ 63) :
    (∀ segments pending, a.feed r chunk = (segments, ⟨pending⟩) ↔
      r.IsSegmentation (a.pending ++ chunk) segments pending) ∧
    (∃! cut : List Segment × List UInt8,
      r.IsSegmentation (a.pending ++ chunk) cut.1 cut.2) ∧
    (∀ segments, r.IsSegmentation (a.pending ++ chunk) segments [] →
      a.feed r chunk = (segments, {})) := by
  have hlen' : (a.pending ++ chunk).length < 2 ^ 63 := by simpa using hlen
  have hiff : ∀ segments pending, a.feed r chunk = (segments, ⟨pending⟩) ↔
      r.IsSegmentation (a.pending ++ chunk) segments pending := by
    intro segments pending
    rw [feed_eq_iff_segment_eq, Registry.segment_eq_iff_cut hlen', Registry.cut_iff_isSegmentation]
  refine ⟨hiff, ⟨r.segment (a.pending ++ chunk), ?_, ?_⟩, ?_⟩
  · exact (r.cut_segment hlen').isSegmentation
  · intro cut hcut
    exact (hcut.cut.segment_eq hlen').symm
  · exact fun segments h ↦ (hiff segments []).mpr h

/-- A frame whose data looks like a header, noise, a frame without data, and a frame that is not
complete.  Half of the first header is pending. -/
theorem feed_two_formats :
    let r : Registry :=
      { site := [⟨⟨0x01, 0x02⟩, "Speed", 2, "g"⟩, ⟨⟨0xAA, 0x55⟩, "Ping", 0, ""⟩] }
    let a : Reassembler := ⟨[0x01]⟩
    let chunk : List UInt8 := [0x02, 0xAA, 0x55, 0xFF, 0xAA, 0x55, 0x01, 0x02, 0x07]
    a.pending.length + chunk.length < 2 ^ 63 ∧
      a.feed r chunk =
        ([.message ⟨⟨0x01, 0x02⟩, [0xAA, 0x55]⟩, .unrecognized 0xFF, .message ⟨⟨0xAA, 0x55⟩, []⟩],
          ⟨[0x01, 0x02, 0x07]⟩) := by
  intro r a chunk
  have hlen : a.pending.length + chunk.length < 2 ^ 63 := by decide
  have hspeed : r.format? ⟨0x01, 0x02⟩ = some ⟨⟨0x01, 0x02⟩, "Speed", 2, "g"⟩ := rfl
  have hping : r.format? ⟨0xAA, 0x55⟩ = some ⟨⟨0xAA, 0x55⟩, "Ping", 0, ""⟩ := rfl
  have hnoise : r.format? ⟨0xFF, 0xAA⟩ = none := rfl
  have hrest : r.IsPartial ([0x01, 0x02] ++ [0x07]) :=
    .header (h := ⟨0x01, 0x02⟩) hspeed (by decide)
  have hcut : r.Cut (a.pending ++ chunk) _ _ :=
    .frame (h := ⟨0x01, 0x02⟩) [0xAA, 0x55] hspeed rfl <|
      .noise (b := 0xFF) hnoise <|
      .frame (h := ⟨0xAA, 0x55⟩) [] hping rfl <| .done hrest
  exact ⟨hlen, ((feed_eq_iff_isSegmentation a r chunk hlen).1 _ _).mpr hcut.isSegmentation⟩

end Reassembler

end LinkMonitor
