import LinkMonitor.Proofs.Monitor.Polling
import LinkMonitor.Proofs.Monitor.Submissions
import LinkMonitor.Proofs.Stream.HexInput

/-!
# Typing what a stream carries

Bytes get into a monitor in two ways.  As part of a stream they are cut into segments, and as typed
bytes they are one message or none.  The two ways come to the same for bytes that are a whole frame,
and for bytes in which no frame begins, since these are cut into what they are typed as
(`IsFrame.segment_eq`, `OnlyNoise.segment_eq`).  Other bytes show a difference: two frames that are
typed together are one message of the wrong length.
-/

namespace LinkMonitor

namespace Registry

variable {r : Registry}

/-- The bytes are a frame: a known header with as much data as its format says. -/
def IsFrame (r : Registry) (bs : List UInt8) : Prop :=
  ∃ h f data, r.format? h = some f ∧ data.length = f.length.toNat ∧ bs = h.bytes ++ data

/-- No frame begins in the bytes: no two of them in a row are a known header, and the last one does
not begin any. -/
structure OnlyNoise (r : Registry) (bs : List UInt8) : Prop where
  pairs : bs.IsChain fun high low ↦ r.format? ⟨high, low⟩ = none
  last {b : UInt8} : bs.getLast? = some b → r.startsHeader b = false

/-- A frame is cut off as the message that it is typed as.  Its size is the length of a list in
memory, so that the cap on lengths of frames, the greatest machine word, cannot be in the way. -/
theorem IsFrame.segment_eq {bs : List UInt8} (h : r.IsFrame bs) (hlen : bs.length < UInt64.size) :
    r.segment bs = (r.typed bs, []) := by
  obtain ⟨k, f, data, hf, hdata, rfl⟩ := h
  have hsize : data.length = f.frameLength - Header.size := by
    have hbytes : (k.bytes ++ data).length = 2 + data.length := List.length_append
    simp only [MessageFormat.frameLength, Header.size]
    omega
  have hcut := segment_frame hf hsize []
  rw [List.append_nil, segment_nil] at hcut
  rw [typed_header hf]
  exact hcut

theorem OnlyNoise.segment_eq_map {bs : List UInt8} (h : r.OnlyNoise bs) :
    r.segment bs = (bs.map .unrecognized, []) := by
  induction bs with
  | nil => exact segment_nil r
  | cons b bs ih =>
      cases bs with
      | nil => exact segment_singleton_noise (h.last rfl)
      | cons next bs =>
          obtain ⟨hpair, hpairs⟩ := List.isChain_cons_cons.mp h.pairs
          have hrest := ih ⟨hpairs, fun hb ↦ h.last (by rwa [List.getLast?_cons_cons])⟩
          rw [segment_noise hpair, hrest]
          rfl

theorem OnlyNoise.typed_eq_map {bs : List UInt8} (h : r.OnlyNoise bs) :
    r.typed bs = bs.map .unrecognized := by
  match bs, h with
  | [], _ => rfl
  | [b], _ => rfl
  | high :: low :: data, h => exact typed_noise (List.isChain_cons_cons.mp h.pairs).1 data

theorem OnlyNoise.segment_eq {bs : List UInt8} (h : r.OnlyNoise bs) :
    r.segment bs = (r.typed bs, []) := by
  rw [h.segment_eq_map, h.typed_eq_map]

end Registry

namespace Monitor

variable {m : Monitor}

/-- Bytes that are cut into what they are typed as are handled as that. -/
theorem ingest_of_segment_eq_typed {bs : List UInt8} (hm : m.pending = [])
    (hbs : m.registry.segment bs = (m.registry.typed bs, [])) :
    m.ingest bs = m.handleAll (m.registry.typed bs) := by
  have hfeed : m.reassembler.feed m.registry bs = (m.registry.typed bs, m.reassembler) := by
    have hreassembler : m.reassembler = ⟨[]⟩ := congrArg Reassembler.mk hm
    rw [Reassembler.feed, hreassembler, List.nil_append, hbs]
  rw [ingest_eq_handleAll, absorb, hfeed]

/-- **Typed bytes and bytes of the stream.**  Given a monitor without pending bytes, let some bytes
be a whole frame, or let no frame begin in them.  Then typing them in any spelling is accepted, and
reports and leaves behind what comes of ingesting them in any chunks; no bytes are pending after
it. -/
theorem submit_eq_ingest (hm : m.pending = []) {bs : List UInt8} (hne : bs ≠ [])
    (hlen : bs.length < UInt64.size) (hbs : m.registry.IsFrame bs ∨ m.registry.OnlyNoise bs)
    {input : String} (hinput : HexInput.Spells input.toList bs) {chunks : List (List UInt8)}
    (hchunks : chunks.flatten = bs) :
    (m.submit input).2.2 = .ok () ∧
      (m.submit input).2.1 = m.emitted (chunks.map .ingest) ∧
      (m.submit input).1 = (m.run (chunks.map .ingest)).1 ∧
      (m.submit input).1.pending = [] := by
  have hsegment : m.registry.segment bs = (m.registry.typed bs, []) := by
    rcases hbs with hframe | hnoise
    · exact hframe.segment_eq hlen
    · exact hnoise.segment_eq
  have hreads : ∀ a ∈ chunks.map Action.ingest, a.isRead = true := by simp [Action.isRead]
  have hreceived : (chunks.map Action.ingest).flatMap Action.received = bs := by
    rw [← hchunks, List.flatMap_map]
    exact List.flatMap_id
  obtain ⟨hrun, hemitted⟩ := run_of_isRead (UpToDate.nothing hm).settled hreads
  rw [hreceived, ingest_of_segment_eq_typed hm hsegment] at hrun hemitted
  rw [submit_of_parse_eq_ok (HexInput.parse_of_spells hinput hne)]
  refine ⟨rfl, hemitted.symm, hrun.symm, ?_⟩
  rw [pending, handleAll_reassembler]
  exact hm

/-- A frame with a header in its data is typed with all sorts of blanks, and comes in as four
chunks, one of which is empty. -/
theorem submit_eq_ingest_header_in_data :
    let m : Monitor :=
      { registry :=
          { site := [⟨⟨0x01, 0x02⟩, "Speed", 2, "g * 2 h"⟩, ⟨⟨0xAA, 0x55⟩, "Ping", 0, ""⟩] } }
    let bs : List UInt8 := [0x01, 0x02, 0xAA, 0x55]
    let input : String := " 1\t02  aA\u200355\n"
    let chunks : List (List UInt8) := [[0x01], [], [0x02, 0xAA], [0x55]]
    m.pending = [] ∧ bs ≠ [] ∧ bs.length < UInt64.size ∧ m.registry.IsFrame bs ∧
      HexInput.Spells input.toList bs ∧ chunks.flatten = bs ∧
      (m.submit input).2.1 = m.emitted (chunks.map .ingest) ∧
      (m.submit input).2.1 = [.decoded "Speed:  43860 h"] ∧
      (m.submit input).1 = (m.run (chunks.map .ingest)).1 := by
  intro m bs input chunks
  have hframe : m.registry.IsFrame bs := ⟨⟨0x01, 0x02⟩, _, [0xAA, 0x55], rfl, rfl, rfl⟩
  have hinput : HexInput.Spells input.toList bs := by
    have htext : input.toList = ' ' :: (['1'] ++ '\t' :: (['0', '2'] ++ ' ' :: ' ' ::
        (['a', 'A'] ++ '\u2003' :: (['5', '5'] ++ '\n' :: [])))) := by decide
    rw [htext]
    exact .blank rfl <| .word (.one (by decide)) rfl <| .word (.two (by decide) (by decide)) rfl <|
      .blank rfl <| .word (.two (by decide) (by decide)) rfl <|
      .word (.two (by decide) (by decide)) rfl .nil
  have hchunks : chunks.flatten = bs := rfl
  obtain ⟨-, hevents, hafter, -⟩ :=
    submit_eq_ingest rfl (by decide) (by decide) (.inl hframe) hinput hchunks
  exact ⟨rfl, by decide, by decide, hframe, hinput, hchunks, hevents, by decide +kernel, hafter⟩

end Monitor

end LinkMonitor
