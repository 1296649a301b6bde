import LinkMonitor.Proofs.Command.Catalogs
import LinkMonitor.Proofs.Command.Decoding
import LinkMonitor.Proofs.Monitor.Matching

/-!
# What strict decoding lets pass

Strict decoding fails if the counters say that bytes were unrecognized or messages were of a wrong
length.  This file says what that means for the capture: it passes if it is made up of whole frames,
followed by at most the beginning of one more (`Registry.IsFramed`), and fails in all other cases.

One direction is that such a capture is cut into its frames, and not otherwise; that is the
uniqueness of segmentation (`Cut.segment_eq`).  The other is that nothing but noise puts a counter
forward, since messages of the stream have data of the right length.
-/

namespace LinkMonitor

open LinkMonitor.Output LinkMonitor.Setup

/-- No byte was unrecognized, and no message of a wrong length. -/
def Stats.IsClean (stats : Stats) : Prop :=
  stats.unrecognizedBytes = 0 ∧ stats.lengthMismatches = 0

namespace Registry

variable {r : Registry} {bs : List UInt8} {ss : List Segment}

/-- Whole frames one after another, and behind them at most the beginning of one more. -/
def IsFramed (r : Registry) (bs : List UInt8) : Prop :=
  ∃ (messages : List Message) (rest : List UInt8),
    bs = messages.flatMap Message.bytes ++ rest ∧
      (∀ m ∈ messages, ∃ f, r.format? m.header = some f ∧ m.data.length = f.length.toNat) ∧
      r.IsPartial rest

/-- Messages and what is left over, if they are right by themselves, are rightly cut. -/
theorem isSegmentation_map_message {messages : List Message} {rest : List UInt8}
    (hm : ∀ m ∈ messages, ∃ f, r.format? m.header = some f ∧ m.data.length = f.length.toNat)
    (hr : r.IsPartial rest) :
    r.IsSegmentation (messages.flatMap Message.bytes ++ rest) (messages.map .message) rest := by
  refine ⟨?_, ?_, ?_, hr⟩
  · rw [List.flatMap_map]
    rfl
  · intro m hmem
    exact hm m (by simpa using hmem)
  · intro before b after he
    have hmem : Segment.unrecognized b ∈ messages.map Segment.message := by simp [he]
    simp at hmem

/-- A capture is framed if nothing but messages is cut out of it. -/
theorem isFramed_iff (hlen : bs.length < 2 ^ 63) :
    r.IsFramed bs ↔ ∃ messages : List Message, (r.segment bs).1 = messages.map .message := by
  constructor
  · rintro ⟨messages, rest, rfl, hm, hr⟩
    have hcut := (isSegmentation_map_message hm hr).cut
    exact ⟨messages, by rw [hcut.segment_eq hlen]⟩
  · rintro ⟨messages, hs⟩
    have hseg := (r.cut_segment hlen).isSegmentation
    rw [hs] at hseg
    have hbytes := hseg.bytes
    rw [List.flatMap_map] at hbytes
    exact ⟨messages, (r.segment bs).2, hbytes.symm,
      fun m hmem ↦ hseg.message (List.mem_map_of_mem hmem), hseg.pending⟩

/-- No byte counts as unrecognized if there are only messages. -/
theorem unrecognizedBytes_countAll_eq_zero_iff :
    (r.countAll ss).unrecognizedBytes = 0 ↔
      ∃ messages : List Message, ss = messages.map .message := by
  induction ss with
  | nil => exact ⟨fun _ ↦ ⟨[], rfl⟩, fun _ ↦ rfl⟩
  | cons s ss ih =>
      have hcons : (r.countAll (s :: ss)).unrecognizedBytes =
          (r.count s).unrecognizedBytes + (r.countAll ss).unrecognizedBytes := rfl
      rw [hcons, Nat.add_eq_zero_iff, ih]
      cases s with
      | message m =>
          have hm : (r.count (.message m)).unrecognizedBytes = 0 := by
            cases hf : r.format? m.header <;> simp [count, hf]
          constructor
          · rintro ⟨-, messages, rfl⟩
            exact ⟨m :: messages, rfl⟩
          · rintro ⟨messages, he⟩
            obtain ⟨_, messages, -, -, hss⟩ := List.map_eq_cons_iff.mp he.symm
            exact ⟨hm, messages, hss.symm⟩
      | unrecognized b =>
          constructor
          · rintro ⟨hb, -⟩
            simp [count] at hb
          · rintro ⟨messages, he⟩
            obtain ⟨_, _, -, hm, -⟩ := List.map_eq_cons_iff.mp he.symm
            cases hm

end Registry

namespace Monitor

/-- What a new monitor has counted after a chunk is what the segments of the chunk count for. -/
theorem stats_ingest_new (r : Registry) (chunk : List UInt8) :
    (({ registry := r } : Monitor).ingest chunk).1.stats = r.countAll (r.segment chunk).1 := by
  rw [ingest_eq_handleAll, handleAll_eq_credit]
  exact zero_add (r.countAll (r.segment chunk).1)

end Monitor

namespace Decoding

variable {t : FileTree} {input : String} {catalogs : CatalogOptions} {size : Option Nat}
  {s : Settings} {capture : List UInt8} {notes : List Event} {r : Registry} {o : Options}

/-- The counters of a capture are clean if it is framed. -/
theorem isClean_iff_isFramed (hlen : capture.length < 2 ^ 63) :
    (({ registry := r } : Monitor).ingest capture).1.stats.IsClean ↔ r.IsFramed capture := by
  have hmismatches :
      (({ registry := r } : Monitor).ingest capture).1.stats.lengthMismatches = 0 :=
    Monitor.lengthMismatches_ingest (m := { registry := r }) (by simpa [Monitor.pending] using hlen)
  rw [Registry.isFramed_iff hlen, ← Registry.unrecognizedBytes_countAll_eq_zero_iff,
    ← Monitor.stats_ingest_new]
  exact and_iff_left hmismatches

theorem code_atOnce_eq_zero_iff {stamp : String} {strict : Bool} :
    (atOnce t stamp notes r capture o strict).code = 0 ↔
      (strict = true → (({ registry := r } : Monitor).ingest capture).1.stats.IsClean) := by
  cases strict with
  | false => exact ⟨nofun, fun _ ↦ rfl⟩
  | true =>
      generalize hstats : (({ registry := r } : Monitor).ingest capture).1.stats = stats
      have hresult : (atOnce t stamp notes r capture o true).result =
          if 0 < stats.unrecognizedBytes || 0 < stats.lengthMismatches then
            .error .unrecognizedInput
          else .ok () := by
        rw [← hstats]
        rfl
      by_cases hclean : stats.IsClean
      · simp [Outcome.code, hresult, hclean, hclean.1, hclean.2]
      · have hpos : 0 < stats.unrecognizedBytes ∨ 0 < stats.lengthMismatches := by
          unfold Stats.IsClean at hclean
          omega
        simp [Outcome.code, hresult, hclean, hpos]

/-- **Strict decoding passes framed captures only.**  Take a capture and catalogs that can be
loaded.  A capture is held in memory, so that it has fewer than `2 ^ 63` bytes.  Without times,
strict decoding succeeds if the capture is made up of whole frames and at most the beginning of one
more, and fails in all other cases.  It prints as output what decoding prints that is not strict,
and that succeeds in any case. -/
theorem run_decode_strict (h : Finds t input catalogs size s capture)
    (hr : (registry t s).2 = .ok r) (hlen : capture.length < 2 ^ 63) (ho : o.timestamps = false)
    (stamp stamp' : String) :
    let strict := (Command.decode input catalogs size o true).run t stamp
    let lenient := (Command.decode input catalogs size o false).run t stamp'
    (strict.code = 0 ↔ r.IsFramed capture) ∧ (¬ r.IsFramed capture → strict.code = 2) ∧
      strict.out = lenient.out ∧ lenient.code = 0 := by
  intro strict lenient
  have hloaded : registry t s = ((registry t s).1, .ok r) := Prod.ext rfl hr
  have hstrict : strict = atOnce t stamp (registry t s).1 r capture o true :=
    decode_eq_atOnce h hloaded stamp true
  have hlenient : lenient = atOnce t stamp' (registry t s).1 r capture o false :=
    decode_eq_atOnce h hloaded stamp' false
  have hcode : strict.code = 0 ↔ r.IsFramed capture := by
    rw [hstrict, code_atOnce_eq_zero_iff, isClean_iff_isFramed hlen]
    exact forall_prop_of_true rfl
  refine ⟨hcode, ?_, ?_, ?_⟩
  · exact fun hn ↦ strict.code_eq_zero_or_two.resolve_left (mt hcode.mp hn)
  · rw [hstrict, hlenient]
    exact (showsSame_atOnce ho t t stamp stamp' _ r capture false).out
  · rw [hlenient, code_atOnce_eq_zero_iff]
    exact nofun

/-- A frame whose data looks like a header, a frame without data, and a frame that is not
complete. -/
theorem run_decode_strict_cut_short :
    let capture : List UInt8 := [0x01, 0x02, 0xAA, 0x55, 0xAA, 0x55, 0x01, 0x02, 0x07]
    let table := Text.utf8 "1,2,Speed,2,g\n0xAA,0x55,Ping,0\n"
    let t : FileTree := ⟨["home"], [(["home"], .directory),
      (["capture.bin", "home"], .file capture), (["local.csv", "home"], .file table)]⟩
    let s : Settings := ⟨false, some "local.csv", [], 64⟩
    let catalogs : CatalogOptions := { siteCatalog := some "local.csv" }
    let r : Registry :=
      { site := [⟨⟨0x01, 0x02⟩, "Speed", 2, "g"⟩, ⟨⟨0xAA, 0x55⟩, "Ping", 0, ""⟩] }
    (Finds t "capture.bin" catalogs none s capture ∧ (registry t s).2 = .ok r ∧
      capture.length < 2 ^ 63) ∧
    r.IsFramed capture ∧
      ((Command.decode "capture.bin" catalogs none {} true).run t "").code = 0 := by
  intro capture table t s catalogs r
  have h : Finds t "capture.bin" catalogs none s capture :=
    ⟨"capture.bin", by decide +kernel, by decide +kernel⟩
  have hr : (registry t s).2 = .ok r := by decide +kernel
  have hlen : capture.length < 2 ^ 63 := by decide
  have hspeed : r.format? ⟨0x01, 0x02⟩ = some ⟨⟨0x01, 0x02⟩, "Speed", 2, "g"⟩ := rfl
  have hping : r.format? ⟨0xAA, 0x55⟩ = some ⟨⟨0xAA, 0x55⟩, "Ping", 0, ""⟩ := rfl
  have hrest : r.IsPartial ([0x01, 0x02] ++ [0x07]) :=
    .header (h := ⟨0x01, 0x02⟩) hspeed (by decide)
  have hframed : r.IsFramed capture := by
    refine ⟨[⟨⟨0x01, 0x02⟩, [0xAA, 0x55]⟩, ⟨⟨0xAA, 0x55⟩, []⟩], _, rfl, ?_, hrest⟩
    simp [hspeed, hping]
  exact ⟨⟨h, hr, hlen⟩, hframed, (run_decode_strict h hr hlen rfl "" "").1.mpr hframed⟩

end Decoding

end LinkMonitor
