import LinkMonitor.Command.Run
import LinkMonitor.Proofs.Command.Setup
import LinkMonitor.Proofs.Monitor.Playback

/-!
# Decoding at any pace

The chunk size with which a capture is decoded is a setting, given with the command or configured.
It does not show: what is printed as output and as errors, and the exit code, are those of taking
the whole capture at once and closing the stream (`atOnce`).

Most of this is `Monitor.playsWhole_play`.  What remains is that nothing in front of the playback
looks at the chunk size either, except to refuse zero: the same catalogs are loaded, with the same
notes (`Setup.SameCatalogs.registry_eq`).
-/

namespace LinkMonitor

open LinkMonitor.Output LinkMonitor.Setup

/-! ## Printing without times -/

theorem Output.Options.printAll_of_timestamps {o : Options} (ho : o.timestamps = false)
    (stamp stamp' : String) (es : List Event) : o.printAll stamp es = o.printAll stamp' es := by
  have hline (e : Event) : o.line stamp e = o.line stamp' e := by simp [Options.line, ho]
  have hprint (e : Event) : o.print stamp e = o.print stamp' e := by
    simp only [Options.print, hline]
  simp only [Options.printAll, hprint]

/-- Two outcomes look the same from outside, but for the files. -/
structure Outcome.ShowsSame (a b : Outcome) : Prop where
  out : a.out = b.out
  err : a.err = b.err
  code : a.code = b.code

namespace Decoding

variable {t t' : FileTree} {input input' path : String} {catalogs catalogs' : CatalogOptions}
  {size size' : Option Nat} {s s' : Settings} {capture : List UInt8} {notes : List Event}
  {r : Registry} {o : Options}

/-! ## Preparation -/

theorem prepare_eq_ok_iff :
    prepare t input catalogs size = .ok (path, s) ↔
      resolve t input = .ok path ∧ requireFile t path = .ok () ∧
        settings t catalogs size = .ok s ∧ s.chunkSize ≠ 0 := by
  simp only [prepare, bind_eq_ok_iff]
  constructor
  · rintro ⟨found, hp, ⟨⟩, hf, s', hs, h⟩
    split at h
    · contradiction
    · rename_i hz
      cases h
      exact ⟨hp, hf, hs, hz⟩
  · rintro ⟨hp, hf, hs, hz⟩
    exact ⟨path, hp, (), hf, s, hs, if_neg hz⟩

/-- What a command line to decode comes upon in a tree: settings in force, whose chunk size is not
zero, and the bytes of a capture. -/
def Finds (t : FileTree) (input : String) (catalogs : CatalogOptions) (size : Option Nat)
    (s : Settings) (capture : List UInt8) : Prop :=
  ∃ path, prepare t input catalogs size = .ok (path, s) ∧ t.read path = .ok capture

/-- Any chunk size but zero may be given instead. -/
theorem Finds.withChunkSize (h : Finds t input catalogs size s capture) {n : Nat} (hn : 0 < n) :
    Finds t input catalogs (some n) { s with chunkSize := n } capture := by
  obtain ⟨path, hp, hc⟩ := h
  obtain ⟨hpath, hfile, hs, -⟩ := prepare_eq_ok_iff.mp hp
  exact ⟨path, prepare_eq_ok_iff.mpr ⟨hpath, hfile, settings_chunkSize hs n, by simp; omega⟩, hc⟩

theorem exists_start (capture : List UInt8) {n : Nat} (hn : 0 < n) :
    ∃ source, Replay.start capture n = .ok source ∧ source.isOpen = true ∧
      source.unread = capture ∧ source.chunkSize = n ∧ source.size = capture.length :=
  ⟨⟨capture, 0, n, true, hn⟩, dif_pos hn, rfl, rfl, rfl, rfl⟩

/-! ## Decoding -/

/-- What comes of taking a whole capture at once and closing the stream behind it, with notes on the
catalogs in front and a summary at the end. -/
def atOnce (t : FileTree) (stamp : String) (notes : List Event) (r : Registry)
    (capture : List UInt8) (o : Options) (strict : Bool) : Outcome :=
  let (m, events) := ({ registry := r } : Monitor).ingest capture
  let (m, closing, _) := m.close
  { printed := o.printAll stamp (notes ++ events ++ closing) ++
      { err := if o.quiet then [] else [summary m.stats capture.length] }
    result :=
      if strict && (0 < m.stats.unrecognizedBytes || 0 < m.stats.lengthMismatches) then
        .error .unrecognizedInput
      else .ok ()
    tree := t }

theorem decode_eq_atOnce (h : Finds t input catalogs size s capture)
    (hr : registry t s = (notes, .ok r)) (stamp : String) (strict : Bool) :
    decode t stamp input catalogs size o strict = atOnce t stamp notes r capture o strict := by
  obtain ⟨path, hp, hc⟩ := h
  have hpos : 0 < s.chunkSize := Nat.pos_of_ne_zero (prepare_eq_ok_iff.mp hp).2.2.2
  obtain ⟨source, hstart, hopen, hunread, -, hsize⟩ := exists_start capture hpos
  have hplay := Monitor.playsWhole_play (Monitor.settled_new r) hopen
  have hreplay : replay t path s.chunkSize = .ok source := by simp only [replay, hc, hstart]
  rw [decode, hp]
  simp only [hr, Except.bind, hreplay, Except.mapError, Except.map, hplay.result, hplay.monitor,
    hplay.events, hplay.size, hunread, hsize]
  rfl

/-- Without times, what is shown does not depend on when the capture is decoded. -/
theorem showsSame_atOnce (ho : o.timestamps = false) (t t' : FileTree) (stamp stamp' : String)
    (notes : List Event) (r : Registry) (capture : List UInt8) (strict : Bool) :
    (atOnce t stamp notes r capture o strict).ShowsSame
      (atOnce t' stamp' notes r capture o strict) := by
  have hprint (es : List Event) := Options.printAll_of_timestamps ho stamp stamp' es
  constructor <;> simp only [atOnce, Outcome.out, Outcome.err, Outcome.code, hprint]

/-- **The chunk size does not show.**  Take two command lines to decode the same capture with the
same catalogs, which can be loaded.  Their chunk sizes are given or configured, and may differ in
any way as long as neither is zero.  Without times, both print the same and end with the same exit
code, namely what comes of taking the whole capture at once and closing the stream.  A capture of
any size, played back in chunks of any size, takes as many polls as there are chunks. -/
theorem run_decode_showsSame (h : Finds t input catalogs size s capture)
    (h' : Finds t' input' catalogs' size' s' capture) (hs : SameCatalogs t s t' s')
    (hr : (registry t s).2 = .ok r) (ho : o.timestamps = false) (strict : Bool)
    (stamp stamp' : String) :
    let run := (Command.decode input catalogs size o strict).run t stamp
    let run' := (Command.decode input' catalogs' size' o strict).run t' stamp'
    run.ShowsSame run' ∧
      run.ShowsSame (atOnce t stamp (registry t s).1 r capture o strict) ∧
      (∀ n, 0 < n → Finds t input catalogs (some n) { s with chunkSize := n } capture) ∧
      (∀ n, 0 < n → ∃ source, Replay.start capture n = .ok source ∧
        let played := ({ registry := r } : Monitor).play source
        played.result = .ok () ∧ played.source.isExhausted = true ∧
          played.polls = capture.length ⌈/⌉ n) := by
  intro run run'
  have hloaded : registry t s = ((registry t s).1, .ok r) := Prod.ext rfl hr
  have hrun : run = atOnce t stamp (registry t s).1 r capture o strict :=
    decode_eq_atOnce h hloaded stamp strict
  have hrun' : run' = atOnce t' stamp' (registry t s).1 r capture o strict :=
    decode_eq_atOnce h' (hs.registry_eq ▸ hloaded) stamp' strict
  refine ⟨?_, ?_, fun n hn ↦ h.withChunkSize hn, fun n hn ↦ ?_⟩
  · rw [hrun, hrun']
    exact showsSame_atOnce ho t t' stamp stamp' _ r capture strict
  · rw [hrun]
    exact ⟨rfl, rfl, rfl⟩
  · obtain ⟨source, hstart, hopen, hunread, hsize, -⟩ := exists_start capture hn
    have hplay := Monitor.playsWhole_play (Monitor.settled_new r) hopen
    exact ⟨source, hstart, hplay.result, hplay.isExhausted, by rw [hplay.polls, hunread, hsize]⟩

/-- A chunk size of two is configured in one tree, and one of sixty-four is given with the command
in another one.  The capture holds noise, a frame, and the beginning of a frame. -/
theorem run_decode_configured_or_given :
    let capture : List UInt8 := [0xFF, 0x01, 0x02, 0x05, 0x01]
    let files : List (Place × Entry) :=
      [(["home"], .directory), (["capture.bin", "home"], .file capture),
        (["local.csv", "home"], .file (Text.utf8 "1,2,Speed,1,c\n"))]
    let config := Text.utf8 "local_catalog = \"local.csv\"\nchunk_size = 2\n"
    let t : FileTree := ⟨["home"], (["mpac.toml", "home"], .file config) :: files⟩
    let t' : FileTree := ⟨["home"], files⟩
    let s : Settings := ⟨false, some "local.csv", [], 2⟩
    let s' : Settings := ⟨false, some "local.csv", [], 64⟩
    let catalogs : CatalogOptions := { config := some "mpac.toml" }
    let catalogs' : CatalogOptions := { siteCatalog := some "local.csv" }
    let r : Registry := { site := [⟨⟨0x01, 0x02⟩, "Speed", 1, "c"⟩] }
    let run := (Command.decode "capture.bin" catalogs none {} true).run t ""
    let run' := (Command.decode "capture.bin" catalogs' (some 64) {} true).run t' ""
    (Finds t "capture.bin" catalogs none s capture ∧
      Finds t' "capture.bin" catalogs' (some 64) s' capture ∧
      SameCatalogs t s t' s' ∧ (registry t s).2 = .ok r) ∧
    run.ShowsSame run' ∧ run.out = "unrecognized: 0xFF\nSpeed:  5\n" ∧ run.code = 2 := by
  intro capture files config t t' s s' catalogs catalogs' r run run'
  have h : Finds t "capture.bin" catalogs none s capture :=
    ⟨"capture.bin", by decide +kernel, by decide +kernel⟩
  have h' : Finds t' "capture.bin" catalogs' (some 64) s' capture :=
    ⟨"capture.bin", by decide +kernel, by decide +kernel⟩
  have hs : SameCatalogs t s t' s' := by
    refine ⟨rfl, fun {path} hpath ↦ ?_⟩
    obtain rfl : path = "local.csv" := by simpa [s] using hpath
    decide +kernel
  have hr : (registry t s).2 = .ok r := by decide +kernel
  refine ⟨⟨h, h', hs, hr⟩, (run_decode_showsSame h h' hs hr rfl true "" "").1, ?_, ?_⟩
  · decide +kernel
  · decide +kernel

end Decoding

end LinkMonitor
