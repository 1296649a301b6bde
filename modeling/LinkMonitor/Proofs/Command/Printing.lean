import LinkMonitor.Proofs.Command.Decoding
import LinkMonitor.Proofs.Monitor.Ledger
import LinkMonitor.Proofs.Output.Lines
import LinkMonitor.Proofs.Payload.Characters

/-!
# Lines printed for a capture

Without JSON, each message and each byte that belongs to no frame is printed as a text with a line
feed behind it, in the order of the stream.  The text of a message begins with the name of its
format, and the name may be any text.  If there is a line feed in it, the message takes up several
lines.  That is all that can go wrong: nothing else in the text ever holds a line feed, whatever the
spec and the payload are (`MessageFormat.lineFeed_mem_render`).
-/

namespace LinkMonitor

open LinkMonitor.Output LinkMonitor.Setup LinkMonitor.Text

/-! ## Texts of messages -/

theorem lineFeed_mem_append_colon {name text : String} (h : '\n' ∉ text.toList) :
    '\n' ∈ (name ++ ":  " ++ text).toList ↔ '\n' ∈ name.toList := by
  have hcolon : '\n' ∉ ":  ".toList := by decide +kernel
  simp only [String.toList_append, List.mem_append, hcolon, h, or_false]

/-- A line feed in the text of a message comes from the name of the format. -/
theorem MessageFormat.lineFeed_mem_render {f : MessageFormat} {m : Message} :
    '\n' ∈ (f.render m).toList ↔ '\n' ∈ f.name.toList := by
  unfold render
  split
  · split
    · rename_i text htext
      exact lineFeed_mem_append_colon (Payload.lineFeed_notMem_decode htext)
    · exact Iff.rfl
  · exact lineFeed_mem_append_colon (by decide +kernel)

theorem lineFeed_notMem_text_unrecognized (b : UInt8) :
    '\n' ∉ (Event.unrecognized b).text.toList := by
  have hlabel : '\n' ∉ "unrecognized: 0x".toList := by decide +kernel
  have hbyte : '\n' ∉ (String.ofList (hexByte b)).toList := by
    rw [String.toList_ofList]
    intro h
    have := (range_of_mem_hexByte h).1
    contradiction
  have htext : (Event.unrecognized b).text.toList =
      "unrecognized: 0x".toList ++ (String.ofList (hexByte b)).toList := String.toList_append ..
  rw [htext, List.mem_append]
  exact not_or.mpr ⟨hlabel, hbyte⟩

namespace Registry

/-- `Prints r s line`: the text `line` is what there is to print of the segment `s`. -/
inductive Prints (r : Registry) : Segment → String → Prop
  | /-- A message is printed under the format that its header has. -/
    message {m : Message} {f : MessageFormat} : r.format? m.header = some f →
      Prints r (.message m) (f.render m)
  | /-- A byte that belongs to no frame is printed in hexadecimal. -/
    unrecognized (b : UInt8) : Prints r (.unrecognized b) (Event.unrecognized b).text

/-- No name under which a message among the segments is shown holds a line feed. -/
def NamedOnLines (r : Registry) (ss : List Segment) : Prop :=
  ∀ m, .message m ∈ ss → ∀ f, r.format? m.header = some f → '\n' ∉ f.name.toList

variable {r : Registry} {s : Segment} {ss : List Segment} {line : String} {lines : List String}

theorem namedOnLines_cons :
    r.NamedOnLines (s :: ss) ↔ r.NamedOnLines [s] ∧ r.NamedOnLines ss := by
  simp only [NamedOnLines, List.mem_cons, List.not_mem_nil, or_false]
  constructor
  · intro h
    exact ⟨fun m hm ↦ h m (.inl hm), fun m hm ↦ h m (.inr hm)⟩
  · rintro ⟨hs, hss⟩ m (hm | hm)
    · exact hs m hm
    · exact hss m hm

theorem Prints.lineFeed_notMem_iff (h : r.Prints s line) :
    '\n' ∉ line.toList ↔ r.NamedOnLines [s] := by
  cases h with
  | @message m f hf =>
      rw [MessageFormat.lineFeed_mem_render]
      constructor
      · intro hname m' hm' f' hf'
        obtain rfl : m' = m := by simpa using hm'
        obtain rfl := Option.some.inj (hf.symm.trans hf')
        exact hname
      · intro hnamed
        exact hnamed m (List.mem_singleton_self _) f hf
  | unrecognized b =>
      refine iff_of_true (lineFeed_notMem_text_unrecognized b) ?_
      intro m hm
      simp at hm

/-- The texts are single lines if the names are. -/
theorem lineFeed_notMem_iff_namedOnLines (h : List.Forall₂ r.Prints ss lines) :
    (∀ line ∈ lines, '\n' ∉ line.toList) ↔ r.NamedOnLines ss := by
  induction h with
  | nil => simp [NamedOnLines]
  | cons hs _ ih => rw [List.forall_mem_cons, namedOnLines_cons, hs.lineFeed_notMem_iff, ih]

end Registry

/-! ## Events that are printed -/

namespace Monitor

variable {m : Monitor}

theorem isNote_of_mem_handle {s : Segment} {e : Event} (he : e ∈ (m.handle s).2) :
    e.isNote = false := by
  cases s with
  | message message =>
      cases hf : m.registry.format? message.header with
      | none => simp [handle, receive, hf] at he
      | some f =>
          obtain rfl : e = _ := by simpa [handle, receive, hf] using he
          rfl
  | unrecognized b =>
      obtain rfl : e = _ := by simpa [handle, reject] using he
      rfl

/-- Segments are reported without notes. -/
theorem isNote_of_mem_handleAll {ss : List Segment} {e : Event} (he : e ∈ (m.handleAll ss).2) :
    e.isNote = false := by
  induction ss generalizing m with
  | nil => cases he
  | cons s ss ih =>
      rw [handleAll_cons] at he
      rcases List.mem_append.mp he with he | he
      · exact isNote_of_mem_handle he
      · exact ih he

theorem prints_handle {s : Segment}
    (hs : ∀ message, s = .message message → (m.registry.format? message.header).isSome = true) :
    ∃ e, (m.handle s).2 = [e] ∧ m.registry.Prints s e.text := by
  cases s with
  | message message =>
      obtain ⟨f, hf⟩ := Option.isSome_iff_exists.mp (hs message rfl)
      exact ⟨.decoded (f.render message), by simp [handle, receive, hf], .message hf⟩
  | unrecognized b => exact ⟨.unrecognized b, rfl, .unrecognized b⟩

/-- One event is reported of each segment, in order, and its text is what there is to print. -/
theorem forall₂_prints_handleAll {ss : List Segment}
    (hss : ∀ message, .message message ∈ ss →
      (m.registry.format? message.header).isSome = true) :
    List.Forall₂ m.registry.Prints ss ((m.handleAll ss).2.map Event.text) := by
  induction ss generalizing m with
  | nil => exact .nil
  | cons s ss ih =>
      obtain ⟨e, he, hprints⟩ := prints_handle (m := m) (s := s) fun message hs ↦
        hss message (hs ▸ List.mem_cons_self ..)
      have hrest := ih (m := (m.handle s).1) fun message hm ↦ by
        rw [handle_registry]
        exact hss message (List.mem_cons_of_mem s hm)
      rw [handle_registry] at hrest
      rw [handleAll_cons, he]
      exact .cons hprints hrest

/-- What is reported of a chunk that a new monitor takes. -/
theorem events_ingest_new (r : Registry) (chunk : List UInt8) :
    let events := (({ registry := r } : Monitor).ingest chunk).2
    (∀ e ∈ events, e.isNote = false) ∧
      List.Forall₂ r.Prints (r.segment chunk).1 (events.map Event.text) := by
  intro events
  have hevents : events = (({ registry := r } : Monitor).absorb chunk |>.handleAll
      (r.segment chunk).1).2 := by
    show (({ registry := r } : Monitor).ingest chunk).2 = _
    rw [ingest_eq_handleAll]
    rfl
  rw [hevents]
  refine ⟨fun _ ↦ isNote_of_mem_handleAll, ?_⟩
  exact forall₂_prints_handleAll (m := ({ registry := r } : Monitor).absorb chunk)
    fun _ hm ↦ Registry.format?_isSome_of_mem_segment hm

/-- The counters of a new monitor say how much is reported of a chunk. -/
theorem length_events_ingest_new (r : Registry) (chunk : List UInt8) :
    let stats := (({ registry := r } : Monitor).ingest chunk).1.stats
    (({ registry := r } : Monitor).ingest chunk).2.length =
      stats.messages + stats.unrecognizedBytes := by
  intro stats
  set events := (({ registry := r } : Monitor).ingest chunk).2
  have htally := ({ registry := r } : Monitor).tallies_ingest chunk
  have hother : events.countP (fun e ↦ ¬ e.isDecoded = true) =
      events.countP Event.isUnrecognized := by
    apply List.countP_congr
    intro e he
    have hnote := (events_ingest_new r chunk).1 e he
    cases e with
    | decoded text => simp [Event.isDecoded, Event.isUnrecognized]
    | unrecognized b => simp [Event.isDecoded, Event.isUnrecognized]
    | note text => cases hnote
  have hmessages : stats.messages = events.countP Event.isDecoded :=
    htally.messages.trans (Nat.zero_add _)
  have hbytes : stats.unrecognizedBytes = events.countP Event.isUnrecognized :=
    htally.unrecognizedBytes.trans (Nat.zero_add _)
  rw [List.length_eq_countP_add_countP Event.isDecoded, hother, hmessages, hbytes]

end Monitor

namespace Decoding

variable {t : FileTree} {input : String} {catalogs : CatalogOptions} {size : Option Nat}
  {s : Settings} {capture : List UInt8} {notes : List Event} {r : Registry} {o : Options}

theorem isNote_of_mem_siteRegistry (h : siteRegistry t s = .ok (notes, r)) :
    ∀ e ∈ notes, e.isNote = true := by
  unfold siteRegistry at h
  split at h
  · cases h
    simp
  · simp only [bind_eq_ok_iff] at h
    obtain ⟨-, -, fs, -, h⟩ := h
    cases h
    simp [Event.isNote]

/-- All that is reported of catalogs are notes. -/
theorem isNote_of_mem_registry {e : Event} (he : e ∈ (registry t s).1) : e.isNote = true := by
  unfold registry at he
  split at he
  · cases he
  · rename_i notes r hsite
    have hnotes := isNote_of_mem_siteRegistry hsite
    split at he
    · exact hnotes e he
    · rcases List.mem_append.mp he with he | he
      · exact hnotes e he
      · exact Registry.isNote_of_mem_refresh he

/-- The end of a stream is reported by notes. -/
theorem isNote_of_mem_close {m : Monitor} {e : Event} (he : e ∈ m.close.2.1) :
    e.isNote = true := by
  simp only [Monitor.close] at he
  split at he
  · cases he
  · obtain rfl := List.mem_singleton.mp he
    rfl

/-- What is printed as output of a capture are the texts of what is reported of its bytes. -/
theorem out_atOnce (hn : ∀ e ∈ notes, e.isNote = true) (hj : o.json = false)
    (ht : o.timestamps = false) (stamp : String) (strict : Bool) :
    (atOnce t stamp notes r capture o strict).out =
      text ((({ registry := r } : Monitor).ingest capture).2.map Event.text) := by
  set m := (({ registry := r } : Monitor).ingest capture).1
  set events := (({ registry := r } : Monitor).ingest capture).2
  have hline : o.line stamp = Event.text := by
    funext e
    simp [Options.line, hj, ht]
  have hnotes : notes.filter (!·.isNote) = [] := by simpa using hn
  have hclosing : m.close.2.1.filter (!·.isNote) = [] := by
    simpa using fun e he ↦ isNote_of_mem_close (m := m) he
  have hevents : events.filter (!·.isNote) = events := by
    simpa using (Monitor.events_ingest_new r capture).1
  have hout : (atOnce t stamp notes r capture o strict).out =
      text ((o.printAll stamp (notes ++ events ++ m.close.2.1)).out ++ []) := rfl
  rw [hout, out_printAll, List.append_nil, List.filter_append, List.filter_append, hnotes,
    hevents, hclosing, hline, List.nil_append, List.append_nil]

/-- **What is printed of a capture.**  Take a capture and catalogs that can be loaded.  Without JSON
and without times, decoding prints as output one text for each message and each unrecognized byte,
each with a line feed behind it, in the order of the stream; the summary counts as many.  These
texts are the lines of the output if no message is shown under a name with a line feed in it, and
otherwise there are more lines than messages and unrecognized bytes.  Nothing else matters: neither
what the specs are, nor what the bytes are. -/
theorem run_decode_lines (h : Finds t input catalogs size s capture)
    (hr : (registry t s).2 = .ok r) (hj : o.json = false) (ht : o.timestamps = false)
    (strict : Bool) (stamp : String) :
    let run := (Command.decode input catalogs size o strict).run t stamp
    let stats := (({ registry := r } : Monitor).ingest capture).1.stats
    ∃ lines, run.out = text lines ∧ List.Forall₂ r.Prints (r.segment capture).1 lines ∧
      lines.length = stats.messages + stats.unrecognizedBytes ∧
      (o.quiet = false → summary stats capture.length ∈ run.printed.err) ∧
      (IsLines run.out lines ↔ r.NamedOnLines (r.segment capture).1) ∧
      (run.out.toList.count '\n' = stats.messages + stats.unrecognizedBytes ↔
        r.NamedOnLines (r.segment capture).1) := by
  intro run stats
  have hloaded : registry t s = ((registry t s).1, .ok r) := Prod.ext rfl hr
  have hrun : run = atOnce t stamp (registry t s).1 r capture o strict :=
    decode_eq_atOnce h hloaded stamp strict
  set lines := (({ registry := r } : Monitor).ingest capture).2.map Event.text
  have hout : run.out = text lines := by
    rw [hrun]
    exact out_atOnce (fun _ ↦ isNote_of_mem_registry) hj ht stamp strict
  have hprints : List.Forall₂ r.Prints (r.segment capture).1 lines :=
    (Monitor.events_ingest_new r capture).2
  have hlength : lines.length = stats.messages + stats.unrecognizedBytes := by
    rw [List.length_map]
    exact Monitor.length_events_ingest_new r capture
  have hlines : IsLines run.out lines ↔ r.NamedOnLines (r.segment capture).1 := by
    rw [← Registry.lineFeed_notMem_iff_namedOnLines hprints]
    exact ⟨fun h _ hl ↦ h.lineFeed_notMem hl, fun h ↦ ⟨hout, fun hl ↦ h _ hl⟩⟩
  refine ⟨lines, hout, hprints, hlength, ?_, hlines, ?_⟩
  · intro hquiet
    rw [hrun]
    apply List.mem_append_right
    rw [hquiet]
    exact List.mem_singleton_self _
  · rw [← hlength, ← hlines, hout]
    exact count_text_eq_length_iff

/-- A name with a carriage return, a literal behind a field, and noise between two messages. -/
theorem run_decode_lines_with_noise :
    let capture : List UInt8 := [0x01, 0x02, 0x05, 0x0A, 0xAA, 0x55, 0x01]
    let table := utf8 "1,2,\"Front\rwheel\",1,c km/h\n0xAA,0x55,Ping,0\n"
    let t : FileTree := ⟨["home"], [(["home"], .directory),
      (["capture.bin", "home"], .file capture), (["local.csv", "home"], .file table)]⟩
    let s : Settings := ⟨false, some "local.csv", [], 64⟩
    let catalogs : CatalogOptions := { siteCatalog := some "local.csv" }
    let r : Registry :=
      { site := [⟨⟨0x01, 0x02⟩, "Front\rwheel", 1, "c km/h"⟩, ⟨⟨0xAA, 0x55⟩, "Ping", 0, ""⟩] }
    let run := (Command.decode "capture.bin" catalogs none {} false).run t ""
    (Finds t "capture.bin" catalogs none s capture ∧ (registry t s).2 = .ok r) ∧
    run.out = "Front\rwheel:  5 km/h\nunrecognized: 0x0A\nPing\n" ∧
      ∃ lines, run.out = text lines ∧ IsLines run.out lines ∧ lines.length = 3 := by
  intro capture table t s catalogs r run
  have h : Finds t "capture.bin" catalogs none s capture :=
    ⟨"capture.bin", by decide +kernel, by decide +kernel⟩
  have hr : (registry t s).2 = .ok r := by decide +kernel
  obtain ⟨lines, hout, -, hlength, -, hlines, hcount⟩ :=
    run_decode_lines h hr (o := {}) rfl rfl false ""
  have hfeeds : run.out.toList.count '\n' = 3 := by decide +kernel
  have hstats : (({ registry := r } : Monitor).ingest capture).1.stats = ⟨2, 1, 0⟩ := by
    decide +kernel
  rw [hstats] at hlength hcount
  exact ⟨⟨h, hr⟩, by decide +kernel, lines, hout, hlines.mpr (hcount.mp hfeeds), hlength⟩

/-- A name with a line feed makes two lines of a single message. -/
theorem run_decode_line_break_in_name :
    let capture : List UInt8 := [0x01, 0x02, 0x05]
    let table := utf8 "1,2,\"Front\nwheel\",1,c\n"
    let t : FileTree := ⟨["home"], [(["home"], .directory),
      (["capture.bin", "home"], .file capture), (["local.csv", "home"], .file table)]⟩
    let s : Settings := ⟨false, some "local.csv", [], 64⟩
    let catalogs : CatalogOptions := { siteCatalog := some "local.csv" }
    let r : Registry := { site := [⟨⟨0x01, 0x02⟩, "Front\nwheel", 1, "c"⟩] }
    let run := (Command.decode "capture.bin" catalogs none {} false).run t ""
    let stats := (({ registry := r } : Monitor).ingest capture).1.stats
    (Finds t "capture.bin" catalogs none s capture ∧ (registry t s).2 = .ok r) ∧
      run.out = "Front\nwheel:  5\n" ∧ stats.messages + stats.unrecognizedBytes = 1 ∧
      run.out.toList.count '\n' ≠ stats.messages + stats.unrecognizedBytes := by
  intro capture table t s catalogs r run stats
  have h : Finds t "capture.bin" catalogs none s capture :=
    ⟨"capture.bin", by decide +kernel, by decide +kernel⟩
  exact ⟨⟨h, by decide +kernel⟩, by decide +kernel, by decide +kernel, by decide +kernel⟩

end Decoding

end LinkMonitor
