import LinkMonitor.Command.Outcome
import LinkMonitor.Command.Setup
import LinkMonitor.Playback

/-! # Decoding captures and typed bytes -/

namespace LinkMonitor.Decoding

open LinkMonitor.Output LinkMonitor.Setup

/-- The path of a capture and the settings with which to decode it. -/
def prepare (t : FileTree) (input : String) (o : CatalogOptions) (chunkSize : Option Nat) :
    Except Failure (String × Settings) := do
  let path ← resolve t input
  requireFile t path
  let s ← settings t o chunkSize
  if s.chunkSize = 0 then .error .chunkSize else return (path, s)

/-- A replay of a capture file. -/
def replay (t : FileTree) (path : String) (chunkSize : Nat) : Except SourceError Replay :=
  match t.read path with
  | .error e => .error (.io e.message)
  | .ok bytes => Replay.start bytes chunkSize

def summary (stats : Stats) (size : Nat) : String :=
  "OK: " ++ toString stats.messages ++ " messages, " ++ toString stats.unrecognizedBytes ++
    " unrecognized bytes, " ++ toString stats.lengthMismatches ++ " length mismatches (" ++
    toString size ++ " bytes read)"

/-- Plays back a capture and reports what it holds, with a summary at the end. -/
def decode (t : FileTree) (stamp input : String) (catalogs : CatalogOptions)
    (chunkSize : Option Nat) (o : Options) (strict : Bool) : Outcome :=
  match prepare t input catalogs chunkSize with
  | .error e => { result := .error e, tree := t }
  | .ok (path, s) =>
    let (notes, r) := registry t s
    let played := r.bind fun r ↦
      (replay t path s.chunkSize).mapError (.capture path) |>.map ({ registry := r : Monitor }.play)
    match played with
    | .error e => { printed := o.printAll stamp notes, result := .error e, tree := t }
    | .ok p =>
      match p.result with
      | .error e =>
        { printed := o.printAll stamp (notes ++ p.events), result := .error (.capture path e),
          tree := t }
      | .ok () =>
        let (m, closing, _) := p.monitor.close
        let last : Transcript :=
          { err := if o.quiet then [] else [summary m.stats p.source.size] }
        { printed := o.printAll stamp (notes ++ p.events ++ closing) ++ last
          result :=
            if strict && (0 < m.stats.unrecognizedBytes || 0 < m.stats.lengthMismatches) then
              .error .unrecognizedInput
            else .ok ()
          tree := t }

/-- Decodes typed bytes as one message. -/
def send (t : FileTree) (stamp : String) (tokens : List String) (catalogs : CatalogOptions)
    (o : Options) : Outcome :=
  match settings t catalogs none with
  | .error e => { result := .error e, tree := t }
  | .ok s =>
    match registry t s with
    | (notes, .error e) => { printed := o.printAll stamp notes, result := .error e, tree := t }
    | (notes, .ok r) =>
      let (_, events, result) := { registry := r : Monitor }.submit (" ".intercalate tokens)
      { printed := o.printAll stamp (notes ++ events), result := result.mapError .manualInput,
        tree := t }

end LinkMonitor.Decoding
