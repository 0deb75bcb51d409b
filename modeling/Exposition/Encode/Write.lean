import Exposition.Encode.Render
import Exposition.Sink
import Exposition.Text.Bytes

/-!
# Writing to a sink

`Family.write` writes one family, `writeEof` the line that ends an OpenMetrics document, and
`Document.write` a whole document.  All families are rendered before the first byte is written.
-/

namespace Exposition

variable {σ : Type}

/-- A sink that took none of the bytes of a family. -/
def wroteNothing : DeviceFault := ⟨"write zero"⟩

/-- A sink that took none of the bytes of the end-of-file line. -/
def eofNotTaken : DeviceFault := ⟨"failed to write whole buffer"⟩

/-- The bytes of the line that ends an OpenMetrics document. -/
def eofBytes : List UInt8 := encodeText (writeLines .openMetrics [.eof])

/-- Writes a rendered family; gives the number of bytes written and the state of the sink. -/
def writeRendered (sink : Sink σ) (state : σ) (text : String) : Except EncodeError Nat × σ :=
  let sent := sink.send state (encodeText text)
  match sent.refusal with
  | none => (.ok sent.written, sent.state)
  | some .tookNothing => (.error (.sink sent.written wroteNothing), sent.state)
  | some (.failed fault) => (.error (.sink sent.written fault), sent.state)

/-- Writes one family. -/
def Family.write (sink : Sink σ) (state : σ) (format : Format) (f : Family) :
    Except EncodeError Nat × σ :=
  match f.render format with
  | .error e => (.error e, state)
  | .ok text => writeRendered sink state text

/-- Ends an OpenMetrics document.  A failure does not tell how much of the line was taken. -/
def writeEof (sink : Sink σ) (state : σ) : Except DeviceFault Nat × σ :=
  let sent := sink.send state eofBytes
  match sent.refusal with
  | none => (.ok sent.written, sent.state)
  | some .tookNothing => (.error eofNotTaken, sent.state)
  | some (.failed fault) => (.error fault, sent.state)

/-- Writes rendered families after `written` bytes of the same document. -/
def writeAllRendered (sink : Sink σ) (state : σ) (written : Nat) :
    List String → Except EncodeError Nat × σ
  | [] => (.ok written, state)
  | text :: rest =>
    match writeRendered sink state text with
    | (.ok n, next) => writeAllRendered sink next (written + n) rest
    | (.error e, next) => (.error (e.after written), next)

/-- Writes a whole document. -/
def Document.write (sink : Sink σ) (state : σ) (format : Format) (d : Document) :
    Except EncodeError Nat × σ :=
  match d.families.mapM (Family.render format) with
  | .error e => (.error e, state)
  | .ok texts =>
    match writeAllRendered sink state 0 texts with
    | (.error e, next) => (.error e, next)
    | (.ok written, next) =>
      if format.requiresEof then
        match writeEof sink next with
        | (.ok n, last) => (.ok (written + n), last)
        | (.error fault, last) => (.error (.sink written fault), last)
      else (.ok written, next)

end Exposition
