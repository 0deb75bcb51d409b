import Exposition.Encode.Write
import Exposition.Log.Entry
import Exposition.Reader

/-!
# Conversion

`convert` reads families from a source in one format and writes each of them to a sink in another
as soon as it is complete; at the end it flushes the sink.  It stops at the first error, which it
reports with the errors that caused it, outermost first.
-/

namespace Exposition

variable {σ : Type}

/-- Why a conversion failed. -/
inductive ConvertError
  | decoding (source : Format) (error : DecodeError)
  | encoding (family : String) (error : EncodeError)
  | ending (fault : DeviceFault)
  deriving DecidableEq

/-- An error as messages, each caused by the next. -/
def EncodeError.chain (e : EncodeError) : List String :=
  match e with
  | .sink _ fault => [e.message, fault.message]
  | _ => [e.message]

def ConvertError.chain : ConvertError → List String
  | decoding source e => ["Failed to decode " ++ source.name ++ " input", e.message]
  | encoding family e => ("Failed to encode metric family " ++ family) :: e.chain
  | ending fault => [fault.message]

/-- The target of the entries that a conversion logs. -/
def convertTarget : String := "expfmt"

def convertedEntry (f : Family) : LogEntry where
  severity := .debug
  target := convertTarget
  message := "Converted family"
  fields :=
    [("family", .text f.name), ("kind", .text f.type.name), ("metrics", .integer f.metrics.length)]

def finishedEntry (families written : Nat) (source target : Format) : LogEntry where
  severity := .info
  target := convertTarget
  message := "Conversion finished"
  fields :=
    [("families", .integer families), ("bytes", .integer written),
      ("from", .text source.name), ("to", .text target.name)]

/-- The outcome of a conversion. -/
structure Converted (σ : Type) where
  state : σ
  log : List LogEntry
  error : Option ConvertError

/-- Flushes the sink behind a document of the given numbers of families and bytes. -/
def finishConversion (sink : Sink σ) (state : σ) (source target : Format) (families written : Nat) :
    Converted σ :=
  match sink.flush state with
  | (none, state) => ⟨state, [finishedEntry families written source target], none⟩
  | (some fault, state) => ⟨state, [], some (.ending fault)⟩

/-- Ends a document of which the given numbers of families and bytes have been written. -/
def endConversion (sink : Sink σ) (state : σ) (source target : Format) (families written : Nat) :
    Converted σ :=
  if target.requiresEof then
    match writeEof sink state with
    | (.ok n, state) => finishConversion sink state source target families (written + n)
    | (.error fault, state) => ⟨state, [], some (.ending fault)⟩
  else finishConversion sink state source target families written

/-- Converts what a reader still hands out, after the given numbers of families and bytes. -/
def convertFrom (sink : Sink σ) (state : σ) (reader : Reader) (target : Format)
    (families written : Nat) : Converted σ :=
  match _ : reader.next with
  | (_, none) => endConversion sink state reader.format target families written
  | (_, some (.error e)) => ⟨state, [], some (.decoding reader.format e)⟩
  | (next, some (.ok f)) =>
    match f.write sink state target with
    | (.error e, state) => ⟨state, [], some (.encoding f.name e)⟩
    | (.ok n, state) =>
      let rest := convertFrom sink state next target (families + 1) (written + n)
      { rest with log := convertedEntry f :: rest.log }
termination_by reader.weight
decreasing_by
  rename_i h
  have := @Reader.weight_next_lt reader f (by rw [h])
  rwa [h] at this

/-- Converts the documents of a source. -/
def convert (sink : Sink σ) (state : σ) (input : Source) (source target : Format) : Converted σ :=
  convertFrom sink state (.new source input) target 0 0

end Exposition
