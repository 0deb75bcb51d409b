import Exposition.Convert
import Exposition.Proofs.Encode.Document
import Exposition.Proofs.Reader.Calls

/-!
# Conversions in memory

What a conversion leaves in memory depends on the items of its reader alone
(`convertFrom_unlimited`), and so on what a decoder hands out for the contents of the source
(`convert_unlimited`).  One step is that of a family which is read, checked and written
(`convertFrom_family`).
-/

namespace Exposition

variable {r : Reader} {target : Format}

/-! ### Steps -/

section Steps

variable {σ : Type} {sink : Sink σ} {state : σ} {families written : ℕ}

theorem convertFrom_end (h : r.next.2 = none) :
    convertFrom sink state r target families written =
      endConversion sink state r.format target families written := by
  rw [convertFrom]
  split
  · rfl
  · next hn => rw [hn] at h; cases h
  · next hn => rw [hn] at h; cases h

theorem convertFrom_error {e : DecodeError} (h : r.next.2 = some (.error e)) :
    convertFrom sink state r target families written =
      ⟨state, [], some (.decoding r.format e)⟩ := by
  rw [convertFrom]
  split
  · next hn => rw [hn] at h; cases h
  · next hn => rw [hn] at h; cases h; rfl
  · next hn => rw [hn] at h; cases h

theorem convertFrom_family {f : Family} (h : r.next.2 = some (.ok f)) :
    convertFrom sink state r target families written =
      match f.write sink state target with
      | (.error e, state) => ⟨state, [], some (.encoding f.name e)⟩
      | (.ok n, state) =>
        let rest := convertFrom sink state r.next.1 target (families + 1) (written + n)
        { rest with log := convertedEntry f :: rest.log } := by
  rw [convertFrom]
  split
  · next hn => rw [hn] at h; cases h
  · next hn => rw [hn] at h; cases h
  · next hn =>
    rw [hn] at h ⊢
    cases h
    rfl

end Steps

/-! ### Into memory -/

/-- In memory, a family is written if it passes its check. -/
theorem Family.write_unlimited {f : Family} (h : f.check target = .ok ()) (taken : List UInt8) :
    f.write Sink.unlimited taken target =
      (.ok (encodeText (writeLines target (f.lines target))).length,
        taken ++ encodeText (writeLines target (f.lines target))) := by
  unfold write render
  rw [h]
  exact writeRendered_unlimited taken _

theorem endConversion_unlimited (taken : List UInt8) (source target : Format)
    (families written : ℕ) :
    let converted := endConversion Sink.unlimited taken source target families written
    converted.error = none ∧
      converted.state = taken ++ encodeText (writeLines target (documentLines target [])) := by
  unfold endConversion
  cases target with
  | openMetrics =>
    rw [writeEof_unlimited]
    exact ⟨rfl, rfl⟩
  | prometheus =>
    exact ⟨rfl, (List.append_nil taken).symm⟩

/-- What a conversion into memory comes to, given what there is to decode: it succeeds just if
everything is decoded and every family passes its check, and then the text of all lines is behind
what memory held before.  If it fails, the text of the families before the first that does not pass
its check is there. -/
structure Converted.Holds (target : Format) (taken : List UInt8)
    (results : List Family × Option DecodeError) (converted : Converted (List UInt8)) : Prop where
  error_eq_none_iff : converted.error = none ↔
    results.2 = none ∧ ∀ f ∈ results.1, f.check target = .ok ()
  state_eq : converted.error = none →
    converted.state = taken ++ encodeText (writeLines target (documentLines target results.1))
  state_eq_of_error : converted.error ≠ none →
    converted.state =
      taken ++ bytesOf target (results.1.takeWhile (Family.renders target))

variable {taken : List UInt8} {families written : ℕ}

theorem holds_of_end (h : r.next.2 = none) :
    (convertFrom Sink.unlimited taken r target families written).Holds target taken
      ([], none) := by
  rw [convertFrom_end h]
  obtain ⟨herror, hstate⟩ := endConversion_unlimited taken r.format target families written
  exact ⟨⟨fun _ => ⟨rfl, nofun⟩, fun _ => herror⟩, fun _ => hstate, fun h => absurd herror h⟩

theorem holds_of_error {e : DecodeError} (h : r.next.2 = some (.error e)) :
    (convertFrom Sink.unlimited taken r target families written).Holds target taken
      ([], some e) := by
  rw [convertFrom_error h]
  exact ⟨⟨nofun, nofun⟩, nofun, fun _ => (List.append_nil taken).symm⟩

/-- A conversion stops in front of a family that does not pass its check. -/
theorem holds_of_check_error {f : Family} {later : List Family} {error : Option DecodeError}
    {e : EncodeError} (h : r.next.2 = some (.ok f)) (hcheck : f.check target = .error e) :
    (convertFrom Sink.unlimited taken r target families written).Holds target taken
      (f :: later, error) := by
  have hwrite : f.write Sink.unlimited taken target = (.error e, taken) := by
    unfold Family.write Family.render
    rw [hcheck]
  rw [convertFrom_family h, hwrite]
  refine ⟨⟨nofun, fun hall => ?_⟩, nofun, fun _ => ?_⟩
  · rw [hall.2 f List.mem_cons_self] at hcheck
    cases hcheck
  · have hrenders : f.renders target ≠ true := fun h => by
      rw [Family.renders_iff.1 h] at hcheck
      cases hcheck
    rw [List.takeWhile_cons_of_neg hrenders]
    exact (List.append_nil taken).symm

/-- A conversion of a family that passes its check goes on behind the text of the family. -/
theorem holds_of_check {f : Family} {later : List Family} {error : Option DecodeError}
    (h : r.next.2 = some (.ok f)) (hcheck : f.check target = .ok ())
    (hlater : ∀ taken written,
      (convertFrom Sink.unlimited taken r.next.1 target (families + 1) written).Holds target taken
        (later, error)) :
    (convertFrom Sink.unlimited taken r target families written).Holds target taken
      (f :: later, error) := by
  rw [convertFrom_family h, Family.write_unlimited hcheck]
  obtain ⟨hiff, hstate, hfailed⟩ := hlater
    (taken ++ encodeText (writeLines target (f.lines target)))
    (written + (encodeText (writeLines target (f.lines target))).length)
  refine ⟨hiff.trans (and_congr_right fun _ => ?_), fun hnone => ?_, fun herror => ?_⟩
  · rw [List.forall_mem_cons]
    exact ⟨fun hall => ⟨hcheck, hall⟩, fun hall => hall.2⟩
  · rw [documentLines_cons, writeLines_append, encodeText_append, ← List.append_assoc]
    exact hstate hnone
  · rw [List.takeWhile_cons_of_pos (Family.renders_iff.2 hcheck), bytesOf_cons, ← List.append_assoc]
    exact hfailed herror

/-- A conversion into memory of what a reader hands out. -/
theorem convertFrom_unlimited {results : List Family × Option DecodeError} (h : r.Ready)
    (hitems : r.items = itemsOf results) :
    (convertFrom Sink.unlimited taken r target families written).Holds target taken results := by
  obtain ⟨handedOut, error⟩ := results
  obtain ⟨hnext, hlater⟩ := h.next_item
  induction handedOut generalizing r taken families written with
  | nil =>
    rw [hitems] at hnext
    cases error with
    | none => exact holds_of_end hnext
    | some e => exact holds_of_error hnext
  | cons f later ih =>
    rw [hitems] at hnext
    obtain ⟨hready, hrest⟩ := hlater f hnext
    have hrest : r.next.1.items = itemsOf (later, error) :=
      (List.cons.inj (hrest.symm.trans hitems)).2
    cases hcheck : f.check target with
    | error e => exact holds_of_check_error hnext hcheck
    | ok _ =>
      exact holds_of_check hnext hcheck fun _ _ =>
        ih hready hrest hready.next_item.1 hready.next_item.2

/-- A conversion into memory of the contents of a source. -/
theorem convert_unlimited (source target : Format) {input : Source} {bytes : List UInt8}
    (hinput : input.contents? = some bytes) :
    (convert Sink.unlimited [] input source target).Holds target []
      ((Decoder.new source).feed bytes).close.results := by
  have hitems : (Reader.new source input).items =
      itemsOf ((Decoder.new source).feed bytes).close.results := by
    rw [Reader.items_new, Decoder.itemsFrom_of_ended (Source.fed_of_contents? hinput)]
  exact convertFrom_unlimited (Reader.ready_new source input) hitems

end Exposition
