import Exposition.Proofs.Convert.Memory
import Exposition.Proofs.Decoder.Families
import Exposition.Proofs.Encode.Accounting

/-!
# What a conversion reports

A conversion logs every family that it has written and, once the sink is flushed, how many families
and bytes there were.  Whatever the sink does, these are the families and the bytes that it took
(`convert_reports`): a step adds a family to both (`Converted.Reports.cons`), and what can fail, fails
behind the bytes of the families before.
-/

namespace Exposition

/-! ### The format of a reader -/

theorem Decoder.format_poll (d : Decoder) : d.poll.1.format = d.format := by
  have hinv : OpenFamily.Invariant d.format (fun _ => True) (fun _ => True) :=
    ⟨fun _ => trivial, fun _ _ _ => trivial, fun _ _ => trivial⟩
  exact (reading_poll hinv ⟨rfl, fun _ _ => trivial⟩).1.format_eq

/-- A reader keeps its format. -/
theorem Reader.format_next (r : Reader) : r.next.1.format = r.format := by
  have hpoll : ∀ {d next : Decoder} {answer : Poll}, d.poll = (next, answer) →
      next.format = d.format := by
    intro d next answer h
    rw [← d.format_poll, h]
  have hend : ∀ source (d : Decoder), (atEnd source d).1.format = d.format := fun _ d =>
    d.close.format_poll
  have hfrom : ∀ source (d : Decoder), (pollFrom source d).1.format = d.format := by
    intro source d
    fun_induction pollFrom source d with
    | case1 d next h => exact (hend _ _).trans (hpoll h)
    | case2 d next h rest => exact (hend _ _).trans (hpoll h)
    | case3 d next h b bytes rest ih => exact ih.trans (show next.format = _ from hpoll h)
    | case4 d next h rest ih => exact ih.trans (hpoll h)
    | case5 d next h fault rest => exact (show next.format = _ from hpoll h)
    | case6 source d next answer _ h => exact hpoll h
  rw [next_eq]
  exact hfrom r.source r.decoder

/-! ### Steps -/

variable {σ : Type} {sink : Sink σ} {s t : σ} {source target : Format} {families written : ℕ}
  {passed : List Family} {bytes : List UInt8}

/-- What a conversion reports that has begun behind the given numbers of families and bytes, has
passed some families on, and of which the sink took some bytes: first those of the families and, if
nothing failed, all of the document with them. -/
structure Converted.Reports (sink : Sink σ) (s : σ) (source target : Format) (families written : ℕ)
    (passed : List Family) (bytes : List UInt8) (converted : Converted σ) : Prop where
  taken_eq : sink.taken converted.state = sink.taken s ++ bytes
  begins : bytesOf target passed <+: bytes
  whole : converted.error = none →
    bytes = encodeText (writeLines target (documentLines target passed))
  log_eq : converted.error = none → converted.log = passed.map convertedEntry ++
    [finishedEntry (families + passed.length) (written + bytes.length) source target]
  log_eq_of_error : converted.error ≠ none → converted.log = passed.map convertedEntry

namespace Converted

/-- What fails first, fails behind no family. -/
theorem reports_of_error (e : ConvertError) (h : sink.taken t = sink.taken s ++ bytes) :
    Reports sink s source target families written [] bytes ⟨t, [], some e⟩ where
  taken_eq := h
  begins := List.nil_prefix
  whole := nofun
  log_eq := nofun
  log_eq_of_error _ := rfl

/-- The sink is flushed behind all lines. -/
theorem reports_finishConversion (h : sink.taken t = sink.taken s ++ bytes)
    (hbytes : bytes = encodeText (writeLines target (documentLines target []))) :
    Reports sink s source target families written [] bytes
      (finishConversion sink t source target families (written + bytes.length)) := by
  have hflush := sink.taken_flush t
  unfold finishConversion
  split
  · next last heq =>
    rw [heq] at hflush
    exact ⟨hflush.trans h, List.nil_prefix, fun _ => hbytes, fun _ => rfl, fun hne => absurd rfl hne⟩
  · next fault last heq =>
    rw [heq] at hflush
    exact reports_of_error (.ending fault) (hflush.trans h)

theorem exists_reports_endConversion (sink : Sink σ) (s : σ) (source target : Format)
    (families written : ℕ) :
    ∃ bytes, Reports sink s source target families written [] bytes
      (endConversion sink s source target families written) := by
  unfold endConversion
  cases target with
  | prometheus => exact ⟨[], reports_finishConversion (List.append_nil _).symm rfl⟩
  | openMetrics =>
    rw [if_pos (show Format.openMetrics.requiresEof = true from rfl)]
    split
    · next n t hwrite =>
      obtain ⟨rfl, htaken⟩ := writeEof_eq_ok hwrite
      exact ⟨eofBytes, reports_finishConversion htaken rfl⟩
    · next fault t hwrite =>
      obtain ⟨k, hstops⟩ := writeEof_eq_error hwrite
      exact ⟨eofBytes.take k, reports_of_error (.ending fault) hstops.taken_eq⟩

/-- A family that was written stands in front of the others, and so do its bytes. -/
theorem Reports.cons {f : Family} {first : List UInt8} {rest : Converted σ}
    (hfirst : first = encodeText (writeLines target (f.lines target)))
    (htaken : sink.taken t = sink.taken s ++ first)
    (h : rest.Reports sink t source target (families + 1) (written + first.length) passed bytes) :
    Reports sink s source target families written (f :: passed) (first ++ bytes)
      { rest with log := convertedEntry f :: rest.log } where
  taken_eq := by rw [h.taken_eq, htaken, List.append_assoc]
  begins := by
    rw [bytesOf_cons, ← hfirst]
    exact (List.prefix_append_right_inj first).2 h.begins
  whole herror := by
    rw [documentLines_cons, writeLines_append, encodeText_append, ← hfirst, ← h.whole herror]
  log_eq herror := by
    show convertedEntry f :: rest.log = _
    rw [h.log_eq herror, List.length_cons, List.length_append, Nat.add_comm passed.length 1,
      ← Nat.add_assoc, ← Nat.add_assoc]
    rfl
  log_eq_of_error herror := congrArg (convertedEntry f :: ·) (h.log_eq_of_error herror)

end Converted

/-! ### Runs -/

/-- What a family that could not be written leaves in the sink. -/
theorem exists_taken_of_write_eq_error {f : Family} {e : EncodeError}
    (h : f.write sink s target = (.error e, t)) : ∃ bytes, sink.taken t = sink.taken s ++ bytes := by
  unfold Family.write at h
  split at h
  · cases h
    exact ⟨[], (List.append_nil _).symm⟩
  · obtain ⟨k, fault, -, hstops⟩ := writeRendered_eq_error h
    exact ⟨_, hstops.taken_eq⟩

theorem Family.write_eq_ok {f : Family} {n : ℕ} (h : f.write sink s target = (.ok n, t)) :
    let bytes := encodeText (writeLines target (f.lines target))
    n = bytes.length ∧ sink.taken t = sink.taken s ++ bytes := by
  unfold write at h
  split at h
  · cases h
  · next text hrender =>
    obtain ⟨-, rfl⟩ := render_eq_ok hrender
    exact writeRendered_eq_ok h

theorem convertFrom_reports (sink : Sink σ) (s : σ) (r : Reader) (target : Format)
    (families written : ℕ) :
    ∃ passed bytes, (convertFrom sink s r target families written).Reports sink s r.format target
      families written passed bytes := by
  induction hweight : r.weight using Nat.strong_induction_on generalizing r s families written with
  | _ weight ih =>
    cases hnext : r.next.2 with
    | none =>
      rw [convertFrom_end hnext]
      exact ⟨[], Converted.exists_reports_endConversion sink s r.format target families written⟩
    | some item =>
      cases item with
      | error e =>
        rw [convertFrom_error hnext]
        exact ⟨[], [], Converted.reports_of_error _ (List.append_nil _).symm⟩
      | ok f =>
        rw [convertFrom_family hnext]
        split
        · next e t hwrite =>
          obtain ⟨bytes, htaken⟩ := exists_taken_of_write_eq_error hwrite
          exact ⟨[], bytes, Converted.reports_of_error _ htaken⟩
        · next n t hwrite =>
          obtain ⟨rfl, htaken⟩ := Family.write_eq_ok hwrite
          have hlt : r.next.1.weight < weight := hweight ▸ Reader.weight_next_lt hnext
          obtain ⟨passed, bytes, hrest⟩ := ih _ hlt t r.next.1 (families + 1) _ rfl
          rw [r.format_next] at hrest
          exact ⟨f :: passed, _, hrest.cons rfl htaken⟩

/-- Whatever a sink does, a conversion leaves the bytes of some families in it, behind what it held
before, and has logged each of the families.  If nothing failed, the sink took the bytes of the
document with these families and no others, and the last entry gives the numbers of families and of
bytes. -/
theorem convert_reports (sink : Sink σ) (s : σ) (input : Source) (source target : Format) :
    ∃ passed bytes,
      (convert sink s input source target).Reports sink s source target 0 0 passed bytes :=
  convertFrom_reports sink s (.new source input) target 0 0

end Exposition
