import Exposition.Proofs.Encode.Document

/-!
# How much of a document a sink took

A sink that fails has taken a front part of the document, not all of it (`Sink.StopsAt`).  Each
writer is accounted for on its own, with the count that it reports: that of a family is what was
taken of its text (`writeRendered_eq_error`), that of several families is what was taken of them
together (`writeAllRendered_eq_error`), and the line that ends a document is not counted at all
(`writeEof_eq_error`).  So an error of a document counts what the sink took of the families
(`Document.write_accounts`), which is less than it took if it failed inside the last line
(`Document.write_undercounts`).
-/

namespace Exposition

variable {σ : Type} {sink : Sink σ} {s t u : σ} {bytes : List UInt8} {k : ℕ}

/-! ### Sinks that stop -/

/-- From one state to another, a sink took so many of some bytes, and not all of them. -/
structure Sink.StopsAt (sink : Sink σ) (s t : σ) (bytes : List UInt8) (k : ℕ) : Prop where
  lt : k < bytes.length
  taken_eq : sink.taken t = sink.taken s ++ bytes.take k

namespace Sink

theorem StopsAt.append (h : sink.StopsAt s t bytes k) (more : List UInt8) :
    sink.StopsAt s t (bytes ++ more) k where
  lt := by
    rw [List.length_append]
    exact Nat.lt_add_right _ h.lt
  taken_eq := by rw [h.taken_eq, List.take_append_of_le_length (Nat.le_of_lt h.lt)]

/-- Bytes that were taken before count as taken. -/
theorem StopsAt.after {first : List UInt8} (hfirst : sink.taken t = sink.taken s ++ first)
    (h : sink.StopsAt t u bytes k) : sink.StopsAt s u (first ++ bytes) (first.length + k) where
  lt := by
    rw [List.length_append]
    exact Nat.add_lt_add_left h.lt _
  taken_eq := by
    rw [h.taken_eq, hfirst, List.append_assoc, List.take_length_add_append]

/-- A sink that refuses has not taken everything. -/
theorem written_lt_of_refused {written : ℕ}
    (h : (sink.sendFrom s written bytes).refusal ≠ none) :
    (sink.sendFrom s written bytes).written < written + bytes.length := by
  fun_induction sendFrom sink s written bytes with
  | case1 => exact absurd rfl h
  | case2 s written bytes hne =>
    exact Nat.lt_add_of_pos_right (List.length_pos_iff.2 (by simpa using hne))
  | case3 s written bytes hne n next hsettle hn ih =>
    have hle := (taken_of_settle_took hsettle).1
    have hrest := ih h
    rw [List.length_drop] at hrest
    omega
  | case4 s written bytes hne =>
    exact Nat.lt_add_of_pos_right (List.length_pos_iff.2 (by simpa using hne))

theorem stopsAt_send (h : (sink.send s bytes).refusal ≠ none) :
    sink.StopsAt s (sink.send s bytes).state bytes (sink.send s bytes).written where
  lt := by
    have hlt := written_lt_of_refused h
    rwa [Nat.zero_add] at hlt
  taken_eq := sink.taken_send s bytes

end Sink

/-! ### Writers that fail -/

/-- The error of a family counts what the sink took of its text. -/
theorem writeRendered_eq_error {text : String} {e : EncodeError}
    (h : writeRendered sink s text = (.error e, t)) :
    ∃ k fault, e = .sink k fault ∧ sink.StopsAt s t (encodeText text) k := by
  unfold writeRendered at h
  dsimp only at h
  split at h
  · cases h
  · next hrefused =>
    cases h
    exact ⟨_, _, rfl, Sink.stopsAt_send (by rw [hrefused]; nofun)⟩
  · next fault hrefused =>
    cases h
    exact ⟨_, _, rfl, Sink.stopsAt_send (by rw [hrefused]; nofun)⟩

/-- The error of families counts what the sink took of all of them, behind what was written
before. -/
theorem writeAllRendered_eq_error {texts : List String} {written : ℕ} {e : EncodeError}
    (h : writeAllRendered sink s written texts = (.error e, t)) :
    ∃ k fault, e = .sink (written + k) fault ∧
      sink.StopsAt s t (encodeText (String.join texts)) k := by
  induction texts generalizing s written with
  | nil => cases h
  | cons text texts ih =>
    rw [String.join_cons, encodeText_append]
    unfold writeAllRendered at h
    split at h
    · next n next hwrite =>
      obtain ⟨rfl, hnext⟩ := writeRendered_eq_ok hwrite
      obtain ⟨k, fault, rfl, hstops⟩ := ih h
      exact ⟨_, fault, by rw [Nat.add_assoc], hstops.after hnext⟩
    · next fault next hwrite =>
      cases h
      obtain ⟨k, fault, rfl, hstops⟩ := writeRendered_eq_error hwrite
      exact ⟨k, fault, rfl, hstops.append _⟩

theorem writeEof_eq_error {fault : DeviceFault} (h : writeEof sink s = (.error fault, t)) :
    ∃ k, sink.StopsAt s t eofBytes k := by
  unfold writeEof at h
  dsimp only at h
  split at h
  · cases h
  · next hrefused =>
    cases h
    exact ⟨_, Sink.stopsAt_send (by rw [hrefused]; nofun)⟩
  · next hrefused =>
    cases h
    exact ⟨_, Sink.stopsAt_send (by rw [hrefused]; nofun)⟩

/-! ### Families that cannot be written -/

/-- No error of a check is one of a sink. -/
theorem Family.checkMetrics_ne_sink {f : Family} {earlier metrics : List Metric} {written : ℕ}
    {fault : DeviceFault} : f.checkMetrics earlier metrics ≠ .error (.sink written fault) := by
  fun_induction f.checkMetrics earlier metrics with
  | case1 => nofun
  | case2 => nofun
  | case3 => nofun
  | case4 => nofun
  | case5 earlier m rest htype hflaw hrepeats ih => exact ih

theorem Family.check_ne_sink {f : Family} {format : Format} {written : ℕ} {fault : DeviceFault} :
    f.check format ≠ .error (.sink written fault) := by
  unfold check
  split
  · nofun
  · split
    · nofun
    · exact checkMetrics_ne_sink

theorem Family.render_ne_sink {f : Family} {format : Format} {written : ℕ} {fault : DeviceFault} :
    f.render format ≠ .error (.sink written fault) := by
  unfold render
  split
  · next e hcheck =>
    intro h
    cases h
    exact check_ne_sink hcheck
  · nofun

theorem Family.bytesWritten_of_render {f : Family} {format : Format} {e : EncodeError}
    (h : f.render format = .error e) : e.bytesWritten = 0 := by
  cases e with
  | sink written fault => exact absurd h render_ne_sink
  | _ => rfl

namespace Document

variable {format : Format} {d : Document}

/-- A document with a family that cannot be written is not offered to any sink. -/
theorem write_of_not_renders (h : ∃ f ∈ d.families, f.renders format = false) :
    ∃ e : EncodeError, e.bytesWritten = 0 ∧
      ∀ {σ : Type} (sink : Sink σ) (s : σ), d.write sink s format = (.error e, s) := by
  cases hrender : d.families.mapM (Family.render format) with
  | error e =>
    obtain ⟨f, -, hf⟩ := exists_of_mapM_eq_error hrender
    refine ⟨e, Family.bytesWritten_of_render hf, fun sink s => ?_⟩
    unfold write
    rw [hrender]
  | ok texts =>
    obtain ⟨f, hf, hfails⟩ := h
    rw [Family.renders_iff.2 ((mapM_render_eq_ok hrender).1 f hf)] at hfails
    cases hfails

/-- The error of a document with families that can be written is one of the sink.  The sink has
stopped inside the document, and the error counts what it took of the families. -/
theorem write_eq_error {e : EncodeError} (hrenders : ∀ f ∈ d.families, f.renders format = true)
    (h : d.write sink s format = (.error e, t)) :
    ∃ k fault, e = .sink (min k (bytesOf format d.families).length) fault ∧
      sink.StopsAt s t (encodeText (writeLines format (documentLines format d.families))) k := by
  rw [encodeText_documentLines]
  unfold write at h
  rw [mapM_render_of_check fun f hf => Family.renders_iff.1 (hrenders f hf)] at h
  dsimp only at h
  split at h
  · next fault next hall =>
    cases h
    obtain ⟨k, fault, rfl, hstops⟩ := writeAllRendered_eq_error hall
    have hfamilies : sink.StopsAt s t (bytesOf format d.families) k := hstops
    refine ⟨k, fault, ?_, hfamilies.append _⟩
    rw [Nat.zero_add, Nat.min_eq_left (Nat.le_of_lt hfamilies.lt)]
  · next count next hall =>
    obtain ⟨hcount, hnext⟩ := writeAllRendered_eq_ok hall
    split at h
    · next hrequired =>
      split at h
      · cases h
      · next fault last heof =>
        cases h
        obtain ⟨k, hstops⟩ := writeEof_eq_error heof
        rw [if_pos hrequired]
        refine ⟨_, fault, ?_, hstops.after hnext⟩
        rw [hcount, Nat.zero_add, Nat.min_eq_right (Nat.le_add_right _ k)]
        rfl
    · cases h

/-- A document with a family that cannot be written is not offered to any sink.  Any other document
is what the sink took, of the length that is reported, or the sink failed.  Then it took a front
part of the document, and the error counts what it took of the families: what it took of the line
that ends the document is not counted. -/
theorem write_accounts (format : Format) (d : Document) :
    let document := encodeText (writeLines format (documentLines format d.families))
    ((∃ f ∈ d.families, f.renders format = false) →
      ∃ e : EncodeError, e.bytesWritten = 0 ∧
        ∀ {σ : Type} (sink : Sink σ) (s : σ), d.write sink s format = (.error e, s)) ∧
    ((∀ f ∈ d.families, f.renders format = true) → ∀ {σ : Type} (sink : Sink σ) (s : σ),
      (∃ t, d.write sink s format = (.ok document.length, t) ∧
        sink.taken t = sink.taken s ++ document) ∨
      ∃ t, ∃ k < document.length, ∃ fault, sink.taken t = sink.taken s ++ document.take k ∧
        d.write sink s format =
          (.error (.sink (min k (bytesOf format d.families).length) fault), t)) := by
  intro document
  refine ⟨write_of_not_renders, fun hrenders σ sink s => ?_⟩
  rcases hwrite : d.write sink s format with ⟨e | n, t⟩
  · obtain ⟨k, fault, rfl, hlt, htaken⟩ := write_eq_error hrenders hwrite
    exact .inr ⟨t, k, hlt, fault, htaken, rfl⟩
  · obtain ⟨-, rfl, htaken⟩ := write_eq_ok hwrite
    exact .inl ⟨t, rfl, htaken⟩

/-- A document of 27 bytes, 21 of them of its family. -/
def gaugeDocument : Document :=
  ⟨[{ name := "a", type := .gauge, metrics := [⟨[], none, .gauge .one⟩] }]⟩

/-- A sink that fails inside the last line of the document. -/
def brokenPipe : Sink BoundedState :=
  Sink.bounded { capacity := some 24, whenFull := some ⟨"broken pipe"⟩ }

theorem write_accounts_gaugeDocument :
    (∀ f ∈ gaugeDocument.families, f.renders .openMetrics = true) ∧
      ∃ t, ∃ k < 27, ∃ fault,
        brokenPipe.taken t = (encodeText "# TYPE a gauge\na 1.0\n# EOF\n").take k ∧
          gaugeDocument.write brokenPipe {} .openMetrics = (.error (.sink (min k 21) fault), t) := by
  have hrenders : ∀ f ∈ gaugeDocument.families, f.renders .openMetrics = true := by decide
  have hfails : (gaugeDocument.write brokenPipe {} .openMetrics).1.isOk = false := by
    decide +kernel
  have hdocument : encodeText (writeLines .openMetrics
      (documentLines .openMetrics gaugeDocument.families)) =
        encodeText "# TYPE a gauge\na 1.0\n# EOF\n" := by
    decide +kernel
  refine ⟨hrenders, ?_⟩
  rcases (write_accounts .openMetrics gaugeDocument).2 hrenders brokenPipe {} with
    ⟨t, hwrite, -⟩ | ⟨t, k, hk, fault, htaken, hwrite⟩
  · rw [hwrite] at hfails
    cases hfails
  · rw [hdocument] at hk htaken
    exact ⟨t, k, hk, fault, htaken, hwrite⟩

/-- The bytes of the last line are not counted, although the sink took them. -/
theorem write_undercounts :
    let outcome := gaugeDocument.write brokenPipe {} .openMetrics
    outcome.1 = .error (.sink 21 ⟨"broken pipe"⟩) ∧
      brokenPipe.taken outcome.2 = encodeText "# TYPE a gauge\na 1.0\n# E" ∧
      (brokenPipe.taken outcome.2).length = 24 := by
  decide +kernel

end Document

end Exposition
