import Exposition.Proofs.Decoder.Chunking
import Exposition.Proofs.Decoder.Families
import Exposition.Proofs.Line.OpenMetricsGrammar

/-!
# Truncated documents

An OpenMetrics document that is decoded without an error has the line `# EOF` for its last line and
no other line that begins like it (`byteLines_of_decoded`).  The lines of a front part of the
document are front lines of it but for the last one, which may be cut
(`byteLines_of_prefix`).  If that is again `# EOF`, nothing has been cut off but the line feed
behind it: every other front part ends in an error (`Decoder.truncation_detected`).
-/

namespace Exposition

/-! ### The line that ends a document -/

namespace OpenMetrics

open Grammar

/-- Only one text is read as the line that ends a document. -/
theorem eq_of_read_eof {text : List Char} (h : line.read text = some .eof) :
    text = "# EOF".toList := by
  obtain ⟨t, rfl, hvalue⟩ := (read_iff_expresses finds_line text .eof).1 h
  rcases t with ⟨_ | _ | _ | _ | _, _⟩
  · rfl
  all_goals cases hvalue

/-- A text that begins like the line that ends a document is read only if it is that line. -/
theorem read_of_begins_eof {rest : List Char} {x : Statement}
    (h : line.read ("# EOF".toList ++ rest) = some x) : rest = [] ∧ x = .eof := by
  have hkind : eof.run ("# EOF".toList ++ rest) = some (.eof, rest) :=
    run_map _ (run_literal _ rest)
  cases rest with
  | nil =>
    rw [read_of_kind (run_choice_left hkind)] at h
    cases h
    exact ⟨rfl, rfl⟩
  | cons c rest =>
    have hnone : line.run ("# EOF".toList ++ c :: rest) = none :=
      run_map_none _ (run_seq_none_right (run_choice_left hkind) rfl)
    unfold Grammar.read at h
    rw [hnone] at h
    cases h

end OpenMetrics

/-- The bytes of the line that ends a document. -/
def eofText : List UInt8 := encodeText (writeLine .openMetrics .eof)

theorem eq_of_readsBytes_eof {bytes : List UInt8} (h : Format.openMetrics.ReadsBytes bytes .eof) :
    bytes = eofText := by
  obtain ⟨text, hdecode, hread⟩ := h
  obtain ⟨statement, hstatement, hsays⟩ := readLine_openMetrics_eq_ok_iff.1 hread
  cases hsays
  have htext : text = writeLine .openMetrics .eof :=
    String.toList_inj.1 (OpenMetrics.eq_of_read_eof hstatement)
  rw [← encodeText_of_decodeText? hdecode, htext]
  rfl

theorem eq_eof_of_begins {bytes : List UInt8} {line : Line}
    (h : Format.openMetrics.ReadsBytes bytes line) (hbegins : eofText <+: bytes) : line = .eof := by
  obtain ⟨text, hdecode, hread⟩ := h
  obtain ⟨statement, hstatement, hsays⟩ := readLine_openMetrics_eq_ok_iff.1 hread
  rw [← encodeText_of_decodeText? hdecode] at hbegins
  obtain ⟨rest, hrest⟩ := toList_prefix_of_encodeText_prefix hbegins
  rw [← hrest] at hstatement
  obtain ⟨-, rfl⟩ := OpenMetrics.read_of_begins_eof hstatement
  cases hsays
  rfl

/-- The last line of a document that is decoded without an error ends it, and no other line begins
like that. -/
theorem byteLines_of_decoded {bytes : List UInt8}
    (h : ((Decoder.new .openMetrics).feed bytes).close.results.2 = none) :
    ∃ before, byteLines bytes = before ++ [eofText] ∧ ∀ line ∈ before, ¬ eofText <+: line := by
  rw [Decoder.results_feed_close] at h
  obtain ⟨_, hread, hmakes⟩ := Assembly.runLines_eq_ok_iff.1 (Prod.ext rfl h)
  obtain ⟨before, rfl, hbefore⟩ := hmakes.exists_eof rfl rfl
  have hlines := List.forall₂_take_append _ _ _ hread
  obtain ⟨last, _, hlast, hnil, hdrop⟩ :=
    List.forall₂_cons_right_iff.1 (List.forall₂_drop_append _ _ _ hread)
  cases hnil
  refine ⟨(byteLines bytes).take before.length, ?_, fun bytes hbytes hbegins => ?_⟩
  · rw [← eq_of_readsBytes_eof hlast, ← hdrop, List.take_append_drop]
  · obtain ⟨line, hline, hreads⟩ := exists_of_forall₂ hlines.flip bytes hbytes
    exact hbefore (eq_eof_of_begins hreads hbegins ▸ hline)

/-! ### Lines of a front part -/

theorem exists_consLine (b : UInt8) (lines : List (List UInt8)) :
    ∃ line rest, consLine b lines = (b :: line) :: rest := by
  cases lines with
  | nil => exact ⟨[], [], rfl⟩
  | cons line rest => exact ⟨line, rest, rfl⟩

/-- The lines of a front part are lines of the whole, but for the last one, which may be cut. -/
theorem byteLines_of_prefix {cut whole : List UInt8} (h : cut <+: whole) (hne : cut ≠ []) :
    ∃ full part line rest, byteLines cut = full ++ [part] ∧
      byteLines whole = full ++ line :: rest ∧ part <+: line := by
  obtain ⟨more, rfl⟩ := h
  induction cut with
  | nil => exact absurd rfl hne
  | cons b cut ih =>
    rw [List.cons_append, byteLines, byteLines]
    by_cases hb : b = lineFeed
    · rw [if_pos hb, if_pos hb]
      by_cases hcut : cut = []
      · subst hcut
        exact ⟨[], [], [], byteLines more, rfl, rfl, List.nil_prefix⟩
      · obtain ⟨full, part, line, rest, hpart, hline, hprefix⟩ := ih hcut
        exact ⟨[] :: full, part, line, rest, congrArg _ hpart, congrArg _ hline, hprefix⟩
    · rw [if_neg hb, if_neg hb]
      by_cases hcut : cut = []
      · subst hcut
        obtain ⟨line, rest, hline⟩ := exists_consLine b (byteLines more)
        exact ⟨[], [b], b :: line, rest, rfl, hline, line, rfl⟩
      · obtain ⟨full, part, line, rest, hpart, hline, hprefix⟩ := ih hcut
        rw [hpart, hline]
        cases full with
        | nil => exact ⟨[], b :: part, b :: line, rest, rfl, rfl, List.prefix_cons_inj b |>.2 hprefix⟩
        | cons first full => exact ⟨(b :: first) :: full, part, line, rest, rfl, rfl, hprefix⟩

/-- Lines make up their bytes again, but for the line feed behind the last one. -/
theorem flatMap_byteLines (bytes : List UInt8) :
    (byteLines bytes).flatMap (· ++ [lineFeed]) = bytes ∨
      (byteLines bytes).flatMap (· ++ [lineFeed]) = bytes ++ [lineFeed] := by
  induction bytes with
  | nil => exact .inl rfl
  | cons b bytes ih =>
    rw [byteLines]
    by_cases hb : b = lineFeed
    · rw [if_pos hb, hb]
      exact ih.imp (congrArg (lineFeed :: ·)) (congrArg (lineFeed :: ·))
    · rw [if_neg hb]
      cases hlines : byteLines bytes with
      | nil =>
        rw [hlines] at ih
        rcases ih with rfl | h
        · exact .inr rfl
        · cases bytes <;> cases h
      | cons line rest =>
        rw [hlines] at ih
        exact ih.imp (congrArg (b :: ·)) (congrArg (b :: ·))

/-- A front part with all lines of the whole lacks at most the last line feed. -/
theorem eq_of_byteLines_eq {cut whole : List UInt8} (h : cut <+: whole)
    (hlines : byteLines cut = byteLines whole) : cut = whole ∨ cut ++ [lineFeed] = whole := by
  have hle := h.length_le
  rcases flatMap_byteLines cut with hcut | hcut <;> rcases flatMap_byteLines whole with hwhole | hwhole
    <;> rw [hlines, hwhole] at hcut
  · exact .inl hcut.symm
  · rw [← hcut, List.length_append] at hle
    simp at hle
  · exact .inr hcut.symm
  · exact .inl (List.append_cancel_right hcut).symm

/-- A line feed at the end adds no line, or an empty one. -/
theorem byteLines_append_lineFeed (bytes : List UInt8) :
    byteLines (bytes ++ [lineFeed]) = byteLines bytes ∨
      byteLines (bytes ++ [lineFeed]) = byteLines bytes ++ [[]] := by
  induction bytes with
  | nil => exact .inr rfl
  | cons b bytes ih =>
    rw [List.cons_append, byteLines, byteLines]
    by_cases hb : b = lineFeed
    · rw [if_pos hb, if_pos hb]
      exact ih.imp (congrArg _) (congrArg _)
    · rw [if_neg hb, if_neg hb]
      rcases ih with h | h <;> rw [h]
      · exact .inl rfl
      · cases byteLines bytes with
        | nil => exact .inl rfl
        | cons line rest => exact .inr rfl

/-! ### Truncation -/

namespace Decoder

variable {text cut : List UInt8}

/-- What is decoded from bytes depends on their lines alone. -/
theorem drain_of_byteLines_eq (format : Format) (h : byteLines cut = byteLines text) :
    ((new format).feed cut).close.drain = ((new format).feed text).close.drain := by
  rw [drain_of_closed rfl, drain_of_closed rfl, results_feed_close, results_feed_close, h]

theorem results_of_not_failed (format : Format)
    (h : ∀ e, .failed e ∉ ((new format).feed text).close.drain) :
    ((new format).feed text).close.results.2 = none := by
  rw [drain_of_closed rfl] at h
  cases hresults : ((new format).feed text).close.results.2 with
  | none => rfl
  | some e =>
    rw [hresults] at h
    exact absurd (List.mem_append_left _ (List.mem_append_right _ List.mem_cons_self)) (h e)

/-- A front part that is decoded without an error has all lines of the whole: its last line ends a
document, and the whole has just one line that begins like that. -/
theorem byteLines_eq_of_prefix
    (hwhole : ((new .openMetrics).feed text).close.results.2 = none)
    (hdecoded : ((new .openMetrics).feed cut).close.results.2 = none) (hcut : cut <+: text) :
    byteLines cut = byteLines text := by
  obtain ⟨before, htext, hbefore⟩ := byteLines_of_decoded hwhole
  obtain ⟨front, hfront, -⟩ := byteLines_of_decoded hdecoded
  have hne : cut ≠ [] := by
    rintro rfl
    cases front <;> cases hfront
  obtain ⟨full, part, line, rest, hpart, hline, hprefix⟩ := byteLines_of_prefix hcut hne
  obtain ⟨rfl, hlast⟩ := List.append_inj' (hpart.symm.trans hfront) rfl
  cases hlast
  rcases List.eq_nil_or_concat rest with rfl | ⟨later, last, rfl⟩
  · obtain ⟨-, hlast⟩ := List.append_inj' (hline.symm.trans htext) rfl
    rw [hpart, hline, hlast]
  · have hconcat : (full ++ line :: later) ++ [last] = before ++ [eofText] := by
      rw [← htext, hline, List.concat_eq_append, List.append_assoc, List.cons_append]
    obtain ⟨rfl, -⟩ := List.append_inj' hconcat rfl
    exact absurd hprefix (hbefore line (List.mem_append_right _ List.mem_cons_self))

/-- If an OpenMetrics document is decoded without an error, then every front part of it ends in an
error, but for the one that lacks just the line feed at the end, which is decoded like the whole. -/
theorem truncation_detected
    (hwhole : ∀ e, .failed e ∉ ((new .openMetrics).feed text).close.drain) (hcut : cut <+: text) :
    (cut ≠ text → cut ++ [lineFeed] ≠ text → ∃ (families : List Family) (e : DecodeError),
      ((new .openMetrics).feed cut).close.drain =
        families.map .family ++ [.failed e, .finished]) ∧
    (cut ++ [lineFeed] = text →
      ((new .openMetrics).feed cut).close.drain = ((new .openMetrics).feed text).close.drain) := by
  have hresults := results_of_not_failed .openMetrics hwhole
  constructor
  · intro hproper hlineFeed
    rw [drain_of_closed rfl]
    cases hdecoded : ((new .openMetrics).feed cut).close.results.2 with
    | some e => exact ⟨_, e, List.append_assoc _ _ _⟩
    | none =>
      have hlines := byteLines_eq_of_prefix hresults hdecoded hcut
      rcases eq_of_byteLines_eq hcut hlines with heq | heq
      · exact absurd heq hproper
      · exact absurd heq hlineFeed
  · rintro rfl
    obtain ⟨before, hlines, -⟩ := byteLines_of_decoded hresults
    rcases byteLines_append_lineFeed cut with heq | heq
    · exact drain_of_byteLines_eq .openMetrics heq.symm
    · -- then the last line would be empty
      obtain ⟨-, hlast⟩ := List.append_inj' (heq.symm.trans hlines) rfl
      cases hlast

/-- A document with a help text that could end anywhere, and a number of several digits. -/
def truncatedText : List UInt8 :=
  encodeText "# HELP a über\n# TYPE a gauge\na 12\n# EOF\n"

/-- Wherever the document is cut: inside the character of two bytes, behind the first digit of the
number, inside the last line. -/
theorem truncation_detected_truncatedText :
    truncatedText.length = 41 ∧
      ∀ n < 40, ∃ (families : List Family) (e : DecodeError),
        ((new .openMetrics).feed (truncatedText.take n)).close.drain =
          families.map .family ++ [.failed e, .finished] := by
  have hlength : truncatedText.length = 41 := by decide +kernel
  have hresults : ((new .openMetrics).feed truncatedText).close.results.2 = none := by
    decide +kernel
  have hwhole : ∀ e, .failed e ∉ ((new .openMetrics).feed truncatedText).close.drain := by
    intro e
    rw [drain_of_closed rfl, hresults]
    simp
  refine ⟨hlength, fun n hn => ?_⟩
  have htake : (truncatedText.take n).length = n := by
    rw [List.length_take, hlength]
    omega
  refine (truncation_detected hwhole (List.take_prefix n _)).1 (fun h => ?_) (fun h => ?_)
  · have := congrArg List.length h
    omega
  · have := congrArg List.length h
    rw [List.length_append, List.length_singleton] at this
    omega

end Decoder

end Exposition
