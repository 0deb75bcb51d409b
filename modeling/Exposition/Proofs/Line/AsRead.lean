import Exposition.Proofs.Line.PrometheusLanguage

/-!
# Lines as they are read

Not every line can be the outcome of reading: a help text that is read is one that the format shows
as it is, and the timestamps of exemplars are finite (`asRead_of_readLine`).  The Prometheus format
has plain names only, and no units and exemplars (`plain_of_readLine`).
-/

namespace Exposition

/-- What holds of every line that is read. -/
def Line.AsRead (format : Format) : Line → Prop
  | .help _ text => format.shownHelp text = text
  | .sample s => ∀ e ∈ s.exemplar, ∀ x ∈ e.timestamp, x.isFinite = true
  | _ => True

/-- Behind escapes, a text begins with a blank only if its escaped form does. -/
theorem noBlank_of_unescapes {quotes : Bool} {escaped s : List Char}
    (h : Unescapes quotes escaped s) (hescaped : Prometheus.NoBlank escaped) :
    Prometheus.NoBlank s := by
  cases h with
  | nil => exact hescaped
  | plain hc h => exact fun c hc => hescaped c hc
  | backslash h => exact Prometheus.noBlank_cons rfl _
  | lineFeed h => exact Prometheus.noBlank_cons rfl _
  | quote hq h => exact Prometheus.noBlank_cons rfl _

theorem shownHelp_of_noBlank {text : String} (h : Prometheus.NoBlank text.toList) :
    Format.prometheus.shownHelp text = text := by
  refine shownHelp_of_head? fun c hc => ?_
  have hblank := h c hc
  constructor
  · rintro rfl
    cases hblank
  · rintro rfl
    cases hblank

theorem shownHelp_of_readStatement {format : Format} {chars : List Char} {w : WrittenName}
    {written : Option (List Char)} {text : String}
    (h : format.readStatement chars = .ok (.help w written))
    (hsay : SaysText format.quotesInHelp written text) : format.shownHelp text = text := by
  cases format with
  | openMetrics => rfl
  | prometheus =>
    have hread := readStatement_eq_ok_iff.1 h
    have hnoBlank := (Prometheus.read_help_iff.1 hread).2
    cases written with
    | none =>
      rw [show text = "" from hsay]
      rfl
    | some escaped =>
      exact shownHelp_of_noBlank (noBlank_of_unescapes hsay (hnoBlank escaped rfl))

theorem exists_of_optionRel {α β : Type} {R : α → β → Prop} {o : Option α} {p : Option β}
    (h : Option.Rel R o p) : ∀ y ∈ p, ∃ x ∈ o, R x y := by
  cases h with
  | none => exact nofun
  | some hxy =>
    rintro _ ⟨⟩
    exact ⟨_, rfl, hxy⟩

theorem WrittenSample.Says.finite {format : Format} {w : WrittenSample} {s : Sample}
    (h : w.Says format s) : ∀ e ∈ s.exemplar, ∀ x ∈ e.timestamp, x.isFinite = true := by
  intro e he x hx
  obtain ⟨written, -, hsay⟩ := exists_of_optionRel h.exemplar e he
  obtain ⟨token, -, hseconds⟩ := exists_of_optionRel hsay.timestamp x hx
  exact hseconds.2

theorem asRead_of_readLine {format : Format} {chars : List Char} {line : Line}
    (h : readLine format chars = .ok line) : line.AsRead format := by
  obtain ⟨statement, hstatement, hsay⟩ := readLine_eq_ok_iff.1 h
  cases hsay with
  | help hname htext => exact shownHelp_of_readStatement hstatement htext
  | type hname hkeyword => trivial
  | unit hname htext => trivial
  | sample hsample => exact hsample.finite
  | eof => trivial
  | blank => trivial

/-! ### Plain lines -/

/-- What the Prometheus format has room for: plain names, and no units, exemplars and ends. -/
def Line.Plain : Line → Prop
  | .help name _ => isPlainName name.toList = true
  | .type name _ => isPlainName name.toList = true
  | .unit _ _ => False
  | .sample s => isPlainName s.name.toList = true ∧ s.exemplar = none
  | .eof => False
  | .blank => True

/-- Whether a name is written without quotes, as a plain name is. -/
def WrittenName.Plain : WrittenName → Prop
  | bare text => isPlainName text = true
  | quoted _ => False

/-- The statements of plain lines. -/
def Statement.Plain : Statement → Prop
  | help name _ => name.Plain
  | type name _ => name.Plain
  | unit _ _ => False
  | sample s => s.name.Plain ∧ s.exemplar = none
  | eof => False
  | blank => True

theorem WrittenName.Says.plain {w : WrittenName} {name : String} (h : w.Says name)
    (hw : w.Plain) : isPlainName name.toList = true := by
  cases w with
  | bare text =>
    rw [show name.toList = text from h]
    exact hw
  | quoted escaped => exact hw.elim

theorem Statement.Says.plain {format : Format} {statement : Statement} {line : Line}
    (h : statement.Says format line) (hstatement : statement.Plain) : line.Plain := by
  cases h with
  | help hname htext => exact hname.plain hstatement
  | type hname hkeyword => exact hname.plain hstatement
  | unit hname htext => exact hstatement
  | @sample w s hsample =>
    obtain ⟨hname, hexemplar⟩ := hstatement
    have hsaid := hsample.exemplar
    rw [hexemplar] at hsaid
    refine ⟨hsample.name.plain hname, ?_⟩
    cases hs : s.exemplar with
    | none => rfl
    | some e => rw [hs] at hsaid; cases hsaid
  | eof => exact hstatement
  | blank => trivial

namespace Prometheus

/-- What is derived as a name is a plain name. -/
theorem isPlainName_yield_name (t : name.Tree) : isPlainName (name.yield t) = true := by
  obtain ⟨c, cs⟩ := t
  have hrest : ∀ d ∈ cs.flatMap fun d => [d.val], continuesName d = true := by
    intro d hd
    obtain ⟨e, -, he⟩ := List.mem_flatMap.1 hd
    rw [List.mem_singleton.1 he]
    exact e.property
  exact Bool.and_eq_true_iff.2 ⟨c.property, List.all_eq_true.2 hrest⟩

theorem plain_of_run_kind {s rest : List Char} {x : Statement}
    (hkind : kind.run s = some (x, rest)) : x.Plain := by
  rcases kind_cases hkind with h | h | h | ⟨w, rfl, h⟩
  · obtain ⟨⟨-, -, ⟨-, n⟩, -⟩, -, rfl⟩ := Grammar.exists_of_run h
    exact isPlainName_yield_name n
  · obtain ⟨⟨-, -, ⟨-, n⟩, -⟩, -, rfl⟩ := Grammar.exists_of_run h
    exact isPlainName_yield_name n
  · rw [value_of_comment h]
    trivial
  · obtain ⟨⟨n, -⟩, -, rfl⟩ := Grammar.exists_of_run h
    exact ⟨isPlainName_yield_name n, rfl⟩

theorem plain_of_read {chars : List Char} {x : Statement} (h : line.read chars = some x) :
    x.Plain := by
  obtain ⟨b, s, hb, hs, rfl⟩ := exists_blanks_append chars
  rcases (read_eq_some_iff hb hs).1 h with ⟨rest, hkind, -⟩ | ⟨-, rfl⟩
  · exact plain_of_run_kind hkind
  · trivial

end Prometheus

theorem plain_of_readLine {chars : List Char} {line : Line}
    (h : readLine .prometheus chars = .ok line) : line.Plain := by
  obtain ⟨statement, hstatement, hsaid⟩ := readLine_prometheus_eq_ok_iff.1 h
  exact hsaid.plain (Prometheus.plain_of_read hstatement)

end Exposition
