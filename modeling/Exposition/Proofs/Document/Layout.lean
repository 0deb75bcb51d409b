import Exposition.Proofs.Decoder.Truncation
import Exposition.Proofs.Line.Layout
import Exposition.Proofs.Number.Count

/-!
# Layout of Prometheus documents

A document is cut into rows at its line feeds, and what it says are the lines that are read from its
rows, without those that say nothing (`SaidBy`).  An assembly takes the lines just if it takes those
that say something (`Assembly.makes_filter_iff`).  Other blanks around the tokens of samples and type
lines, and further rows that say nothing, make a document that says the same (`Relaid.saidBy_iff`)
and is therefore decoded to the same families (`Document.parse_of_relaid`).
-/

namespace Exposition

def Line.saysSomething : Line → Bool
  | .blank => false
  | _ => true

/-! ### Lines that say nothing -/

namespace Assembly

variable {a b : Assembly} {families : List Family}

theorem makes_nil_iff (heof : a.eofLine = none) (hend : a.format.requiresEof = false) (n : ℕ) :
    a.Makes n [] families ↔
      ∃ b completed, a.finishCurrent = .ok (b, completed) ∧ families = completed.toList := by
  have h : a.Makes n (if a.format.requiresEof then [.eof] else []) families ↔ _ :=
    makes_end_iff heof
  rwa [hend, if_neg Bool.false_ne_true] at h

/-- Only the line that ends a document is noted with its number. -/
theorem add_eq_add {line : Line} (hline : line ≠ .eof) (n m : ℕ) : a.add n line = a.add m line := by
  cases line with
  | eof => exact absurd rfl hline
  | _ => rfl

/-- Where no line has to end a document, lines that say nothing leave no trace. -/
theorem makes_filter_iff {lines : List Line} (heof : a.eofLine = none)
    (hend : a.format.requiresEof = false) (hlines : .eof ∉ lines) (n m : ℕ) :
    a.Makes n lines families ↔ a.Makes m (lines.filter Line.saysSomething) families := by
  induction lines generalizing a n m families with
  | nil => rw [List.filter_nil, makes_nil_iff heof hend, makes_nil_iff heof hend]
  | cons line lines ih =>
    obtain ⟨hne, hrest⟩ := List.ne_and_not_mem_of_not_mem_cons hlines
    cases hsay : line.saysSomething with
    | false =>
      obtain rfl : line = .blank := by
        cases line with
        | blank => rfl
        | _ => cases hsay
      rw [List.filter_cons_of_neg (by simp [hsay]), makes_cons_iff, addLine_of_not_ended heof]
      constructor
      · rintro ⟨_, _, later, ⟨⟩, hmakes, rfl⟩
        exact (ih heof hend hrest _ _).1 hmakes
      · intro hmakes
        exact ⟨a, none, families, rfl, (ih heof hend hrest _ _).2 hmakes, rfl⟩
    | true =>
      rw [List.filter_cons_of_pos hsay, makes_cons_iff, makes_cons_iff, addLine_of_not_ended heof,
        addLine_of_not_ended heof, add_eq_add (Ne.symm hne) (n + 1) (m + 1)]
      refine exists_congr fun b => exists_congr fun completed => exists_congr fun later => ?_
      refine and_congr_right fun hadd => and_congr_left fun _ => ?_
      have hadds := adds_of_add hadd
      rcases hadds.eofLine_eq with ⟨rfl, -⟩ | ⟨-, hopen⟩
      · exact absurd rfl hne
      · exact ih (hopen.trans heof) (by rw [hadds.format_eq]; exact hend) hrest _ _

end Assembly

/-! ### Rows -/

namespace Prometheus

variable {row : List Char} {rows rows' : List (List Char)} {said : List Line}

/-- The lines that are read from rows, without those that say nothing. -/
def SaidBy (rows : List (List Char)) (said : List Line) : Prop :=
  ∃ lines, List.Forall₂ (fun row line => readLine .prometheus row = .ok line) rows lines ∧
    lines.filter Line.saysSomething = said

theorem saidBy_cons_iff :
    SaidBy (row :: rows) said ↔ ∃ line rest, readLine .prometheus row = .ok line ∧
      SaidBy rows rest ∧ said = [line].filter Line.saysSomething ++ rest := by
  constructor
  · rintro ⟨_, hall, rfl⟩
    obtain ⟨line, lines, hline, hlines, rfl⟩ := List.forall₂_cons_left_iff.1 hall
    exact ⟨line, _, hline, ⟨lines, hlines, rfl⟩, List.filter_append [line] lines⟩
  · rintro ⟨line, _, hline, ⟨lines, hlines, rfl⟩, rfl⟩
    exact ⟨line :: lines, .cons hline hlines, List.filter_append [line] lines⟩

/-- A row that says nothing does not matter. -/
theorem saidBy_cons_of_saysNothing (hrow : SaysNothing row) :
    SaidBy (row :: rows) said ↔ SaidBy rows said := by
  rw [saidBy_cons_iff]
  constructor
  · rintro ⟨line, rest, hline, hrest, rfl⟩
    rw [readLine_eq_blank_iff.2 hrow] at hline
    cases hline
    exact hrest
  · intro hrows
    exact ⟨.blank, said, readLine_eq_blank_iff.2 hrow, hrows, rfl⟩

/-- A row can be replaced by one that is read as the same line. -/
theorem saidBy_cons_congr {row' : List Char}
    (hrow : ∀ line, readLine .prometheus row = .ok line ↔ readLine .prometheus row' = .ok line)
    (hrows : ∀ said, SaidBy rows said ↔ SaidBy rows' said) :
    SaidBy (row :: rows) said ↔ SaidBy (row' :: rows') said := by
  simp only [saidBy_cons_iff, hrow, hrows]

/-- Rows and how they can be laid out otherwise: blanks around the tokens of samples and type lines
are others, a comma stands behind the last label or not, and there are further blank lines and
comments. -/
inductive Relaid : List (List Char) → List (List Char) → Prop
  | nil : Relaid [] []
  | keep (row : List Char) {rows rows' : List (List Char)} (h : Relaid rows rows') :
      Relaid (row :: rows) (row :: rows')
  | sample {l l' : SampleLayout} {rows rows' : List (List Char)}
      (hnumber : IsNumber l.written.value) (hsame : l'.written = l.written)
      (h : Relaid rows rows') : Relaid (l.text :: rows) (l'.text :: rows')
  | type {l l' : TypeLayout} {rows rows' : List (List Char)} (hsame : l'.written = l.written)
      (h : Relaid rows rows') : Relaid (l.text :: rows) (l'.text :: rows')
  | insert {row : List Char} {rows rows' : List (List Char)} (hrow : SaysNothing row)
      (h : Relaid rows rows') : Relaid rows (row :: rows')

theorem Relaid.saidBy_iff (h : Relaid rows rows') (said : List Line) :
    SaidBy rows said ↔ SaidBy rows' said := by
  induction h generalizing said with
  | nil => rfl
  | keep row _ ih => exact saidBy_cons_congr (fun _ => Iff.rfl) ih
  | @sample l l' _ _ hnumber hsame _ ih =>
    refine saidBy_cons_congr (fun line => ?_) ih
    have hnumber' : IsNumber l'.written.value := by rwa [hsame]
    rw [readLine_sampleLayout_iff hnumber, readLine_sampleLayout_iff hnumber', hsame]
  | @type l l' _ _ hsame _ ih =>
    refine saidBy_cons_congr (fun line => ?_) ih
    rw [readLine_typeLayout_iff, readLine_typeLayout_iff, hsame]
  | insert hrow _ ih => exact (ih said).trans (saidBy_cons_of_saysNothing hrow).symm

/-! ### Rows of a text -/

/-- No line of this format ends a document or gives a unit. -/
theorem not_eof_or_unit {line : Line} (h : readLine .prometheus row = .ok line) :
    line ≠ .eof ∧ ∀ name text, line ≠ .unit name text := by
  obtain ⟨x, hread, hsay⟩ := readLine_prometheus_eq_ok_iff.1 h
  have hx : x ≠ .eof ∧ ∀ name text, x ≠ .unit name text := by
    obtain ⟨b, s, hb, hs, rfl⟩ := exists_blanks_append row
    rcases (read_eq_some_iff hb hs).1 hread with ⟨rest, hkind, -⟩ | ⟨-, rfl⟩
    · rcases kind_cases hkind with h | h | h | ⟨_, rfl, -⟩
      · obtain ⟨_, _, rfl⟩ := value_of_help h
        exact ⟨nofun, nofun⟩
      · obtain ⟨_, _, rfl⟩ := value_of_type h
        exact ⟨nofun, nofun⟩
      · rw [value_of_comment h]
        exact ⟨nofun, nofun⟩
      · exact ⟨nofun, nofun⟩
    · exact ⟨nofun, nofun⟩
  cases hsay with
  | eof => exact absurd rfl hx.1
  | unit _ _ => exact absurd rfl (hx.2 _ _)
  | _ => exact ⟨nofun, nofun⟩

theorem flatMap_splitOn (text : List Char) :
    (text.splitOn '\n').flatMap (· ++ ['\n']) = text ++ ['\n'] := by
  induction text with
  | nil => rfl
  | cons c text ih =>
    rw [List.splitOn_cons_eq_if_modifyHead]
    split
    · next hc =>
      rw [beq_iff_eq.1 hc, List.flatMap_cons, ih]
      rfl
    · obtain ⟨row, rows, hrows⟩ := List.exists_cons_of_ne_nil (List.splitOn_ne_nil '\n' text)
      rw [hrows] at ih ⊢
      exact congrArg (c :: ·) ih

theorem lineFeed_not_mem_of_mem_splitOn {text row : List Char} (h : row ∈ text.splitOn '\n') :
    '\n' ∉ row := by
  induction text generalizing row with
  | nil =>
    rw [List.splitOn_nil, List.mem_singleton] at h
    rw [h]
    exact List.not_mem_nil
  | cons c text ih =>
    rw [List.splitOn_cons_eq_if_modifyHead] at h
    split at h
    · rcases List.mem_cons.1 h with rfl | h
      · exact List.not_mem_nil
      · exact ih h
    · next hc =>
      obtain ⟨first, rows, hrows⟩ := List.exists_cons_of_ne_nil (List.splitOn_ne_nil '\n' text)
      rw [hrows, List.modifyHead_cons] at h
      rw [hrows] at ih
      rcases List.mem_cons.1 h with rfl | h
      · exact List.not_mem_cons_of_ne_of_not_mem (fun he => hc (by rw [he, beq_self_eq_true]))
          (ih List.mem_cons_self)
      · exact ih (List.mem_cons_of_mem _ h)

/-- The bytes of a row. -/
def rowBytes (row : List Char) : List UInt8 := encodeText (String.ofList row)

theorem rowBytes_append (row rest : List Char) :
    rowBytes (row ++ rest) = rowBytes row ++ rowBytes rest := by
  unfold rowBytes
  rw [String.ofList_append, encodeText_append]

theorem byteLines_rows (h : ∀ row ∈ rows, '\n' ∉ row) :
    byteLines (rowBytes (rows.flatMap (· ++ ['\n']))) = rows.map rowBytes := by
  induction rows with
  | nil => rfl
  | cons row rows ih =>
    obtain ⟨hrow, hrows⟩ := List.forall_mem_cons.1 h
    have hfeed : lineFeed ∉ rowBytes row := by
      unfold rowBytes
      rwa [lineFeed_mem_encodeText, String.toList_ofList]
    rw [List.flatMap_cons, rowBytes_append, rowBytes_append, List.append_assoc, List.map_cons,
      ← ih hrows]
    exact byteLines_append hfeed _

/-- The rows of a text are its lines, and perhaps an empty one behind them. -/
theorem map_rowBytes_splitOn (text : String) :
    (text.toList.splitOn '\n').map rowBytes = byteLines (encodeText text) ∨
      (text.toList.splitOn '\n').map rowBytes = byteLines (encodeText text) ++ [[]] := by
  have hrows := byteLines_rows fun row (hrow : row ∈ text.toList.splitOn '\n') =>
    lineFeed_not_mem_of_mem_splitOn hrow
  have hbytes : rowBytes text.toList = encodeText text := by
    unfold rowBytes
    rw [String.ofList_toList]
  rw [flatMap_splitOn, rowBytes_append, hbytes] at hrows
  rw [← hrows]
  exact byteLines_append_lineFeed (encodeText text)

theorem readsBytes_rowBytes_iff {line : Line} :
    Format.prometheus.ReadsBytes (rowBytes row) line ↔ readLine .prometheus row = .ok line := by
  unfold Format.ReadsBytes rowBytes
  simp only [decodeText?_encodeText, Option.some.injEq, exists_eq_left', String.toList_ofList]

theorem saidBy_splitOn_iff {text : String} :
    SaidBy (text.toList.splitOn '\n') said ↔
      ∃ lines, List.Forall₂ Format.prometheus.ReadsBytes (byteLines (encodeText text)) lines ∧
        lines.filter Line.saysSomething = said := by
  have hrows : ∀ lines, List.Forall₂ (fun row line => readLine .prometheus row = .ok line)
      (text.toList.splitOn '\n') lines ↔ List.Forall₂ Format.prometheus.ReadsBytes
        ((text.toList.splitOn '\n').map rowBytes) lines := by
    intro lines
    simp only [List.forall₂_map_left_iff, readsBytes_rowBytes_iff]
  have hempty : ∀ line, Format.prometheus.ReadsBytes [] line ↔ line = .blank := by
    intro line
    show Format.prometheus.ReadsBytes (rowBytes []) line ↔ line = .blank
    rw [readsBytes_rowBytes_iff]
    have hblank := readLine_eq_blank_iff.2 (.inl blanks_nil)
    constructor
    · intro h
      rw [hblank] at h
      cases h
      rfl
    · rintro rfl
      exact hblank
  unfold SaidBy
  simp only [hrows]
  rcases map_rowBytes_splitOn text with h | h <;> rw [h]
  constructor
  · rintro ⟨_, hall, rfl⟩
    obtain ⟨lines, last, rfl, hlines, hlast⟩ := forall₂_append_left_iff.1 hall
    obtain ⟨line, _, hline, hnil, rfl⟩ := List.forall₂_cons_left_iff.1 hlast
    cases hnil
    rw [(hempty line).1 hline, List.filter_append]
    exact ⟨lines, hlines, (List.append_nil _).symm⟩
  · rintro ⟨lines, hall, rfl⟩
    refine ⟨lines ++ [.blank], List.rel_append hall (.cons ((hempty _).2 rfl) .nil), ?_⟩
    rw [List.filter_append]
    exact List.append_nil _

end Prometheus

open Prometheus

theorem Document.parse_eq_ok_iff_saidBy {text : String} {d : Document} :
    parse .prometheus text = .ok d ↔ ∃ said, SaidBy (text.toList.splitOn '\n') said ∧
      ({ format := .prometheus } : Assembly).Makes 0 said d.families := by
  have hmakes : ∀ lines,
      List.Forall₂ Format.prometheus.ReadsBytes (byteLines (encodeText text)) lines →
      (({ format := .prometheus } : Assembly).Makes 0 lines d.families ↔
        ({ format := .prometheus } : Assembly).Makes 0 (lines.filter Line.saysSomething)
          d.families) := by
    intro lines hall
    refine Assembly.makes_filter_iff rfl rfl (fun heof => ?_) 0 0
    obtain ⟨row, hread⟩ := Format.reads_of_forall₂ hall _ heof
    exact (not_eof_or_unit hread).1 rfl
  simp only [parse_eq_ok_iff, saidBy_splitOn_iff]
  constructor
  · rintro ⟨lines, hall, h⟩
    exact ⟨_, ⟨lines, hall, rfl⟩, (hmakes lines hall).1 h⟩
  · rintro ⟨_, ⟨lines, hall, rfl⟩, h⟩
    exact ⟨lines, hall, (hmakes lines hall).2 h⟩

/-! ### Rows of accepted documents -/

namespace Assembly

variable {a : Assembly} {n : ℕ} {families : List Family}

/-- Every line of a document that is accepted is added to an assembly of its format. -/
theorem Makes.exists_adds {lines : List Line} (h : a.Makes n lines families) :
    ∀ line ∈ lines, ∃ (b c : Assembly) (m : ℕ) (completed : Option Family),
      b.Adds m line c completed := by
  induction lines generalizing a n families with
  | nil => exact nofun
  | cons line lines ih =>
    obtain ⟨b, completed, later, hline, hrest, -⟩ := makes_cons_iff.1 h
    exact List.forall_mem_cons.2 ⟨⟨a, b, _, completed, adds_of_addLine hline⟩, ih hrest⟩

end Assembly

theorem isNumber_of_readCount? {s : String} {n : UInt64} (h : readCount? s = some n) :
    IsNumber s.toList := by
  obtain ⟨l, hl, -⟩ := exists_literal_of_readCount? h
  unfold IsNumber
  rw [String.ofList_toList]
  exact ⟨_, readNumber?_of_read? hl⟩

/-- The value of a sample that fills in a part is a number. -/
theorem OpenFamily.Gains.isNumber {part : Part} {s : Sample} {f next : OpenFamily}
    (h : Gains part s f next) : IsNumber s.value.toList := by
  have hnumber : ∀ {x}, readNumber? s.value = some x → IsNumber s.value.toList := by
    intro x hx
    unfold IsNumber
    rw [String.ofList_toList]
    exact ⟨x, hx⟩
  have hentry : ∀ {labels e}, s.entry? part = some (labels, e) → IsNumber s.value.toList := by
    intro labels e hentry
    cases part with
    | value => cases hentry
    | total => cases hentry
    | quantile =>
      obtain ⟨_, -, h⟩ := Option.bind_eq_some_iff.1 hentry
      obtain ⟨_, -, h⟩ := Option.bind_eq_some_iff.1 h
      obtain ⟨x, hx, -⟩ := Option.bind_eq_some_iff.1 h
      exact hnumber hx
    | bucket =>
      obtain ⟨_, -, h⟩ := Option.bind_eq_some_iff.1 hentry
      obtain ⟨_, -, h⟩ := Option.bind_eq_some_iff.1 h
      obtain ⟨x, hx, -⟩ := Option.bind_eq_some_iff.1 h
      exact isNumber_of_readCount? hx
    | sum =>
      obtain ⟨x, hx, -⟩ := Option.bind_eq_some_iff.1 hentry
      exact hnumber hx
    | count =>
      obtain ⟨x, hx, -⟩ := Option.bind_eq_some_iff.1 hentry
      exact isNumber_of_readCount? hx
  cases h with
  | metric _ number _ => exact hnumber number
  | begins entry _ _ => exact hentry entry
  | continues entry _ _ _ _ => exact hentry entry

theorem OpenFamily.Grows.isNumber {format : Format} {f next : OpenFamily} {s : Sample}
    (h : f.Grows format (.sample s) next) : IsNumber s.value.toList := by
  cases h with
  | descriptor line_eq => cases ‹Descriptor› <;> cases line_eq
  | sample line_eq _ added =>
    cases line_eq
    exact (gains_of_addSample added).2.2.isNumber

theorem Assembly.Adds.isNumber {a b : Assembly} {n : ℕ} {s : Sample} {completed : Option Family}
    (h : a.Adds n (.sample s) b completed) : IsNumber s.value.toList := by
  cases h with
  | blank line_eq => cases line_eq
  | eof line_eq => cases line_eq
  | grows _ grows => exact grows.isNumber
  | begins _ _ grows => exact grows.isNumber

/-- The rows of a document that is accepted: samples and type lines with a layout, help lines, and
rows that say nothing. -/
inductive Prometheus.RowKind (row : List Char) : Prop
  | sample (l : SampleLayout) (text_eq : l.text = row) (number : IsNumber l.written.value)
  | type (l : TypeLayout) (text_eq : l.text = row)
  | help {name text : String} (read : readLine .prometheus row = .ok (.help name text))
  | nothing (nothing : SaysNothing row)

theorem Document.rowKind_of_parse {text : String} {d : Document}
    (h : parse .prometheus text = .ok d) {row : List Char}
    (hrow : row ∈ text.toList.splitOn '\n') : RowKind row := by
  obtain ⟨_, ⟨lines, hall, rfl⟩, hmakes⟩ := parse_eq_ok_iff_saidBy.1 h
  obtain ⟨line, hline, hread⟩ := exists_of_forall₂ hall.flip row hrow
  obtain ⟨hend, hunit⟩ := not_eof_or_unit hread
  cases line with
  | blank => exact .nothing (readLine_eq_blank_iff.1 hread)
  | help name text => exact .help hread
  | type name type =>
    obtain ⟨l, hl⟩ := exists_typeLayout hread
    exact .type l hl
  | sample s =>
    obtain ⟨b, c, m, completed, hadds⟩ :=
      hmakes.exists_adds (.sample s) (List.mem_filter.2 ⟨hline, rfl⟩)
    obtain ⟨l, hl, hnumber⟩ := exists_sampleLayout hread hadds.isNumber
    exact .sample l hl hnumber
  | unit name text => exact absurd rfl (hunit name text)
  | eof => exact absurd rfl hend

/-! ### Other layouts of a document -/

/-- Another layout of a text is decoded to the same document, or refused like it. -/
theorem Document.parse_eq_ok_iff_of_relaid {text text' : String} {d : Document}
    (h : Relaid (text.toList.splitOn '\n') (text'.toList.splitOn '\n')) :
    parse .prometheus text = .ok d ↔ parse .prometheus text' = .ok d := by
  simp only [parse_eq_ok_iff_saidBy, h.saidBy_iff]

/-- All samples and type lines of a document that is accepted have a layout, and every other layout
of the document is decoded to the same families. -/
theorem Document.parse_of_relaid {text : String} {d : Document}
    (h : parse .prometheus text = .ok d) :
    (∀ row ∈ text.toList.splitOn '\n', RowKind row) ∧
    ∀ text' : String, Relaid (text.toList.splitOn '\n') (text'.toList.splitOn '\n') →
      parse .prometheus text' = .ok d :=
  ⟨fun _ hrow => rowKind_of_parse h hrow, fun _ hrelaid => (parse_eq_ok_iff_of_relaid hrelaid).1 h⟩

/-- The type line of a gauge with the given blanks. -/
def upType (around : Gap) (between : Separation) : TypeLayout where
  lead := around
  afterHash := between
  name := ⟨between, "up".toList, rfl⟩
  keyword := ⟨between, "gauge".toList, List.cons_ne_nil _ _, List.all_eq_true.1 rfl⟩
  trail := around

/-- A sample of the gauge with the given blanks, and perhaps a comma behind its label. -/
def upSample (around : Gap) (between : Separation) (trailing : Option Gap) : SampleLayout where
  lead := around
  name := ⟨"up".toList, rfl⟩
  braces := some ⟨around, around,
    some ⟨⟨⟨"job".toList, rfl⟩, around, around, ⟨[], .nil⟩⟩, [], trailing⟩, around⟩
  value := ⟨between, ['0'], List.cons_ne_nil _ _, List.forall_mem_singleton.2 rfl⟩
  timestamp := some ⟨between, "7".toList, [], "7".toList, .inl rfl, List.cons_ne_nil _ _,
    List.all_eq_true.1 rfl, rfl⟩
  trail := around

def space : Separation := ⟨[' '], List.all_eq_true.1 rfl, List.cons_ne_nil _ _⟩

def spaceAndTab : Separation := ⟨[' ', '\t'], List.all_eq_true.1 rfl, List.cons_ne_nil _ _⟩

/-- A document with one sample of the gauge. -/
def upDocument : Document where
  families := [⟨"up", "", "", .gauge, [⟨[⟨"job", ""⟩], some 7, .gauge .zero⟩]⟩]

theorem Document.parse_of_relaid_up :
    parse .prometheus "# TYPE up gauge\nup\x7bjob=\"\"\x7d 0 7" = .ok upDocument ∧
      parse .prometheus
        "\t# \tTYPE \tup \tgauge\t\n#\n\tup\t\x7b\tjob\t=\t\"\"\t,\t\x7d \t0 \t7\t\n" =
          .ok upDocument := by
  have hparse : parse .prometheus "# TYPE up gauge\nup\x7bjob=\"\"\x7d 0 7" =
      .ok upDocument := by
    rw [parse_eq_runLines]
    rfl
  have hrows : "# TYPE up gauge\nup\x7bjob=\"\"\x7d 0 7".toList.splitOn '\n' =
      [(upType ⟨[], blanks_nil⟩ space).text, (upSample ⟨[], blanks_nil⟩ space none).text] :=
    rfl
  have htab : Blanks ['\t'] := List.all_eq_true.1 rfl
  have hrows' : List.splitOn '\n'
      "\t# \tTYPE \tup \tgauge\t\n#\n\tup\t\x7b\tjob\t=\t\"\"\t,\t\x7d \t0 \t7\t\n".toList =
      [(upType ⟨['\t'], htab⟩ spaceAndTab).text, ['#'],
        (upSample ⟨['\t'], htab⟩ spaceAndTab (some ⟨['\t'], htab⟩)).text, []] := rfl
  have hnumber : IsNumber ['0'] := ⟨.zero, by decide⟩
  have hcomment : SaysNothing ['#'] := by
    refine .inr ⟨[], [], blanks_nil, rfl, ?_⟩
    rintro ⟨b, _, _, _, -, hne, -, -, h⟩
    exact hne (List.append_eq_nil_iff.1 h.symm).1
  refine ⟨hparse, (parse_of_relaid hparse).2 _ ?_⟩
  rw [hrows, hrows']
  exact .type rfl (.insert hcomment (.sample hnumber rfl (.insert (.inl blanks_nil) .nil)))

end Exposition
