import Exposition.Proofs.Assembly.Document
import Exposition.Proofs.Assembly.Invariant
import Exposition.Proofs.Decoder.Polling
import Exposition.Proofs.Line.RoundTrip
import Exposition.Proofs.Line.Text
import Exposition.Proofs.Text.LineFeeds

/-!
# Decoding line by line

What a decoder with all of its input hands out is what its assembly makes of the lines of the input
(`results_eq_runLines`), by a recursion over these lines.  A document is accepted just if all of
them are read and the assembly takes what is read to the end (`Document.parse_eq_ok_iff`); of
written lines, this is what is shown of them (`Document.parse_writeLines_eq_ok_iff`).
-/

namespace Exposition

/-! ### Lines of bytes -/

/-- Puts a byte in front of the first line. -/
def consLine (b : UInt8) : List (List UInt8) → List (List UInt8)
  | [] => [[b]]
  | line :: rest => (b :: line) :: rest

/-- The lines that bytes are made of: all that end in a line feed, and what is left if it is not
empty. -/
def byteLines : List UInt8 → List (List UInt8)
  | [] => []
  | b :: rest => if b = lineFeed then [] :: byteLines rest else consLine b (byteLines rest)

theorem byteLines_append {line : List UInt8} (h : lineFeed ∉ line) (rest : List UInt8) :
    byteLines (line ++ lineFeed :: rest) = line :: byteLines rest := by
  induction line with
  | nil => rw [List.nil_append, byteLines, if_pos rfl]
  | cons b line ih =>
    have hb : b ≠ lineFeed := fun hb => h (by rw [hb]; exact List.mem_cons_self)
    rw [List.cons_append, byteLines, if_neg hb, ih fun hm => h (List.mem_cons_of_mem _ hm)]
    rfl

theorem byteLines_of_cutLine?_eq_none {bytes : List UInt8} (hne : bytes ≠ [])
    (h : cutLine? bytes = none) : byteLines bytes = [bytes] := by
  induction bytes with
  | nil => exact absurd rfl hne
  | cons b rest ih =>
    rw [cutLine?] at h
    split at h
    · cases h
    · next hb =>
      rw [byteLines, if_neg hb]
      cases rest with
      | nil => rfl
      | cons c rest => rw [ih (List.cons_ne_nil _ _) (Option.map_eq_none_iff.1 h)]; rfl

theorem byteLines_of_nextLine? {d : Decoder} {bytes : List UInt8}
    (h : d.nextLine? = some bytes) :
    byteLines d.unread = bytes :: byteLines (d.unread.drop (bytes.length + 1)) := by
  unfold Decoder.nextLine? at h
  split at h
  · next rest hcut =>
    cases h
    obtain ⟨hb, hl⟩ := cutLine?_eq_some_iff.1 hcut
    rw [hb, byteLines_append hl, List.drop_append, List.drop_of_length_le (Nat.le_succ _),
      Nat.add_sub_cancel_left]
    rfl
  · next hcut =>
    split at h
    · next hc =>
      cases h
      have hne : d.unread ≠ [] :=
        Decoder.start_lt_iff.1 (of_decide_eq_true (Bool.and_eq_true_iff.1 hc).2)
      rw [byteLines_of_cutLine?_eq_none hne hcut, List.drop_of_length_le (Nat.le_succ _)]
      rfl
    · cases h

/-! ### Runs over lines -/

namespace Assembly

/-- The step for the bytes of the line of the given number. -/
def addBytes (a : Assembly) (number : ℕ) (bytes : List UInt8) : Except DecodeError Step :=
  match decodeText? bytes with
  | none => .error (.notUtf8 number)
  | some text => a.addText number text.toList

/-- What lines behind the line of the given number and the end of the document complete, and the
error at which this stops. -/
def runLines (a : Assembly) (number : ℕ) : List (List UInt8) → List Family × Option DecodeError
  | [] =>
    match a.finish number with
    | .error e => ([], some e)
    | .ok (_, completed) => (completed.toList, none)
  | bytes :: rest =>
    match a.addBytes (number + 1) bytes with
    | .error e => ([], some e)
    | .ok (b, completed) =>
      let later := b.runLines (number + 1) rest
      (completed.toList ++ later.1, later.2)

end Assembly

/-- A closed decoder hands out what its assembly makes of the lines that are left. -/
theorem Decoder.results_eq_runLines {d : Decoder} (hdone : d.done = false)
    (hclosed : d.closed = true) :
    d.results = d.assembly.runLines d.line (byteLines d.unread) := by
  generalize hlength : d.unread.length = length
  induction length using Nat.strong_induction_on generalizing d with
  | _ length ih =>
    cases hnext : d.nextLine? with
    | none =>
      have hunread : d.unread = [] := by
        unfold nextLine? at hnext
        split at hnext
        · cases hnext
        · by_contra hne
          rw [hclosed, decide_eq_true (start_lt_iff.2 hne)] at hnext
          cases hnext
      rw [results_of_no_line hdone hclosed hnext, hunread]
      rfl
    | some bytes =>
      have hrest : ∀ b : Assembly, (d.afterLine b bytes).results =
          b.runLines (d.line + 1) (byteLines (d.unread.drop (bytes.length + 1))) := by
        intro b
        rw [← unread_afterLine d b bytes]
        exact ih _ (by rw [← hlength]; exact length_unread_skip hnext) hdone hclosed rfl
      rw [results_of_nextLine? hdone hnext, byteLines_of_nextLine? hnext]
      simp only [hrest]
      rfl

/-- A document is accepted just if a decoder with its text comes to no error. -/
theorem Document.parse_eq_ok_iff_results_eq {format : Format} {text : String} {d : Document} :
    parse format text = .ok d ↔
      ((Decoder.new format).feed (encodeText text)).close.results = (d.families, none) := by
  unfold parse Decoder.ofText
  obtain ⟨families⟩ := d
  cases ((Decoder.new format).feed (encodeText text)).close.results with
  | mk completed error => cases error <;> simp

/-- Decoding a document is a run over its lines. -/
theorem Document.parse_eq_runLines (format : Format) (text : String) :
    parse format text =
      match ({ format } : Assembly).runLines 0 (byteLines (encodeText text)) with
      | (families, none) => .ok ⟨families⟩
      | (_, some e) => .error e := by
  unfold parse
  rw [Decoder.results_eq_runLines rfl rfl]
  rfl

/-! ### Lines that are read -/

/-- Whether the bytes of a line are read as the line. -/
def Format.ReadsBytes (format : Format) (bytes : List UInt8) (line : Line) : Prop :=
  ∃ text, decodeText? bytes = some text ∧ readLine format text.toList = .ok line

theorem Format.ReadsBytes.reads {format : Format} {bytes : List UInt8} {line : Line}
    (h : format.ReadsBytes bytes line) : format.Reads line := by
  obtain ⟨text, -, hread⟩ := h
  exact ⟨text.toList, hread⟩

/-- Bytes are read as one line only. -/
theorem Format.rightUnique_readsBytes (format : Format) : Relator.RightUnique format.ReadsBytes := by
  rintro bytes line line' ⟨text, htext, hread⟩ ⟨text', htext', hread'⟩
  cases htext.symm.trans htext'
  exact Except.ok.inj (hread.symm.trans hread')

theorem Format.reads_of_forall₂ {format : Format} {lines : List (List UInt8)} {read : List Line}
    (h : List.Forall₂ format.ReadsBytes lines read) : ∀ line ∈ read, format.Reads line := by
  intro line hline
  obtain ⟨bytes, -, hbytes⟩ := exists_of_forall₂ h line hline
  exact hbytes.reads

namespace Assembly

variable {a b : Assembly} {n : ℕ} {families : List Family} {completed : Option Family}

/-- The bytes of a line are read as a line, which is then added. -/
theorem addBytes_eq_ok_iff {bytes : List UInt8} :
    a.addBytes n bytes = .ok (b, completed) ↔
      ∃ line, a.format.ReadsBytes bytes line ∧ a.addLine n line = .ok (b, completed) := by
  unfold addBytes addText addLine Format.ReadsBytes
  cases decodeText? bytes with
  | none => simp
  | some text =>
    cases a.eofLine with
    | some eofLine => simp [invalid]
    | none =>
      cases hread : readLine a.format text.toList with
      | error fault => simp [hread]
      | ok line =>
        cases hadd : a.add n line with
        | error fault => simp [hread, hadd]
        | ok step => simp [hread, hadd]

/-- A run without an error is one over the lines that are read. -/
theorem runLines_eq_ok_iff {lines : List (List UInt8)} :
    a.runLines n lines = (families, none) ↔
      ∃ read, List.Forall₂ a.format.ReadsBytes lines read ∧ a.Makes n read families := by
  induction lines generalizing a n families with
  | nil =>
    constructor
    · intro h
      unfold runLines at h
      split at h
      · cases h
      · next c last hfinish =>
        cases h
        exact ⟨[], .nil, a, [], c, last, rfl, hfinish, rfl⟩
    · rintro ⟨_, ⟨⟩, _, _, c, last, ⟨⟩, hfinish, rfl⟩
      rw [List.length_nil, Nat.add_zero] at hfinish
      rw [runLines, hfinish]
      rfl
  | cons bytes lines ih =>
    unfold runLines
    constructor
    · intro h
      split at h
      · cases h
      · next k completed hadd =>
        obtain ⟨line, hline, hadd⟩ := addBytes_eq_ok_iff.1 hadd
        cases hrest : k.runLines (n + 1) lines with
        | mk later error =>
          rw [hrest] at h
          cases h
          obtain ⟨read, hread, hmakes⟩ := ih.1 hrest
          rw [format_of_addLine hadd] at hread
          exact ⟨line :: read, .cons hline hread,
            makes_cons_iff.2 ⟨k, completed, later, hadd, hmakes, rfl⟩⟩
    · rintro ⟨_, hall, hmakes⟩
      obtain ⟨line, read, hline, hread, rfl⟩ := List.forall₂_cons_left_iff.1 hall
      obtain ⟨k, completed, later, hadd, hrest, rfl⟩ := makes_cons_iff.1 hmakes
      rw [← format_of_addLine hadd] at hread
      rw [addBytes_eq_ok_iff.2 ⟨line, hline, hadd⟩]
      dsimp only
      rw [ih.2 ⟨read, hread, hrest⟩]

end Assembly

/-- A document is accepted just if its lines are read and the assembly takes them to the end. -/
theorem Document.parse_eq_ok_iff {format : Format} {text : String} {d : Document} :
    parse format text = .ok d ↔
      ∃ lines, List.Forall₂ format.ReadsBytes (byteLines (encodeText text)) lines ∧
        ({ format } : Assembly).Makes 0 lines d.families := by
  refine Iff.trans ?_ (Assembly.runLines_eq_ok_iff (a := { format }))
  rw [parse_eq_runLines]
  obtain ⟨families⟩ := d
  cases ({ format } : Assembly).runLines 0 (byteLines (encodeText text)) with
  | mk completed error => cases error <;> simp

/-! ### Written lines -/

theorem byteLines_writeLines {format : Format} {lines : List Line}
    (h : ∀ line ∈ lines, line.Writable format) :
    byteLines (encodeText (writeLines format lines)) =
      lines.map fun line => encodeText (writeLine format line) := by
  induction lines with
  | nil => rfl
  | cons line lines ih =>
    have hline : lineFeed ∉ encodeText (writeLine format line) := fun hm =>
      lineFeed_not_mem_writeLine (h line List.mem_cons_self) (lineFeed_mem_encodeText.1 hm)
    have hcons : encodeText (writeLines format (line :: lines)) =
        encodeText (writeLine format line) ++
          lineFeed :: encodeText (writeLines format lines) := by
      rw [writeLines, List.map_cons, String.join_cons, encodeText_append, encodeText_append,
        List.append_assoc]
      rfl
    rw [hcons, byteLines_append hline, ih fun k hk => h k (List.mem_cons_of_mem _ hk)]
    rfl

theorem readsBytes_writeLine_iff {format : Format} {line read : Line} (h : line.Writable format) :
    format.ReadsBytes (encodeText (writeLine format line)) read ↔
      line.FiniteExemplar ∧ line.shown format = read := by
  unfold Format.ReadsBytes
  simp only [decodeText?_encodeText, Option.some.injEq, exists_eq_left',
    readLine_writeLine_eq_ok_iff h]
  rw [eq_comm (a := read)]

theorem forall₂_readsBytes_iff {format : Format} {lines read : List Line}
    (h : ∀ line ∈ lines, line.Writable format) :
    List.Forall₂ format.ReadsBytes (byteLines (encodeText (writeLines format lines))) read ↔
      (∀ line ∈ lines, line.FiniteExemplar) ∧ lines.map (Line.shown format) = read := by
  rw [byteLines_writeLines h, List.forall₂_map_left_iff,
    forall₂_congr fun line hline l => readsBytes_writeLine_iff (h line hline),
    List.forall₂_and_left]
  refine and_congr_right' ?_
  rw [← List.forall₂_map_left_iff (R := Eq), List.forall₂_eq_eq_eq]

/-- The text of lines is accepted just if their exemplars are at finite times and the assembly takes
the lines as they are shown. -/
theorem Document.parse_writeLines_eq_ok_iff {format : Format} {lines : List Line} {d : Document}
    (h : ∀ line ∈ lines, line.Writable format) :
    parse format (writeLines format lines) = .ok d ↔
      (∀ line ∈ lines, line.FiniteExemplar) ∧
        ({ format } : Assembly).Makes 0 (lines.map (Line.shown format)) d.families := by
  simp only [parse_eq_ok_iff, forall₂_readsBytes_iff h, and_assoc, exists_and_left,
    exists_eq_left']

end Exposition
