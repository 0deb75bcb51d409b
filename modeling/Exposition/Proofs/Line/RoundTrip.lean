import Exposition.Proofs.Line.Meaning
import Exposition.Proofs.Line.OpenMetrics
import Exposition.Proofs.Line.Prometheus

/-!
# Written lines read back

In both formats, a line that can be written is read from its text, but for what the format does not
show of it, and refused if it has an exemplar at no finite time (`readLine_writeLine_eq_ok_iff`).
-/

namespace Exposition

theorem readStatement_of_read {ρ : Type} [DecidableEq ρ] {grammar : Grammar ρ Statement}
    {all : List ρ} {title : ρ → String} {text : List Char} {statement : Statement}
    (h : grammar.read text = some statement) :
    readStatement grammar all title text = .ok statement := by
  rw [readStatement, h]

theorem readStatement_writeLine {format : Format} {line : Line} (h : line.Writable format) :
    format.readStatement (writeLine format line).toList = .ok (.ofLine format line) := by
  cases format with
  | openMetrics => exact readStatement_of_read (OpenMetrics.read_writeLine h)
  | prometheus => exact readStatement_of_read (Prometheus.read_writeLine h)

theorem readLine_writeLine {format : Format} {line : Line} (h : line.Writable format)
    (hfinite : line.FiniteExemplar) :
    readLine format (writeLine format line).toList = .ok (line.shown format) := by
  unfold readLine
  rw [readStatement_writeLine h]
  dsimp only
  rw [Statement.read_ofLine hfinite]

/-! ### Times that are refused -/

theorem finiteExemplar_of_says {format : Format} {line read : Line}
    (h : (Statement.ofLine format line).Says format read) : line.FiniteExemplar := by
  cases line with
  | sample s =>
    cases h with
    | sample hsample =>
    intro e he x hx
    obtain ⟨_, hwritten⟩ := exists_optionRel_iff.1 ⟨_, hsample.exemplar⟩ (.ofExemplar e)
      (Option.mem_map_of_mem _ he)
    obtain ⟨_, hnumber, hfinite⟩ := exists_optionRel_iff.1 ⟨_, hwritten.timestamp⟩
      x.sampleText.toList (Option.mem_map_of_mem _ hx)
    rw [String.ofList_toList, readNumber?_sampleText] at hnumber
    cases hnumber
    rwa [Binary64.isFinite_dropZeroSign] at hfinite
  | _ => trivial

/-- A written line is read just if its exemplar is at a finite time, and then as it is shown. -/
theorem readLine_writeLine_eq_ok_iff {format : Format} {line read : Line}
    (h : line.Writable format) :
    readLine format (writeLine format line).toList = .ok read ↔
      line.FiniteExemplar ∧ read = line.shown format := by
  constructor
  · intro hread
    obtain ⟨statement, hstatement, hsaid⟩ := readLine_eq_ok_iff.1 hread
    rw [readStatement_writeLine h] at hstatement
    cases hstatement
    have hfinite := finiteExemplar_of_says hsaid
    rw [readLine_writeLine h hfinite] at hread
    cases hread
    exact ⟨hfinite, rfl⟩
  · rintro ⟨hfinite, rfl⟩
    exact readLine_writeLine h hfinite

end Exposition
