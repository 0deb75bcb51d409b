import Exposition.Encode.Write
import Exposition.Proofs.Steps
import Exposition.Proofs.Text.LineFeeds

/-!
# What a sink holds after a document

A document that is written without an error leaves in the sink, behind what it held before, the
text of all lines of its families and of the line that ends it (`Document.write_eq_ok`); every
family has then passed its check.
-/

namespace Exposition

/-- All lines of a document with the given families. -/
def documentLines (format : Format) (families : List Family) : List Line :=
  families.flatMap (Family.lines format) ++ (if format.requiresEof then [.eof] else [])

/-- The lines of a document begin with those of its first family. -/
theorem documentLines_cons (format : Format) (f : Family) (families : List Family) :
    documentLines format (f :: families) = f.lines format ++ documentLines format families := by
  unfold documentLines
  rw [List.flatMap_cons, List.append_assoc]

/-! ### Texts of lines -/

theorem writeLines_append (format : Format) (first second : List Line) :
    writeLines format (first ++ second) = writeLines format first ++ writeLines format second := by
  unfold writeLines
  rw [List.map_append, String.join_append]

theorem writeLines_flatMap (format : Format) (families : List Family) :
    writeLines format (families.flatMap (Family.lines format)) =
      String.join (families.map fun f => writeLines format (f.lines format)) := by
  induction families with
  | nil => rfl
  | cons f families ih =>
    rw [List.flatMap_cons, writeLines_append, ih, List.map_cons, String.join_cons]

/-- The bytes of families in a format. -/
def bytesOf (format : Format) (families : List Family) : List UInt8 :=
  encodeText (String.join (families.map fun f => writeLines format (f.lines format)))

theorem bytesOf_cons (format : Format) (f : Family) (families : List Family) :
    bytesOf format (f :: families) =
      encodeText (writeLines format (f.lines format)) ++ bytesOf format families := by
  unfold bytesOf
  rw [List.map_cons, String.join_cons, encodeText_append]

/-- The bytes of a document are those of its families and of the line that ends it. -/
theorem encodeText_documentLines (format : Format) (families : List Family) :
    encodeText (writeLines format (documentLines format families)) =
      bytesOf format families ++ if format.requiresEof then eofBytes else [] := by
  unfold documentLines
  rw [writeLines_append, writeLines_flatMap, encodeText_append]
  cases format with
  | prometheus => rfl
  | openMetrics => rfl

/-! ### Rendering -/

/-- Whether a family can be written in a format. -/
def Family.renders (format : Format) (f : Family) : Bool := (f.render format).isOk

theorem Family.renders_iff {format : Format} {f : Family} :
    f.renders format = true ↔ f.check format = .ok () := by
  unfold renders render
  cases f.check format with
  | ok _ => exact ⟨fun _ => rfl, fun _ => rfl⟩
  | error e => exact ⟨nofun, nofun⟩

theorem Family.render_eq_ok {format : Format} {f : Family} {text : String}
    (h : f.render format = .ok text) :
    f.check format = .ok () ∧ text = writeLines format (f.lines format) := by
  unfold render at h
  split at h
  · cases h
  · next hcheck =>
    cases h
    exact ⟨hcheck, rfl⟩

theorem Family.render_of_check {format : Format} {f : Family} (h : f.check format = .ok ()) :
    f.render format = .ok (writeLines format (f.lines format)) := by
  rw [render, h]

theorem mapM_render_eq_ok {format : Format} {families : List Family} {texts : List String}
    (h : families.mapM (Family.render format) = .ok texts) :
    (∀ f ∈ families, f.check format = .ok ()) ∧
      texts = families.map fun f => writeLines format (f.lines format) := by
  induction families generalizing texts with
  | nil =>
    cases h
    exact ⟨fun f hf => absurd hf List.not_mem_nil, rfl⟩
  | cons f families ih =>
    rw [List.mapM_cons] at h
    obtain ⟨text, hf, h⟩ := bind_eq_ok h
    obtain ⟨rest, hrest, h⟩ := bind_eq_ok h
    cases h
    obtain ⟨hcheck, rfl⟩ := Family.render_eq_ok hf
    obtain ⟨hchecks, rfl⟩ := ih hrest
    refine ⟨?_, rfl⟩
    intro g hg
    rcases List.mem_cons.1 hg with rfl | hg
    · exact hcheck
    · exact hchecks g hg

theorem mapM_render_of_check {format : Format} {families : List Family}
    (h : ∀ f ∈ families, f.check format = .ok ()) :
    families.mapM (Family.render format) =
      .ok (families.map fun f => writeLines format (f.lines format)) :=
  mapM_eq_ok fun f hf => Family.render_of_check (h f hf)

/-! ### Writing -/

variable {σ : Type} {sink : Sink σ} {s t : σ} {n : ℕ}

/-- Bytes that a sink did not refuse are behind those that it held before. -/
theorem taken_of_not_refused {bytes : List UInt8} (h : (sink.send s bytes).refusal = none) :
    sink.taken (sink.send s bytes).state = sink.taken s ++ bytes := by
  rw [Sink.taken_send, Sink.written_send h, List.take_length]

theorem writeRendered_eq_ok {text : String} (h : writeRendered sink s text = (.ok n, t)) :
    n = (encodeText text).length ∧ sink.taken t = sink.taken s ++ encodeText text := by
  unfold writeRendered at h
  dsimp only at h
  split at h
  · next hr =>
    cases h
    exact ⟨Sink.written_send hr, taken_of_not_refused hr⟩
  · cases h
  · cases h

theorem writeEof_eq_ok (h : writeEof sink s = (.ok n, t)) :
    n = eofBytes.length ∧ sink.taken t = sink.taken s ++ eofBytes := by
  unfold writeEof at h
  dsimp only at h
  split at h
  · next hr =>
    cases h
    exact ⟨Sink.written_send hr, taken_of_not_refused hr⟩
  · cases h
  · cases h

theorem writeAllRendered_eq_ok {written : ℕ} {texts : List String}
    (h : writeAllRendered sink s written texts = (.ok n, t)) :
    n = written + (encodeText (String.join texts)).length ∧
      sink.taken t = sink.taken s ++ encodeText (String.join texts) := by
  induction texts generalizing s written with
  | nil =>
    cases h
    exact ⟨rfl, (List.append_nil _).symm⟩
  | cons text texts ih =>
    unfold writeAllRendered at h
    split at h
    · next k next hk =>
      obtain ⟨rfl, hnext⟩ := writeRendered_eq_ok hk
      obtain ⟨hn, ht⟩ := ih h
      rw [String.join_cons, encodeText_append, List.length_append]
      refine ⟨by omega, ?_⟩
      rw [ht, hnext, List.append_assoc]
    · cases h

/-- A document that is written without an error has families that pass their checks, and the sink
holds the text of all its lines behind what it held before. -/
theorem Document.write_eq_ok {format : Format} {d : Document}
    (h : d.write sink s format = (.ok n, t)) :
    (∀ f ∈ d.families, f.check format = .ok ()) ∧
      n = (encodeText (writeLines format (documentLines format d.families))).length ∧
      sink.taken t =
        sink.taken s ++ encodeText (writeLines format (documentLines format d.families)) := by
  rw [encodeText_documentLines, List.length_append]
  unfold write at h
  split at h
  · cases h
  · next texts hrender =>
    obtain ⟨hchecks, rfl⟩ := mapM_render_eq_ok hrender
    refine ⟨hchecks, ?_⟩
    split at h
    · cases h
    · next written next hall =>
      obtain ⟨hwritten, hnext⟩ := writeAllRendered_eq_ok hall
      split at h
      · next hrequired =>
        rw [if_pos hrequired]
        split at h
        · next k last heof =>
          cases h
          obtain ⟨hk, hlast⟩ := writeEof_eq_ok heof
          refine ⟨?_, ?_⟩
          · rw [hk, hwritten, Nat.zero_add]
            rfl
          · rw [hlast, hnext, List.append_assoc]
            rfl
        · cases h
      · next hrequired =>
        cases h
        rw [if_neg hrequired, List.append_nil]
        refine ⟨?_, hnext⟩
        rw [hwritten, Nat.zero_add]
        rfl

/-! ### Writing to memory -/

theorem settle_unlimited (taken bytes : List UInt8) :
    Sink.unlimited.settle taken bytes = (.took bytes.length, taken ++ bytes) := by
  rw [Sink.settle]
  rfl

theorem send_unlimited (taken bytes : List UInt8) :
    Sink.unlimited.send taken bytes = ⟨taken ++ bytes, bytes.length, none⟩ := by
  unfold Sink.send
  cases bytes with
  | nil =>
    rw [Sink.sendFrom, List.append_nil]
    rfl
  | cons b bytes =>
    rw [Sink.sendFrom, if_neg (by simp)]
    split
    · next n next h =>
      rw [settle_unlimited] at h
      cases h
      rw [dif_neg (by simp), Sink.sendFrom, if_pos (by simp), Nat.zero_add]
    · next h =>
      rw [settle_unlimited] at h
      cases h

theorem writeRendered_unlimited (taken : List UInt8) (text : String) :
    writeRendered Sink.unlimited taken text =
      (.ok (encodeText text).length, taken ++ encodeText text) := by
  unfold writeRendered
  rw [send_unlimited]

theorem writeEof_unlimited (taken : List UInt8) :
    writeEof Sink.unlimited taken = (.ok eofBytes.length, taken ++ eofBytes) := by
  unfold writeEof
  rw [send_unlimited]

theorem writeAllRendered_unlimited (taken : List UInt8) (written : ℕ) (texts : List String) :
    writeAllRendered Sink.unlimited taken written texts =
      (.ok (written + (encodeText (String.join texts)).length),
        taken ++ encodeText (String.join texts)) := by
  induction texts generalizing taken written with
  | nil => rw [writeAllRendered, String.join_nil, encodeText_empty, List.append_nil]; rfl
  | cons text texts ih =>
    rw [writeAllRendered, writeRendered_unlimited]
    dsimp only
    rw [ih, String.join_cons, encodeText_append, List.length_append, Nat.add_assoc,
      List.append_assoc]

/-- In memory, a document is written if its families pass their checks. -/
theorem Document.write_unlimited (format : Format) {d : Document}
    (h : ∀ f ∈ d.families, f.check format = .ok ()) (taken : List UInt8) :
    d.write Sink.unlimited taken format =
      (.ok (encodeText (writeLines format (documentLines format d.families))).length,
        taken ++ encodeText (writeLines format (documentLines format d.families))) := by
  rw [encodeText_documentLines, List.length_append, ← List.append_assoc]
  unfold write
  rw [mapM_render_of_check h]
  dsimp only
  rw [writeAllRendered_unlimited, Nat.zero_add]
  dsimp only
  cases format with
  | openMetrics =>
    rw [writeEof_unlimited]
    rfl
  | prometheus =>
    exact Prod.ext rfl (List.append_nil _).symm

end Exposition
