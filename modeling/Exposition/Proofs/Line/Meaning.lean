import Exposition.Line.Read
import Exposition.Proofs.Steps

/-!
# What statements say

`Statement.Says` relates a statement to the line that consists of its pieces: names, labels, texts
and exemplars without their escapes, values as they stand, timestamps as the numbers that their
tokens denote.  A statement says something just if it is `Statement.Valid`: its escapes are escapes,
its keyword names a type and its numbers are numbers (`Statement.valid_iff`).  Reading a statement
gives what it says (`Statement.read_eq_ok_iff`).
-/

namespace Exposition

/-! ### Escapes -/

/-- An escaped form and the text that it stands for. -/
inductive Unescapes (quotes : Bool) : List Char → List Char → Prop
  | nil : Unescapes quotes [] []
  | plain {c : Char} {e s : List Char} (hc : c ≠ '\\') (h : Unescapes quotes e s) :
      Unescapes quotes (c :: e) (c :: s)
  | backslash {e s : List Char} (h : Unescapes quotes e s) :
      Unescapes quotes ('\\' :: '\\' :: e) ('\\' :: s)
  | lineFeed {e s : List Char} (h : Unescapes quotes e s) :
      Unescapes quotes ('\\' :: 'n' :: e) ('\n' :: s)
  | quote {e s : List Char} (hq : quotes = true) (h : Unescapes quotes e s) :
      Unescapes quotes ('\\' :: '"' :: e) ('"' :: s)

/-- A text in which every backslash belongs to an escape. -/
def OnlyEscapes (quotes : Bool) (escaped : List Char) : Prop := ∃ s, Unescapes quotes escaped s

theorem unescapeChar_eq_some_iff {quotes : Bool} {d c : Char} :
    unescapeChar quotes d = some c ↔
      d = '\\' ∧ c = '\\' ∨ d = 'n' ∧ c = '\n' ∨ quotes = true ∧ d = '"' ∧ c = '"' := by
  unfold unescapeChar
  by_cases hb : d = '\\'
  · subst hb
    simp [eq_comm]
  by_cases hn : d = 'n'
  · subst hn
    simp [eq_comm]
  by_cases hq : quotes = true ∧ d = '"'
  · obtain ⟨rfl, rfl⟩ := hq
    simp [eq_comm]
  · have hq' : (quotes && decide (d = '"')) = false := by simpa using hq
    rw [if_neg hb, if_neg hn, if_neg (by simpa using hq)]
    simp only [hb, hn, false_and, false_or, reduceCtorEq, false_iff]
    rintro ⟨h₁, h₂, -⟩
    exact hq ⟨h₁, h₂⟩

theorem unescape_of_unescapes {quotes : Bool} {e s : List Char} (h : Unescapes quotes e s) :
    unescape quotes e = .ok s := by
  induction h with
  | nil => rfl
  | plain hc _ ih => rw [unescape_cons hc, ih]; rfl
  | backslash _ ih => rw [unescape_backslash rfl, ih]; rfl
  | lineFeed _ ih => rw [unescape_backslash rfl, ih]; rfl
  | quote hq _ ih =>
    subst hq
    rw [unescape_backslash rfl, ih]
    rfl

theorem unescapes_of_unescape {quotes : Bool} {e s : List Char} (h : unescape quotes e = .ok s) :
    Unescapes quotes e s := by
  fun_induction unescape quotes e generalizing s with
  | case1 => cases h; exact .nil
  | case2 => cases h
  | case3 c hc => cases h; exact .plain hc .nil
  | case4 d rest c hc ih =>
    obtain ⟨t, ht, rfl⟩ := map_eq_ok h
    rcases unescapeChar_eq_some_iff.1 hc with ⟨rfl, rfl⟩ | ⟨rfl, rfl⟩ | ⟨hq, rfl, rfl⟩
    · exact .backslash (ih ht)
    · exact .lineFeed (ih ht)
    · exact .quote hq (ih ht)
  | case5 => cases h
  | case6 c d rest hc ih =>
    obtain ⟨t, ht, rfl⟩ := map_eq_ok h
    exact .plain hc (ih ht)

theorem unescapeString_eq_ok_iff {quotes : Bool} {e s : String} :
    unescapeString quotes e = .ok s ↔ Unescapes quotes e.toList s.toList := by
  rw [unescapeString_eq]
  constructor
  · intro h
    obtain ⟨u, hu, rfl⟩ := map_eq_ok h
    rw [String.toList_ofList]
    exact unescapes_of_unescape hu
  · intro h
    rw [unescape_of_unescapes h]
    exact congrArg Except.ok s.ofList_toList

theorem readEscaped_eq_ok_iff {quotes : Bool} {e : List Char} {s : String} :
    readEscaped quotes e = .ok s ↔ Unescapes quotes e s.toList := by
  have hiff : unescapeString quotes (String.ofList e) = .ok s ↔ Unescapes quotes e s.toList := by
    rw [unescapeString_eq_ok_iff, String.toList_ofList]
  rw [readEscaped, ← hiff]
  constructor
  · intro h
    split at h
    · next u hu => rwa [Except.ok.inj h] at hu
    · cases h
  · intro h
    rw [h]

/-! ### Parts of a statement -/

def WrittenName.Says : WrittenName → String → Prop
  | bare text, s => s.toList = text
  | quoted escaped, s => Unescapes true escaped s.toList

structure WrittenLabel.Says (w : WrittenLabel) (l : Label) : Prop where
  name : w.name.Says l.name
  value : Unescapes true w.value l.value.toList

/-- The text behind the name of a help or unit line, empty where the line ends with the name. -/
def SaysText (quotes : Bool) (written : Option (List Char)) (s : String) : Prop :=
  match written with
  | some escaped => Unescapes quotes escaped s.toList
  | none => s = ""

/-- A token for a number. -/
def IsNumber (token : List Char) : Prop := ∃ x, readNumber? (String.ofList token) = some x

/-- A token for a finite number of seconds. -/
def SaysSeconds (token : List Char) (seconds : Binary64) : Prop :=
  readNumber? (String.ofList token) = some seconds ∧ seconds.isFinite = true

/-- A token for a timestamp: finite seconds in OpenMetrics, integral milliseconds otherwise. -/
def Format.SaysTimestamp (format : Format) (token : List Char) (t : Int64) : Prop :=
  match format with
  | .openMetrics => ∃ seconds, SaysSeconds token seconds ∧ t = millisOfSeconds seconds
  | .prometheus => readInt64? token = some t

structure WrittenExemplar.Says (w : WrittenExemplar) (e : Exemplar) : Prop where
  labels : List.Forall₂ WrittenLabel.Says w.labels e.labels
  value : readNumber? (String.ofList w.value) = some e.value
  timestamp : Option.Rel SaysSeconds w.timestamp e.timestamp

structure WrittenSample.Says (format : Format) (w : WrittenSample) (s : Sample) : Prop where
  name : w.name.Says s.name
  labels : List.Forall₂ WrittenLabel.Says w.labels s.labels
  value : s.value.toList = w.value
  timestamp : Option.Rel format.SaysTimestamp w.timestamp s.timestamp
  exemplar : Option.Rel WrittenExemplar.Says w.exemplar s.exemplar

/-- A statement and the line that consists of its pieces. -/
inductive Statement.Says (format : Format) : Statement → Line → Prop
  | help {w : WrittenName} {n : String} {text : Option (List Char)} {s : String}
      (hname : w.Says n) (htext : SaysText format.quotesInHelp text s) :
      Says format (.help w text) (.help n s)
  | type {w : WrittenName} {n : String} {keyword : List Char} {t : MetricType}
      (hname : w.Says n) (hkeyword : keyword = (format.typeKeyword t).toList) :
      Says format (.type w keyword) (.type n t)
  | unit {w : WrittenName} {n : String} {text : Option (List Char)} {s : String}
      (hname : w.Says n) (htext : SaysText true text s) : Says format (.unit w text) (.unit n s)
  | sample {w : WrittenSample} {s : Sample} (h : w.Says format s) :
      Says format (.sample w) (.sample s)
  | eof : Says format .eof .eof
  | blank : Says format .blank .blank

/-! ### Statements that say something -/

def WrittenName.Valid : WrittenName → Prop
  | bare _ => True
  | quoted escaped => OnlyEscapes true escaped

structure WrittenLabel.Valid (w : WrittenLabel) : Prop where
  name : w.name.Valid
  value : OnlyEscapes true w.value

structure WrittenExemplar.Valid (w : WrittenExemplar) : Prop where
  labels : ∀ l ∈ w.labels, l.Valid
  value : IsNumber w.value
  timestamp : ∀ token ∈ w.timestamp, ∃ seconds, SaysSeconds token seconds

structure WrittenSample.Valid (format : Format) (w : WrittenSample) : Prop where
  name : w.name.Valid
  labels : ∀ l ∈ w.labels, l.Valid
  timestamp : ∀ token ∈ w.timestamp, ∃ t, format.SaysTimestamp token t
  exemplar : ∀ e ∈ w.exemplar, e.Valid

/-- The escapes, keywords and numbers of a statement are what they have to be. -/
def Statement.Valid (format : Format) : Statement → Prop
  | help w text => w.Valid ∧ ∀ escaped ∈ text, OnlyEscapes format.quotesInHelp escaped
  | type w keyword => w.Valid ∧ ∃ t, keyword = (format.typeKeyword t).toList
  | unit w text => w.Valid ∧ ∀ escaped ∈ text, OnlyEscapes true escaped
  | sample w => w.Valid format
  | eof => True
  | blank => True

theorem exists_forall₂_iff {α β : Type} {R : α → β → Prop} {xs : List α} :
    (∃ ys, List.Forall₂ R xs ys) ↔ ∀ x ∈ xs, ∃ y, R x y := by
  induction xs with
  | nil => exact ⟨fun _ _ hx => absurd hx List.not_mem_nil, fun _ => ⟨[], .nil⟩⟩
  | cons x xs ih =>
    rw [List.forall_mem_cons, ← ih]
    constructor
    · rintro ⟨_, h⟩
      obtain ⟨y, ys, hy, hys, -⟩ := List.forall₂_cons_left_iff.1 h
      exact ⟨⟨y, hy⟩, ⟨ys, hys⟩⟩
    · rintro ⟨⟨y, hy⟩, ⟨ys, hys⟩⟩
      exact ⟨y :: ys, .cons hy hys⟩

theorem exists_optionRel_iff {α β : Type} {R : α → β → Prop} {o : Option α} :
    (∃ p, Option.Rel R o p) ↔ ∀ x ∈ o, ∃ y, R x y := by
  cases o with
  | none => exact ⟨fun _ x hx => absurd hx (Option.not_mem_none x), fun _ => ⟨none, .none⟩⟩
  | some x =>
    constructor
    · rintro ⟨_, ⟨h⟩⟩ _ ⟨⟩
      exact ⟨_, h⟩
    · intro h
      obtain ⟨y, hy⟩ := h x rfl
      exact ⟨some y, .some hy⟩

theorem exists_unescapes_iff {quotes : Bool} {escaped : List Char} :
    (∃ s : String, Unescapes quotes escaped s.toList) ↔ OnlyEscapes quotes escaped := by
  constructor
  · rintro ⟨s, hs⟩
    exact ⟨s.toList, hs⟩
  · rintro ⟨s, hs⟩
    exact ⟨String.ofList s, by rwa [String.toList_ofList]⟩

theorem WrittenName.valid_iff {w : WrittenName} : w.Valid ↔ ∃ s, w.Says s := by
  cases w with
  | bare text => exact ⟨fun _ => ⟨String.ofList text, String.toList_ofList⟩, fun _ => trivial⟩
  | quoted escaped => exact exists_unescapes_iff.symm

theorem WrittenLabel.valid_iff {w : WrittenLabel} : w.Valid ↔ ∃ l, w.Says l := by
  constructor
  · intro h
    obtain ⟨name, hname⟩ := WrittenName.valid_iff.1 h.name
    obtain ⟨value, hvalue⟩ := exists_unescapes_iff.2 h.value
    exact ⟨⟨name, value⟩, hname, hvalue⟩
  · rintro ⟨l, h⟩
    exact ⟨WrittenName.valid_iff.2 ⟨_, h.name⟩, ⟨_, h.value⟩⟩

theorem exists_saysLabels_iff {ws : List WrittenLabel} :
    (∃ ls, List.Forall₂ WrittenLabel.Says ws ls) ↔ ∀ w ∈ ws, w.Valid := by
  simp only [exists_forall₂_iff, WrittenLabel.valid_iff]

theorem exists_saysText_iff {quotes : Bool} {text : Option (List Char)} :
    (∃ s, SaysText quotes text s) ↔ ∀ escaped ∈ text, OnlyEscapes quotes escaped := by
  cases text with
  | none => exact ⟨fun _ x hx => absurd hx (Option.not_mem_none x), fun _ => ⟨"", rfl⟩⟩
  | some escaped =>
    simp only [SaysText, exists_unescapes_iff, Option.mem_def, Option.some.injEq, forall_eq']

theorem WrittenExemplar.valid_iff {w : WrittenExemplar} : w.Valid ↔ ∃ e, w.Says e := by
  constructor
  · intro h
    obtain ⟨labels, hlabels⟩ := exists_saysLabels_iff.2 h.labels
    obtain ⟨value, hvalue⟩ := h.value
    obtain ⟨timestamp, htimestamp⟩ := exists_optionRel_iff.2 h.timestamp
    exact ⟨⟨labels, value, timestamp⟩, hlabels, hvalue, htimestamp⟩
  · rintro ⟨e, h⟩
    exact ⟨exists_saysLabels_iff.1 ⟨_, h.labels⟩, ⟨_, h.value⟩,
      exists_optionRel_iff.1 ⟨_, h.timestamp⟩⟩

theorem WrittenSample.valid_iff {format : Format} {w : WrittenSample} :
    w.Valid format ↔ ∃ s, w.Says format s := by
  constructor
  · intro h
    obtain ⟨name, hname⟩ := WrittenName.valid_iff.1 h.name
    obtain ⟨labels, hlabels⟩ := exists_saysLabels_iff.2 h.labels
    obtain ⟨timestamp, htimestamp⟩ := exists_optionRel_iff.2 h.timestamp
    have hexemplars : ∀ e ∈ w.exemplar, ∃ x, e.Says x :=
      fun e he => WrittenExemplar.valid_iff.1 (h.exemplar e he)
    obtain ⟨exemplar, hexemplar⟩ := exists_optionRel_iff.2 hexemplars
    exact ⟨⟨name, labels, String.ofList w.value, timestamp, exemplar⟩, hname, hlabels,
      String.toList_ofList, htimestamp, hexemplar⟩
  · rintro ⟨s, h⟩
    refine ⟨WrittenName.valid_iff.2 ⟨_, h.name⟩, exists_saysLabels_iff.1 ⟨_, h.labels⟩,
      exists_optionRel_iff.1 ⟨_, h.timestamp⟩, fun e he => ?_⟩
    exact WrittenExemplar.valid_iff.2 (exists_optionRel_iff.1 ⟨_, h.exemplar⟩ e he)

/-- The statements that say something are the valid ones. -/
theorem Statement.valid_iff {format : Format} {statement : Statement} :
    statement.Valid format ↔ ∃ line, statement.Says format line := by
  cases statement with
  | help w text =>
    simp only [Valid, WrittenName.valid_iff, ← exists_saysText_iff]
    constructor
    · rintro ⟨⟨n, hname⟩, s, htext⟩
      exact ⟨_, .help hname htext⟩
    · rintro ⟨_, h⟩
      cases h with
      | help hname htext => exact ⟨⟨_, hname⟩, ⟨_, htext⟩⟩
  | type w keyword =>
    simp only [Valid, WrittenName.valid_iff]
    constructor
    · rintro ⟨⟨n, hname⟩, t, hkeyword⟩
      exact ⟨_, .type hname hkeyword⟩
    · rintro ⟨_, h⟩
      cases h with
      | type hname hkeyword => exact ⟨⟨_, hname⟩, ⟨_, hkeyword⟩⟩
  | unit w text =>
    simp only [Valid, WrittenName.valid_iff, ← exists_saysText_iff]
    constructor
    · rintro ⟨⟨n, hname⟩, s, htext⟩
      exact ⟨_, .unit hname htext⟩
    · rintro ⟨_, h⟩
      cases h with
      | unit hname htext => exact ⟨⟨_, hname⟩, ⟨_, htext⟩⟩
  | sample w =>
    simp only [Valid, WrittenSample.valid_iff]
    constructor
    · rintro ⟨s, h⟩
      exact ⟨_, .sample h⟩
    · rintro ⟨_, h⟩
      cases h with
      | sample h => exact ⟨_, h⟩
  | eof => exact ⟨fun _ => ⟨_, .eof⟩, fun _ => trivial⟩
  | blank => exact ⟨fun _ => ⟨_, .blank⟩, fun _ => trivial⟩

/-! ### Reading gives what is said -/

theorem WrittenName.read_eq_ok_iff {w : WrittenName} {s : String} :
    w.read = .ok s ↔ w.Says s := by
  cases w with
  | bare text =>
    constructor
    · intro h
      cases h
      exact String.toList_ofList
    · rintro rfl
      exact congrArg Except.ok s.ofList_toList
  | quoted escaped => exact readEscaped_eq_ok_iff

theorem WrittenLabel.read_eq_ok_iff {w : WrittenLabel} {l : Label} :
    w.read = .ok l ↔ w.Says l := by
  unfold WrittenLabel.read
  constructor
  · intro h
    obtain ⟨name, hname, h⟩ := bind_eq_ok h
    obtain ⟨value, hvalue, h⟩ := bind_eq_ok h
    cases h
    exact ⟨WrittenName.read_eq_ok_iff.1 hname, readEscaped_eq_ok_iff.1 hvalue⟩
  · intro h
    rw [WrittenName.read_eq_ok_iff.2 h.name, readEscaped_eq_ok_iff.2 h.value]
    rfl

theorem mapM_readLabel_eq_ok_iff {ws : List WrittenLabel} {ls : List Label} :
    ws.mapM WrittenLabel.read = .ok ls ↔ List.Forall₂ WrittenLabel.Says ws ls := by
  simp only [mapM_eq_ok_iff, WrittenLabel.read_eq_ok_iff]

theorem readText_eq_ok_iff {quotes : Bool} {text : Option (List Char)} {s : String} :
    readText quotes text = .ok s ↔ SaysText quotes text s := by
  cases text with
  | none => exact ⟨fun h => (Except.ok.inj h).symm, fun h => congrArg Except.ok h.symm⟩
  | some escaped => exact readEscaped_eq_ok_iff

theorem Format.readType_eq_ok_iff {format : Format} {keyword : List Char} {t : MetricType} :
    format.readType (String.ofList keyword) = .ok t ↔ keyword = (format.typeKeyword t).toList := by
  have hlist : ∀ s : String, String.ofList keyword = s ↔ keyword = s.toList := by
    intro s
    exact ⟨fun h => by rw [← h, String.toList_ofList], fun h => by rw [h, String.ofList_toList]⟩
  rw [← hlist]
  constructor
  · intro h
    cases format <;> simp only [Format.readType] at h <;> split at h <;> cases h <;>
      first | assumption | contradiction
  · intro h
    rw [h]
    cases format <;> cases t <;> rfl

theorem readSeconds_eq_ok_iff {token : List Char} {seconds : Binary64} :
    readSeconds (String.ofList token) = .ok seconds ↔ SaysSeconds token seconds := by
  unfold readSeconds SaysSeconds
  constructor
  · intro h
    split at h
    · next x hx =>
      split at h
      · next hfinite => cases h; exact ⟨hx, hfinite⟩
      · cases h
    · cases h
  · rintro ⟨hx, hfinite⟩
    simp only [hx, hfinite, if_true]

theorem Format.readTimestamp_eq_ok_iff {format : Format} {token : List Char} {t : Int64} :
    format.readTimestamp (String.ofList token) = .ok t ↔ format.SaysTimestamp token t := by
  cases format with
  | openMetrics =>
    show (readSeconds (String.ofList token)).map millisOfSeconds = .ok t ↔
      ∃ seconds, SaysSeconds token seconds ∧ t = millisOfSeconds seconds
    constructor
    · intro h
      obtain ⟨seconds, hx, rfl⟩ := map_eq_ok h
      exact ⟨seconds, readSeconds_eq_ok_iff.1 hx, rfl⟩
    · rintro ⟨seconds, hx, rfl⟩
      rw [readSeconds_eq_ok_iff.2 hx]
      rfl
  | prometheus =>
    unfold Format.readTimestamp Format.SaysTimestamp
    dsimp only
    rw [String.toList_ofList]
    constructor
    · intro h
      split at h
      · next x hx => cases h; exact hx
      · cases h
    · intro h
      rw [h]

theorem WrittenExemplar.read_eq_ok_iff {w : WrittenExemplar} {e : Exemplar} :
    w.read = .ok e ↔ w.Says e := by
  unfold WrittenExemplar.read
  constructor
  · intro h
    obtain ⟨labels, hlabels, h⟩ := bind_eq_ok h
    dsimp only at h
    cases hvalue : readNumber? (String.ofList w.value) with
    | none => rw [hvalue] at h; cases h
    | some value =>
      rw [hvalue] at h
      obtain ⟨_, hv, h⟩ := bind_eq_ok h
      cases hv
      obtain ⟨timestamp, htimestamp, h⟩ := bind_eq_ok h
      cases h
      simp only [optionMapM_eq_ok_iff, readSeconds_eq_ok_iff] at htimestamp
      exact ⟨mapM_readLabel_eq_ok_iff.1 hlabels, hvalue, htimestamp⟩
  · intro h
    have htimestamp : (w.timestamp.mapM fun t => readSeconds (String.ofList t)) =
        .ok e.timestamp := by
      simpa only [optionMapM_eq_ok_iff, readSeconds_eq_ok_iff] using h.timestamp
    simp only [mapM_readLabel_eq_ok_iff.2 h.labels, h.value, htimestamp]
    rfl

theorem WrittenSample.read_eq_ok_iff {format : Format} {w : WrittenSample} {s : Sample} :
    w.read format = .ok s ↔ w.Says format s := by
  unfold WrittenSample.read
  constructor
  · intro h
    obtain ⟨name, hname, h⟩ := bind_eq_ok h
    obtain ⟨labels, hlabels, h⟩ := bind_eq_ok h
    obtain ⟨timestamp, htimestamp, h⟩ := bind_eq_ok h
    obtain ⟨exemplar, hexemplar, h⟩ := bind_eq_ok h
    cases h
    simp only [optionMapM_eq_ok_iff, Format.readTimestamp_eq_ok_iff] at htimestamp
    simp only [optionMapM_eq_ok_iff, WrittenExemplar.read_eq_ok_iff] at hexemplar
    exact ⟨WrittenName.read_eq_ok_iff.1 hname, mapM_readLabel_eq_ok_iff.1 hlabels,
      String.toList_ofList, htimestamp, hexemplar⟩
  · intro h
    have htimestamp : (w.timestamp.mapM fun t => format.readTimestamp (String.ofList t)) =
        .ok s.timestamp := by
      simpa only [optionMapM_eq_ok_iff, Format.readTimestamp_eq_ok_iff] using h.timestamp
    have hexemplar : w.exemplar.mapM WrittenExemplar.read = .ok s.exemplar := by
      simpa only [optionMapM_eq_ok_iff, WrittenExemplar.read_eq_ok_iff] using h.exemplar
    simp only [WrittenName.read_eq_ok_iff.2 h.name, mapM_readLabel_eq_ok_iff.2 h.labels,
      htimestamp, hexemplar]
    rw [← h.value]
    simp only [String.ofList_toList]
    rfl

/-- Reading a statement gives the line that it says. -/
theorem Statement.read_eq_ok_iff {format : Format} {statement : Statement} {line : Line} :
    statement.read format = .ok line ↔ statement.Says format line := by
  constructor
  · intro h
    cases statement with
    | help w text =>
      obtain ⟨n, hname, h⟩ := bind_eq_ok h
      obtain ⟨s, htext, h⟩ := bind_eq_ok h
      cases h
      exact .help (WrittenName.read_eq_ok_iff.1 hname) (readText_eq_ok_iff.1 htext)
    | type w keyword =>
      obtain ⟨n, hname, h⟩ := bind_eq_ok h
      obtain ⟨t, hkeyword, h⟩ := bind_eq_ok h
      cases h
      exact .type (WrittenName.read_eq_ok_iff.1 hname) (Format.readType_eq_ok_iff.1 hkeyword)
    | unit w text =>
      obtain ⟨n, hname, h⟩ := bind_eq_ok h
      obtain ⟨s, htext, h⟩ := bind_eq_ok h
      cases h
      exact .unit (WrittenName.read_eq_ok_iff.1 hname) (readText_eq_ok_iff.1 htext)
    | sample w =>
      obtain ⟨s, hs, rfl⟩ := map_eq_ok h
      exact .sample (WrittenSample.read_eq_ok_iff.1 hs)
    | eof => cases h; exact .eof
    | blank => cases h; exact .blank
  · intro h
    cases h with
    | help hname htext =>
      simp only [Statement.read, WrittenName.read_eq_ok_iff.2 hname, readText_eq_ok_iff.2 htext]
      rfl
    | type hname hkeyword =>
      simp only [Statement.read, WrittenName.read_eq_ok_iff.2 hname,
        Format.readType_eq_ok_iff.2 hkeyword]
      rfl
    | unit hname htext =>
      simp only [Statement.read, WrittenName.read_eq_ok_iff.2 hname, readText_eq_ok_iff.2 htext]
      rfl
    | sample h =>
      simp only [Statement.read, WrittenSample.read_eq_ok_iff.2 h]
      rfl
    | eof => rfl
    | blank => rfl

/-! ### Reading lines -/

theorem readStatement_eq_ok_iff {ρ : Type} [DecidableEq ρ] {grammar : Grammar ρ Statement}
    {all : List ρ} {title : ρ → String} {text : List Char} {statement : Statement} :
    readStatement grammar all title text = .ok statement ↔ grammar.read text = some statement := by
  unfold readStatement
  cases grammar.read text with
  | none => exact ⟨nofun, nofun⟩
  | some x =>
    constructor
    · intro h
      cases h
      rfl
    · intro h
      cases h
      rfl

theorem readLine_eq_ok_iff {format : Format} {text : List Char} {line : Line} :
    readLine format text = .ok line ↔
      ∃ statement, format.readStatement text = .ok statement ∧ statement.Says format line := by
  simp only [← Statement.read_eq_ok_iff]
  unfold readLine
  cases format.readStatement text with
  | error fault => exact ⟨nofun, fun ⟨_, h, _⟩ => nomatch h⟩
  | ok statement =>
    constructor
    · intro h
      dsimp only at h
      split at h
      · next x hx => cases h; exact ⟨statement, rfl, hx⟩
      · cases h
    · rintro ⟨_, ⟨⟩, h⟩
      dsimp only
      rw [h]

/-- An OpenMetrics line is read as what its statement says. -/
theorem readLine_openMetrics_eq_ok_iff {text : List Char} {line : Line} :
    readLine .openMetrics text = .ok line ↔
      ∃ statement, OpenMetrics.line.read text = some statement ∧
        statement.Says .openMetrics line := by
  rw [readLine_eq_ok_iff]
  exact exists_congr fun statement => and_congr_left' readStatement_eq_ok_iff

/-- A Prometheus line is read as what its statement says. -/
theorem readLine_prometheus_eq_ok_iff {text : List Char} {line : Line} :
    readLine .prometheus text = .ok line ↔
      ∃ statement, Prometheus.line.read text = some statement ∧
        statement.Says .prometheus line := by
  rw [readLine_eq_ok_iff]
  exact exists_congr fun statement => and_congr_left' readStatement_eq_ok_iff

end Exposition
