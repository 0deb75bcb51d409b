import Exposition.Proofs.Line.Meaning
import Exposition.Proofs.Line.OpenMetrics
import Exposition.Proofs.Line.Prometheus
import Exposition.Proofs.Text.LineFeeds

/-!
# Escaped texts

A text is escaped in one way only.  What can stand in an escaped text is said without reading it: no
line feed, and no *bare quote*, that is, a quote behind an even number of backslashes
(`HasBareQuote`).  Of the texts that can be read, these are just the escaped ones
(`escapeString_eq_iff`), and between quotes both grammars read all of an escaped text and stop at the
quote behind it.
-/

namespace Exposition

variable {quotes : Bool} {c d : Char} {s t : List Char}

/-! ### Bare quotes -/

/-- How many backslashes a text ends in. -/
def trailingBackslashes (s : List Char) : ℕ := (s.reverse.takeWhile (· == '\\')).length

/-- A text with a quote that no backslash takes along: an even number of them stands in front. -/
def HasBareQuote (s : List Char) : Prop :=
  ∃ before after, s = before ++ '"' :: after ∧ trailingBackslashes before % 2 = 0

theorem trailingBackslashes_of_all (h : ∀ d ∈ s, d = '\\') : trailingBackslashes s = s.length := by
  have hall : ∀ d ∈ s.reverse, (d == '\\') = true := by
    intro d hd
    rw [h d (List.mem_reverse.1 hd)]
    rfl
  rw [trailingBackslashes, List.takeWhile_eq_self_iff.2 hall, List.length_reverse]

/-- A character in front counts only if nothing but backslashes follows. -/
theorem trailingBackslashes_cons_of_not_all (h : ¬ ∀ d ∈ s, d = '\\') :
    trailingBackslashes (c :: s) = trailingBackslashes s := by
  have hlt : (s.reverse.takeWhile (· == '\\')).length ≠ s.reverse.length := by
    intro hlen
    apply h
    intro d hd
    have hself := (List.takeWhile_prefix (· == '\\')).eq_of_length hlen
    have hmem : d ∈ s.reverse.takeWhile (· == '\\') := by
      rw [hself]
      exact List.mem_reverse.2 hd
    simpa using List.mem_takeWhile_imp hmem
  unfold trailingBackslashes
  rw [List.reverse_cons, List.takeWhile_append, if_neg hlt]

theorem trailingBackslashes_cons (h : c ≠ '\\') :
    trailingBackslashes (c :: s) = trailingBackslashes s := by
  by_cases hall : ∀ d ∈ s, d = '\\'
  · have hself : s.reverse.takeWhile (· == '\\') = s.reverse :=
      List.takeWhile_eq_self_iff.2 fun d hd => by simp [hall d (List.mem_reverse.1 hd)]
    unfold trailingBackslashes
    rw [List.reverse_cons, List.takeWhile_append, if_pos (by rw [hself]), hself,
      List.takeWhile_cons_of_neg (by simpa using h), List.append_nil]
  · exact trailingBackslashes_cons_of_not_all hall

/-- An escape in front does not change whether the number of backslashes is even: it has two of
them, or its second character keeps the first apart from the rest. -/
theorem trailingBackslashes_escape (d : Char) (s : List Char) :
    trailingBackslashes ('\\' :: d :: s) % 2 = trailingBackslashes s % 2 := by
  by_cases hd : d = '\\'
  · subst hd
    by_cases hall : ∀ d ∈ s, d = '\\'
    · have hmore : ∀ d ∈ '\\' :: '\\' :: s, d = '\\' :=
        List.forall_mem_cons.2 ⟨rfl, List.forall_mem_cons.2 ⟨rfl, hall⟩⟩
      rw [trailingBackslashes_of_all hall, trailingBackslashes_of_all hmore]
      simp only [List.length_cons]
      omega
    · have hmore : ¬ ∀ d ∈ '\\' :: s, d = '\\' := fun h =>
        hall fun d hd => h d (List.mem_cons_of_mem _ hd)
      rw [trailingBackslashes_cons_of_not_all hmore, trailingBackslashes_cons_of_not_all hall]
  · have hmore : ¬ ∀ e ∈ d :: s, e = '\\' := fun h => hd (h d List.mem_cons_self)
    rw [trailingBackslashes_cons_of_not_all hmore, trailingBackslashes_cons hd]

theorem not_hasBareQuote_nil : ¬ HasBareQuote [] := by
  rintro ⟨before, after, h, -⟩
  exact List.append_ne_nil_of_right_ne_nil before (List.cons_ne_nil _ _) h.symm

theorem hasBareQuote_cons_iff (h : c ≠ '\\') : HasBareQuote (c :: s) ↔ c = '"' ∨ HasBareQuote s := by
  constructor
  · rintro ⟨before, after, heq, heven⟩
    cases before with
    | nil =>
      cases heq
      exact .inl rfl
    | cons b before =>
      cases heq
      rw [trailingBackslashes_cons h] at heven
      exact .inr ⟨before, after, rfl, heven⟩
  · rintro (rfl | ⟨before, after, rfl, heven⟩)
    · exact ⟨[], s, rfl, rfl⟩
    · exact ⟨c :: before, after, rfl, by rwa [trailingBackslashes_cons h]⟩

/-- The character behind a backslash is no bare quote, and what follows is not affected. -/
theorem hasBareQuote_escape_iff : HasBareQuote ('\\' :: d :: s) ↔ HasBareQuote s := by
  constructor
  · rintro ⟨before, after, heq, heven⟩
    rcases before with _ | ⟨b, _ | ⟨e, before⟩⟩
    · cases heq
    · cases heq
      exact absurd heven (by decide)
    · cases heq
      rw [trailingBackslashes_escape] at heven
      exact ⟨before, after, rfl, heven⟩
  · rintro ⟨before, after, rfl, heven⟩
    exact ⟨'\\' :: d :: before, after, rfl, by rwa [trailingBackslashes_escape]⟩

/-! ### Escaping what was read -/

theorem escape_cons (quotes : Bool) (c : Char) (s : List Char) :
    escape quotes (c :: s) = escapeChar quotes c ++ escape quotes s := rfl

/-- Where quotes are escaped, no bare quote is left. -/
theorem not_hasBareQuote_escape (s : List Char) : ¬ HasBareQuote (escape true s) := by
  induction s with
  | nil => exact not_hasBareQuote_nil
  | cons c s ih =>
    rw [escape_cons]
    by_cases hc : needsEscape true c = true
    · have hpair : ∃ d, escapeChar true c = ['\\', d] := by
        simp only [needsEscape, Bool.true_and, Bool.or_eq_true, beq_iff_eq] at hc
        rcases hc with (rfl | rfl) | rfl
        · exact ⟨'\\', rfl⟩
        · exact ⟨'n', rfl⟩
        · exact ⟨'"', rfl⟩
      obtain ⟨d, hd⟩ := hpair
      rw [hd]
      exact fun h => ih (hasBareQuote_escape_iff.1 h)
    · rw [Bool.not_eq_true] at hc
      rw [escapeChar_of_not_needsEscape hc]
      simp only [needsEscape, Bool.true_and, Bool.or_eq_false_iff, beq_eq_false_iff_ne] at hc
      intro h
      rcases (hasBareQuote_cons_iff hc.1.1).1 h with hq | h
      · exact hc.2 hq
      · exact ih h

/-- A text that begins with the escape of a character is an escaped form if what follows is. -/
theorem escape_cons_of_pair (hc : escapeChar quotes c = ['\\', d])
    (ih : '\n' ∉ t → (quotes = true → ¬ HasBareQuote t) → escape quotes s = t)
    (hfeed : '\n' ∉ '\\' :: d :: t) (hquote : quotes = true → ¬ HasBareQuote ('\\' :: d :: t)) :
    escape quotes (c :: s) = '\\' :: d :: t := by
  have hrest : '\n' ∉ t := fun hm => hfeed (List.mem_cons_of_mem _ (List.mem_cons_of_mem _ hm))
  rw [escape_cons, hc, ih hrest fun hq h => hquote hq (hasBareQuote_escape_iff.2 h)]
  rfl

/-- A text that was read is the escaped form of what was read, if nothing in it stands as it is that
is written in another form. -/
theorem escape_of_unescapes (h : Unescapes quotes t s) (hfeed : '\n' ∉ t)
    (hquote : quotes = true → ¬ HasBareQuote t) : escape quotes s = t := by
  induction h with
  | nil => rfl
  | @plain c e s hc _ ih =>
    obtain ⟨hn, hrest⟩ := not_or.1 fun hor => hfeed (List.mem_cons.2 hor)
    have hbare : quotes = true → c ≠ '"' ∧ ¬ HasBareQuote e := fun hq =>
      not_or.1 fun hor => hquote hq ((hasBareQuote_cons_iff hc).2 hor)
    have hplain : needsEscape quotes c = false := by
      cases quotes with
      | false => simp [needsEscape, hc, Ne.symm hn]
      | true => simp [needsEscape, hc, Ne.symm hn, (hbare rfl).1]
    rw [escape_cons, escapeChar_of_not_needsEscape hplain, ih hrest fun hq => (hbare hq).2]
    rfl
  | backslash _ ih => exact escape_cons_of_pair rfl ih hfeed hquote
  | lineFeed _ ih => exact escape_cons_of_pair rfl ih hfeed hquote
  | quote hq _ ih =>
    subst hq
    exact escape_cons_of_pair rfl ih hfeed hquote

/-! ### Strings -/

theorem unescapeString_escapeString (quotes : Bool) (s : String) :
    unescapeString quotes (escapeString quotes s) = .ok s := by
  rw [unescapeString_eq_ok_iff, toList_escapeString]
  exact unescapes_of_unescape (unescape_escape quotes s.toList)

/-- Escaping is one-to-one, onto the texts that can be read and have neither a line feed nor, where
quotes are escaped, a bare quote.  Between quotes both grammars read an escaped text up to the quote
that was written behind it, whatever follows. -/
theorem escapeString_eq_iff (quotes : Bool) (s : String) :
    unescapeString quotes (escapeString quotes s) = .ok s ∧
    (∀ t : String, escapeString quotes s = t ↔
      unescapeString quotes t = .ok s ∧ '\n' ∉ t.toList ∧
        (quotes = true → ¬ HasBareQuote t.toList)) ∧
    ∀ rest : List Char,
      OpenMetrics.escaped.run ((escapeString true s).toList ++ '"' :: rest) =
        some ((escapeString true s).toList, '"' :: rest) ∧
      Prometheus.escaped.run ((escapeString true s).toList ++ '"' :: rest) =
        some ((escapeString true s).toList, '"' :: rest) := by
  refine ⟨unescapeString_escapeString quotes s, fun t => ⟨?_, ?_⟩, fun rest => ?_⟩
  · rintro rfl
    refine ⟨unescapeString_escapeString quotes s, ?_, ?_⟩
    · rw [toList_escapeString]
      exact lineFeed_not_mem_escape quotes s.toList
    · rintro rfl
      rw [toList_escapeString]
      exact not_hasBareQuote_escape s.toList
  · rintro ⟨hread, hfeed, hquote⟩
    apply String.toList_injective
    rw [toList_escapeString]
    exact escape_of_unescapes (unescapeString_eq_ok_iff.1 hread) hfeed hquote
  · rw [toList_escapeString]
    exact ⟨Grammar.run_escaped _ s.toList rest, Grammar.run_escaped _ s.toList rest⟩

/-- Two backslashes before a quote do not escape it, and three do. -/
example :
    escapeString true "\\\"" = "\\\\\\\"" ∧
      (unescapeString true "\\\\\"").toOption = some "\\\"" ∧
      escapeString true "\\\"" ≠ "\\\\\"" := by
  decide +kernel

end Exposition
