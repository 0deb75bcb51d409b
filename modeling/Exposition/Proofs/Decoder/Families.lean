import Exposition.Proofs.Assembly.Coherent
import Exposition.Proofs.Decoder.Chunking
import Exposition.Proofs.Decoder.Lines

/-!
# Families that are decoded

Whatever the bytes and however they arrive, what an invariant says of completed families holds of
all that a decoder hands out, also before an error (`of_mem_run`, `of_mem_results`): so they are
coherent (`coherent_of_mem_run`) and as they are read (`asRead_of_mem_results`).  In the Prometheus
format they have different names (`nodup_names_results`).
-/

namespace Exposition

namespace Assembly

variable {a b : Assembly} {n : ℕ} {bytes : List UInt8} {completed : Option Family}

theorem addBytes_eq_ok (h : a.addBytes n bytes = .ok (b, completed)) :
    ∃ line, a.format.Reads line ∧ a.Adds n line b completed := by
  obtain ⟨line, hline, hadd⟩ := addBytes_eq_ok_iff.1 h
  exact ⟨line, hline.reads, adds_of_addLine hadd⟩

/-- In the Prometheus format, the names of all families that a run completes differ from each other
and from those that were complete before. -/
theorem nodup_names_runLines {lines : List (List UInt8)} (hformat : a.format = .prometheus)
    (hnames : a.names.Nodup) :
    ((a.runLines n lines).1.map (·.name) ++ a.finished).Nodup := by
  have hbefore : a.finished.Nodup := (List.nodup_append.1 hnames).2.1
  induction lines generalizing a n with
  | nil =>
    unfold runLines
    split
    · exact hbefore
    · next hfinish =>
      have hname := name_of_finishCurrent hformat (finish_eq_ok hfinish)
      rw [← Option.toList_map, hname]
      exact hnames
  | cons bytes lines ih =>
    unfold runLines
    split
    · exact hbefore
    · next b completed hadd =>
      obtain ⟨line, -, hadds⟩ := addBytes_eq_ok hadd
      have hfinished := finished_of_adds hformat hadds
      have hb := hadds.nodup_names hnames
      have hrest := ih (n := n + 1) (hadds.format_eq.trans hformat) hb
        (List.nodup_append.1 hb).2.1
      rw [hfinished] at hrest
      -- the family that the line completes stands in front of the later ones, not behind them
      refine (List.Perm.nodup_iff ?_).1 hrest
      rw [List.map_append, ← Option.toList_map, List.append_assoc]
      exact List.perm_append_comm_assoc _ _ _

end Assembly

/-! ### Decoders -/

namespace Decoder

section Invariants

variable {format : Format} {P : OpenFamily → Prop} {Q : Family → Prop} {d : Decoder}

/-- Reading lines keeps what holds of the family being read. -/
theorem reading_advance (hinv : OpenFamily.Invariant format P Q)
    (h : d.assembly.Reading format P) :
    d.advance.1.assembly.Reading format P ∧ ∀ f, d.advance.2 = .family f → Q f := by
  have hline : ∀ {d : Decoder} {bytes : List UInt8} {b : Assembly} {completed : Option Family},
      d.assembly.Reading format P → d.readNext bytes = .ok (b, completed) →
        b.Reading format P ∧ ∀ f ∈ completed, Q f := by
    intro d bytes b completed hd hread
    obtain ⟨line, hline, hadds⟩ := Assembly.addBytes_eq_ok hread
    rw [hd.format_eq] at hline
    exact hd.adds hinv hline hadds
  fun_induction advance d with
  | case1 d bytes hn e hread => exact ⟨h, by rintro _ ⟨⟩⟩
  | case2 d bytes hn b family hread =>
    obtain ⟨hb, hfamily⟩ := hline h hread
    refine ⟨hb, ?_⟩
    rintro _ ⟨⟩
    exact hfamily family rfl
  | case3 d bytes hn b hread ih => exact ih (hline h hread).1
  | case4 d hn hclosed e hfinish => exact ⟨h, by rintro _ ⟨⟩⟩
  | case5 d hn hclosed b family hfinish =>
    obtain ⟨hb, hfamily⟩ := h.finishCurrent hinv (Assembly.finish_eq_ok hfinish)
    refine ⟨hb, ?_⟩
    rintro _ ⟨⟩
    exact hfamily family rfl
  | case6 d hn hclosed b hfinish =>
    exact ⟨(h.finishCurrent hinv (Assembly.finish_eq_ok hfinish)).1, by rintro _ ⟨⟩⟩
  | case7 d hn hclosed => exact ⟨h, by rintro _ ⟨⟩⟩

theorem reading_poll (hinv : OpenFamily.Invariant format P Q) (h : d.assembly.Reading format P) :
    d.poll.1.assembly.Reading format P ∧ ∀ f, d.poll.2 = .family f → Q f := by
  unfold poll
  split
  · exact ⟨h, nofun⟩
  · exact reading_advance hinv h

/-- Every family that is handed out in a run has the property that completing gives. -/
theorem of_mem_run {actions : List Action} (hinv : OpenFamily.Invariant format P Q)
    (h : d.assembly.Reading format P) : ∀ f, .family f ∈ (d.run actions).2 → Q f := by
  induction actions generalizing d with
  | nil => exact nofun
  | cons action actions ih =>
    cases action with
    | feed bytes => exact ih h
    | close => exact ih h
    | poll =>
      obtain ⟨hnext, hfamily⟩ := reading_poll hinv h
      intro f hf
      rcases List.mem_cons.1 hf with heq | hf
      · exact hfamily f heq.symm
      · exact ih hnext f hf

/-- Every family that is left has the property that completing gives. -/
theorem of_mem_results (hinv : OpenFamily.Invariant format P Q)
    (h : d.assembly.Reading format P) : ∀ f ∈ d.results.1, Q f := by
  fun_induction results d with
  | case1 d next family hpoll families error hrest ih =>
    obtain ⟨hnext, hfamily⟩ := reading_poll hinv h
    rw [hpoll] at hnext hfamily
    rw [hrest] at ih
    exact List.forall_mem_cons.2 ⟨hfamily family rfl, ih hnext⟩
  | case2 => exact List.forall_mem_nil Q
  | case3 => exact List.forall_mem_nil Q
  | case4 => exact List.forall_mem_nil Q

end Invariants

/-! ### Coherent families -/

/-- Whatever bytes a decoder is fed and whenever it is polled and closed, all families that it hands
out are coherent, also those before an error. -/
theorem coherent_of_mem_run (format : Format) (actions : List Action) (f : Family)
    (h : .family f ∈ ((new format).run actions).2) : f.Coherent format :=
  of_mem_run (OpenFamily.invariant_coherent format) (Assembly.reading_new format _) f h

/-- The next answer is the first of the families that are left. -/
theorem poll_of_results {d : Decoder} {f : Family} {families : List Family}
    {error : Option DecodeError} (h : d.results = (f :: families, error)) :
    d.poll.2 = .family f := by
  rw [results_eq] at h
  cases hpoll : d.poll with
  | mk next answer =>
    rw [hpoll] at h
    cases answer with
    | family g => cases h; rfl
    | needMore => cases h
    | finished => cases h
    | failed e => cases h

/-- A histogram, and behind it a family that is described twice. -/
def histogramBeforeError : List UInt8 :=
  encodeText ("# TYPE h histogram\nh_bucket\x7ble=\"0.5\"\x7d 1\n" ++
    "h_bucket\x7ble=\"+Inf\"\x7d 2 # \x7b\x7d 1\n# TYPE c counter\n# TYPE c gauge\n")

theorem coherent_of_mem_run_histogramBeforeError :
    let actions : List Action := [.feed histogramBeforeError, .close, .poll, .poll]
    ∃ f, .family f ∈ ((new .openMetrics).run actions).2 ∧ f.type = .histogram ∧
      f.Coherent .openMetrics := by
  intro actions
  obtain ⟨f, hresults, htype⟩ : ∃ f, ((new .openMetrics).feed histogramBeforeError).close.results =
      ([f], some (.atLine 5 (.invalid (.repeatedDescriptor .type)))) ∧ f.type = .histogram := by
    rw [results_eq_runLines rfl rfl]
    exact ⟨_, rfl, rfl⟩
  have hmem : .family f ∈ ((new .openMetrics).run actions).2 := by
    show Poll.family f ∈ _ :: _
    rw [poll_of_results hresults]
    exact List.mem_cons_self
  exact ⟨f, hmem, htype, coherent_of_mem_run .openMetrics actions f hmem⟩

variable (format : Format) (bytes : List UInt8)

theorem results_feed_close :
    ((new format).feed bytes).close.results =
      ({ format } : Assembly).runLines 0 (byteLines bytes) :=
  results_eq_runLines rfl rfl

theorem asRead_of_mem_results :
    ∀ f ∈ ((new format).feed bytes).close.results.1, f.AsRead format :=
  of_mem_results (OpenFamily.invariant_asRead format) (Assembly.reading_new format _)

theorem nodup_names_results (hformat : format = .prometheus) :
    (((new format).feed bytes).close.results.1.map (·.name)).Nodup := by
  have h : ((({ format } : Assembly).runLines 0 (byteLines bytes)).1.map Family.name ++ []).Nodup :=
    Assembly.nodup_names_runLines (a := { format }) hformat .nil
  rw [results_feed_close]
  exact (List.nodup_append.1 h).1

end Decoder

end Exposition
