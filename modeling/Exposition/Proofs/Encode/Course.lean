import Exposition.Proofs.Encode.Accounting

/-!
# What a sink did with a family

A sink answers every offer of bytes with a reaction, and a write goes on until nothing is left to
offer or the sink refuses.  `Sink.Course` says this for the reactions alone, one after the other.  A
write has just one course (`Sink.Course.unique`), which the loop of `Sink.sendFrom` follows
(`Sink.exists_course_sendFrom`), and its result can be read off the reactions: the counts add up to
the bytes written, and the last reaction tells success from refusal (`resultOf`).  Interruptions add
nothing to the one and are never the other.  Main statement: `Family.write_exact`.
-/

namespace Exposition

variable {σ τ : Type} {sink : Sink σ} {s t u : σ} {bytes : List UInt8} {reactions : List Reaction}

/-! ### Reactions -/

/-- How many bytes were taken. -/
def Reaction.count : Reaction → ℕ
  | took n => n
  | interrupted => 0
  | failed _ => 0

/-- Why nothing more is offered after a reaction, unless something is. -/
def Reaction.refusal? : Reaction → Option Refusal
  | took 0 => some .tookNothing
  | took (_ + 1) => none
  | interrupted => none
  | failed fault => some (.failed fault)

def countTaken : List Reaction → ℕ
  | [] => 0
  | r :: reactions => r.count + countTaken reactions

/-- The refusal in which reactions end, if they end in one. -/
def ending? (reactions : List Reaction) : Option Refusal :=
  reactions.getLast?.bind Reaction.refusal?

/-- The reactions that are no interruptions. -/
def uninterrupted (reactions : List Reaction) : List Reaction :=
  reactions.filter (· ≠ .interrupted)

/-- A reaction that refuses nothing does not change how the others end. -/
theorem ending?_cons {r : Reaction} (h : r.refusal? = none) :
    ending? (r :: reactions) = ending? reactions := by
  cases reactions with
  | nil => exact h
  | cons q reactions => rfl

theorem Reaction.refusal?_took {n : ℕ} (h : n ≠ 0) : (took n).refusal? = none := by
  cases n with
  | zero => exact absurd rfl h
  | succ n => rfl

/-- Interruptions take nothing. -/
theorem countTaken_uninterrupted (reactions : List Reaction) :
    countTaken (uninterrupted reactions) = countTaken reactions := by
  induction reactions with
  | nil => rfl
  | cons r reactions ih =>
    by_cases hr : r = .interrupted
    · subst hr
      rw [uninterrupted, List.filter_cons_of_neg (by simp), countTaken]
      exact ih.trans (Nat.zero_add _).symm
    · rw [uninterrupted, List.filter_cons_of_pos (by simpa using hr), countTaken, countTaken]
      exact congrArg (r.count + ·) ih

/-! ### Courses -/

namespace Sink

/-- The reactions of a sink to some bytes, each to an offer of what is left of them, and the state in
which they leave it. -/
inductive Course (sink : Sink σ) : σ → List UInt8 → List Reaction → σ → Prop
  | done (s : σ) : Course sink s [] [] s
  | took {s next t : σ} {bytes : List UInt8} {n : ℕ} {reactions : List Reaction}
      (hne : bytes ≠ []) (hn : n ≠ 0) (hoffer : sink.offer s bytes = (.took n, next))
      (hrest : Course sink next (bytes.drop n) reactions t) :
      Course sink s bytes (.took n :: reactions) t
  | interrupted {s next t : σ} {bytes : List UInt8} {reactions : List Reaction}
      (hne : bytes ≠ []) (hoffer : sink.offer s bytes = (.interrupted, next))
      (hrest : Course sink next bytes reactions t) :
      Course sink s bytes (.interrupted :: reactions) t
  | refused {s t : σ} {bytes : List UInt8} {r : Reaction} (hne : bytes ≠ [])
      (hr : r.refusal?.isSome = true) (hoffer : sink.offer s bytes = (r, t)) :
      Course sink s bytes [r] t

/-- A write has one course. -/
theorem Course.unique {first second : List Reaction} (h : sink.Course s bytes first t)
    (h' : sink.Course s bytes second u) : first = second ∧ t = u := by
  induction h generalizing second u with
  | done s =>
    cases h' with
    | done => exact ⟨rfl, rfl⟩
    | took hne => exact absurd rfl hne
    | interrupted hne => exact absurd rfl hne
    | refused hne => exact absurd rfl hne
  | took hne hn hoffer _ ih =>
    cases h' with
    | done => exact absurd rfl hne
    | took _ _ hoffer' hrest' =>
      cases hoffer.symm.trans hoffer'
      obtain ⟨rfl, rfl⟩ := ih hrest'
      exact ⟨rfl, rfl⟩
    | interrupted _ hoffer' => cases hoffer.symm.trans hoffer'
    | refused _ hr hoffer' =>
      cases hoffer.symm.trans hoffer'
      rw [Reaction.refusal?_took hn] at hr
      cases hr
  | interrupted hne hoffer _ ih =>
    cases h' with
    | done => exact absurd rfl hne
    | took _ _ hoffer' => cases hoffer.symm.trans hoffer'
    | interrupted _ hoffer' hrest' =>
      cases hoffer.symm.trans hoffer'
      obtain ⟨rfl, rfl⟩ := ih hrest'
      exact ⟨rfl, rfl⟩
    | refused _ hr hoffer' =>
      cases hoffer.symm.trans hoffer'
      cases hr
  | refused hne hr hoffer =>
    cases h' with
    | done => exact absurd rfl hne
    | took _ hn hoffer' =>
      cases hoffer.symm.trans hoffer'
      rw [Reaction.refusal?_took hn] at hr
      cases hr
    | interrupted _ hoffer' =>
      cases hoffer.symm.trans hoffer'
      cases hr
    | refused _ _ hoffer' =>
      cases hoffer.symm.trans hoffer'
      exact ⟨rfl, rfl⟩

/-- What the sink took in a course is the front part of the bytes that the counts add up to. -/
theorem Course.taken (h : sink.Course s bytes reactions t) :
    countTaken reactions ≤ bytes.length ∧
      sink.taken t = sink.taken s ++ bytes.take (countTaken reactions) := by
  induction h with
  | done s => exact ⟨Nat.zero_le _, (List.append_nil _).symm⟩
  | took _ _ hoffer _ ih =>
    obtain ⟨hle, htaken⟩ := sink.taken_of_took hoffer
    obtain ⟨hmore, hlast⟩ := ih
    rw [List.length_drop] at hmore
    rw [countTaken, Reaction.count, hlast, htaken, List.append_assoc, List.take_add]
    exact ⟨by omega, rfl⟩
  | interrupted _ hoffer _ ih =>
    rw [countTaken, Reaction.count, Nat.zero_add, ← (sink.taken_of_interrupted hoffer).1]
    exact ih
  | @refused s t bytes r _ hr hoffer =>
    cases r with
    | took n =>
      cases n with
      | zero => exact ⟨Nat.zero_le _, (sink.taken_of_took hoffer).2⟩
      | succ n => cases hr
    | interrupted => cases hr
    | failed fault =>
      rw [sink.taken_of_failed hoffer]
      exact ⟨Nat.zero_le _, (List.append_nil _).symm⟩

/-- A course ends in a refusal just if something is left over. -/
theorem Course.ending?_eq_none_iff (h : sink.Course s bytes reactions t) :
    ending? reactions = none ↔ countTaken reactions = bytes.length := by
  induction h with
  | done s => exact iff_of_true rfl rfl
  | took _ hn hoffer _ ih =>
    have hle := (sink.taken_of_took hoffer).1
    rw [ending?_cons (Reaction.refusal?_took hn), ih, countTaken, Reaction.count,
      List.length_drop]
    omega
  | interrupted _ _ _ ih =>
    rw [ending?_cons rfl, ih, countTaken, Reaction.count, Nat.zero_add]
  | @refused s t bytes r hne hr hoffer =>
    refine iff_of_false (fun hnone => ?_) fun hlen => hne ?_
    · have hlast : r.refusal? = none := hnone
      rw [hlast] at hr
      cases hr
    · have hzero : countTaken [r] = 0 := by
        cases r with
        | took n =>
          cases n with
          | zero => rfl
          | succ n => cases hr
        | interrupted => rfl
        | failed fault => rfl
      exact List.length_eq_zero_iff.1 (hlen.symm.trans hzero)

/-- Interruptions do not change how a course ends: each is followed by another reaction. -/
theorem Course.ending?_uninterrupted (h : sink.Course s bytes reactions t) :
    ending? (uninterrupted reactions) = ending? reactions := by
  induction h with
  | done s => rfl
  | @took s next t bytes n reactions _ hn _ _ ih =>
    rw [uninterrupted, List.filter_cons_of_pos (by simp), ending?_cons (Reaction.refusal?_took hn),
      ending?_cons (Reaction.refusal?_took hn)]
    exact ih
  | interrupted _ _ _ ih =>
    rw [uninterrupted, List.filter_cons_of_neg (by simp), ending?_cons rfl]
    exact ih
  | @refused s t bytes r _ hr _ =>
    have hne : r ≠ .interrupted := by
      rintro rfl
      cases hr
    rw [uninterrupted, List.filter_cons_of_pos (by simpa using hne), List.filter_nil]

/-! ### Sending follows a course -/

/-- The reaction with which a sink settles. -/
def Settled.reaction : Settled → Reaction
  | took n => .took n
  | failed fault => .failed fault

/-- Before a sink settles it is interrupted some times, each time by the same offer, which adds
nothing to the course that follows. -/
theorem exists_offer_of_settle (sink : Sink σ) (s : σ) (hne : bytes ≠ []) :
    ∃ next, sink.offer next bytes =
        ((sink.settle s bytes).1.reaction, (sink.settle s bytes).2) ∧
      ∀ {reactions t}, sink.Course next bytes reactions t →
        ∃ all, sink.Course s bytes all t ∧ countTaken all = countTaken reactions ∧
          ending? all = ending? reactions := by
  fun_induction settle sink s bytes with
  | case1 s n next hoffer => exact ⟨s, hoffer, fun h => ⟨_, h, rfl, rfl⟩⟩
  | case2 s next hoffer ih =>
    obtain ⟨last, hsettle, hcourse⟩ := ih
    refine ⟨last, hsettle, fun h => ?_⟩
    obtain ⟨all, hall, hcount, hend⟩ := hcourse h
    refine ⟨.interrupted :: all, .interrupted hne hoffer hall, ?_, ?_⟩
    · rw [countTaken, hcount]
      exact Nat.zero_add _
    · rw [ending?_cons rfl, hend]
  | case3 s fault next hoffer => exact ⟨s, hoffer, fun h => ⟨_, h, rfl, rfl⟩⟩

/-- A sink that settles on a refusal takes nothing more. -/
theorem exists_course_refused {settled : Settled} {refusal : Refusal} (hne : bytes ≠ [])
    (h : sink.settle s bytes = (settled, t)) (hrefusal : settled.reaction.refusal? = some refusal) :
    ∃ reactions, sink.Course s bytes reactions t ∧ countTaken reactions = settled.reaction.count ∧
      ending? reactions = some refusal := by
  obtain ⟨next, hoffer, hcourse⟩ := sink.exists_offer_of_settle s hne
  rw [h] at hoffer
  obtain ⟨all, hall, hcount, hend⟩ := hcourse (.refused hne (by rw [hrefusal]; rfl) hoffer)
  exact ⟨all, hall, hcount, hend.trans hrefusal⟩

theorem exists_course_sendFrom (sink : Sink σ) (s : σ) (written : ℕ) (bytes : List UInt8) :
    ∃ reactions, sink.Course s bytes reactions (sink.sendFrom s written bytes).state ∧
      (sink.sendFrom s written bytes).written = written + countTaken reactions ∧
      (sink.sendFrom s written bytes).refusal = ending? reactions := by
  fun_induction sendFrom sink s written bytes with
  | case1 s written bytes hempty =>
    obtain rfl := List.isEmpty_iff.1 hempty
    exact ⟨[], .done s, rfl, rfl⟩
  | case2 s written bytes hne next hsettle =>
    obtain ⟨reactions, hall, hcount, hend⟩ :=
      exists_course_refused (by simpa using hne) hsettle rfl
    exact ⟨reactions, hall, by rw [hcount]; rfl, hend.symm⟩
  | case3 s written bytes hne n next hsettle hn ih =>
    have hne : bytes ≠ [] := by simpa using hne
    obtain ⟨reactions, hrest, hwritten, hrefusal⟩ := ih
    obtain ⟨last, hoffer, hcourse⟩ := sink.exists_offer_of_settle s hne
    rw [hsettle] at hoffer
    obtain ⟨all, hall, hcount, hend⟩ := hcourse (.took hne hn hoffer hrest)
    refine ⟨all, hall, ?_, ?_⟩
    · rw [hwritten, hcount, countTaken, Reaction.count]
      omega
    · rw [hrefusal, hend, ending?_cons (Reaction.refusal?_took hn)]
  | case4 s written bytes hne fault next hsettle =>
    obtain ⟨reactions, hall, hcount, hend⟩ :=
      exists_course_refused (by simpa using hne) hsettle rfl
    exact ⟨reactions, hall, by rw [hcount]; rfl, hend.symm⟩

end Sink

/-- Courses that differ in interruptions only take as much and end alike, in whatever sinks. -/
theorem Sink.Course.same_of_uninterrupted {a : Sink σ} {b : Sink τ} {s s' : σ} {t t' : τ}
    {first second : List Reaction} (ha : a.Course s bytes first s')
    (hb : b.Course t bytes second t') (h : uninterrupted first = uninterrupted second) :
    countTaken first = countTaken second ∧ ending? first = ending? second := by
  constructor
  · rw [← countTaken_uninterrupted first, h, countTaken_uninterrupted]
  · rw [← ha.ending?_uninterrupted, h, hb.ending?_uninterrupted]

/-! ### Writing a family -/

/-- What a write comes to by the reactions of the sink.  A sink that takes none of the bytes offered
is reported as one that cannot write, and every refusal together with the bytes taken before. -/
def resultOf (reactions : List Reaction) : Except EncodeError ℕ :=
  match ending? reactions with
  | none => .ok (countTaken reactions)
  | some .tookNothing => .error (.sink (countTaken reactions) wroteNothing)
  | some (.failed fault) => .error (.sink (countTaken reactions) fault)

theorem exists_course_writeRendered (sink : Sink σ) (s : σ) (text : String) :
    ∃ reactions t, sink.Course s (encodeText text) reactions t ∧
      writeRendered sink s text = (resultOf reactions, t) := by
  obtain ⟨reactions, hcourse, hwritten, hrefusal⟩ :=
    sink.exists_course_sendFrom s 0 (encodeText text)
  refine ⟨reactions, _, hcourse, ?_⟩
  unfold writeRendered resultOf Sink.send
  dsimp only
  rw [hrefusal, hwritten, Nat.zero_add]
  rcases ending? reactions with _ | _ | fault <;> rfl

theorem Sink.Course.writeRendered_eq {text : String}
    (h : sink.Course s (encodeText text) reactions t) :
    writeRendered sink s text = (resultOf reactions, t) := by
  obtain ⟨all, u, hcourse, hwrite⟩ := exists_course_writeRendered sink s text
  obtain ⟨rfl, rfl⟩ := h.unique hcourse
  exact hwrite

namespace Family

variable {f : Family} {format : Format} {text : String}

theorem write_of_render_error {e : EncodeError} (h : f.render format = .error e) (sink : Sink σ)
    (s : σ) : f.write sink s format = (.error e, s) := by
  rw [write, h]

theorem write_of_render_ok (h : f.render format = .ok text) (sink : Sink σ) (s : σ) :
    f.write sink s format = writeRendered sink s text := by
  rw [write, h]

/-- The three ways in which the course of a write ends: everything was taken, or a front part of the
text before an offer of which nothing was taken or which failed. -/
theorem write_of_course (h : f.render format = .ok text)
    (hcourse : sink.Course s (encodeText text) reactions t) :
    f.write sink s format = (.ok (encodeText text).length, t) ∧ ending? reactions = none ∧
        sink.taken t = sink.taken s ++ encodeText text ∨
      ∃ written < (encodeText text).length, ∃ fault,
        f.write sink s format = (.error (.sink written fault), t) ∧
        (ending? reactions = some .tookNothing ∧ fault = wroteNothing ∨
          ending? reactions = some (.failed fault)) ∧
        sink.taken t = sink.taken s ++ (encodeText text).take written := by
  obtain ⟨hle, htaken⟩ := hcourse.taken
  have hall := hcourse.ending?_eq_none_iff
  rw [write_of_render_ok h, hcourse.writeRendered_eq, resultOf]
  cases hend : ending? reactions with
  | none =>
    have hcount := hall.1 hend
    rw [hcount, List.take_length] at htaken
    exact .inl ⟨by rw [hcount], rfl, htaken⟩
  | some refusal =>
    have hlt : countTaken reactions < (encodeText text).length := by
      refine Nat.lt_of_le_of_ne hle fun hcount => ?_
      rw [hall.2 hcount] at hend
      cases hend
    cases refusal with
    | tookNothing => exact .inr ⟨_, hlt, wroteNothing, rfl, .inl ⟨rfl, rfl⟩, htaken⟩
    | failed fault => exact .inr ⟨_, hlt, fault, rfl, .inr rfl, htaken⟩

/-- A family that cannot be written is not offered to any sink.  Of any other family the sink has
taken all bytes, and their number is the result, or it has taken just as many bytes from the front as
the error says, which is that of the offer that failed, or the one for an offer of which nothing was
taken.  Sinks that differ in their interruptions only take the same bytes with the same result. -/
theorem write_exact (f : Family) (format : Format) :
    (∀ e, f.render format = .error e →
      (∀ written fault, e ≠ .sink written fault) ∧
      ∀ {σ : Type} (sink : Sink σ) (s : σ), f.write sink s format = (.error e, s)) ∧
    ∀ text, f.render format = .ok text →
      (∀ {σ : Type} (sink : Sink σ) (s : σ), ∃ reactions t,
        sink.Course s (encodeText text) reactions t ∧
        (f.write sink s format = (.ok (encodeText text).length, t) ∧ ending? reactions = none ∧
            sink.taken t = sink.taken s ++ encodeText text ∨
          ∃ written < (encodeText text).length, ∃ fault,
            f.write sink s format = (.error (.sink written fault), t) ∧
            (ending? reactions = some .tookNothing ∧ fault = wroteNothing ∨
              ending? reactions = some (.failed fault)) ∧
            sink.taken t = sink.taken s ++ (encodeText text).take written)) ∧
      ∀ {σ τ : Type} (a : Sink σ) (b : Sink τ) (s s' : σ) (t t' : τ) (first second : List Reaction),
        a.Course s (encodeText text) first s' → b.Course t (encodeText text) second t' →
        uninterrupted first = uninterrupted second →
        (f.write a s format).1 = (f.write b t format).1 ∧
          ∃ taken, a.taken (f.write a s format).2 = a.taken s ++ taken ∧
            b.taken (f.write b t format).2 = b.taken t ++ taken := by
  refine ⟨fun e he => ⟨?_, fun sink s => write_of_render_error he sink s⟩,
    fun text htext => ⟨fun sink s => ?_, ?_⟩⟩
  · rintro written fault rfl
    exact render_ne_sink he
  · obtain ⟨reactions, t, hcourse, -⟩ := exists_course_writeRendered sink s text
    exact ⟨reactions, t, hcourse, write_of_course htext hcourse⟩
  · intro σ τ a b s s' t t' first second ha hb hsame
    obtain ⟨hcount, hend⟩ := ha.same_of_uninterrupted hb hsame
    rw [write_of_render_ok htext, write_of_render_ok htext, ha.writeRendered_eq,
      hb.writeRendered_eq]
    refine ⟨?_, (encodeText text).take (countTaken second), ?_, hb.taken.2⟩
    · rw [resultOf, resultOf, hcount, hend]
    · rw [← hcount]
      exact ha.taken.2

end Family

/-- A sink that reacts as a script says and takes everything once the script is over; it never takes
more than it is offered. -/
def Sink.scripted : Sink (List Reaction × List UInt8) where
  offer
    | ([], taken), bytes => (.took bytes.length, [], taken ++ bytes)
    | (.took n :: script, taken), bytes =>
      (.took (min n bytes.length), script, taken ++ bytes.take (min n bytes.length))
    | (.interrupted :: script, taken), _ => (.interrupted, script, taken)
    | (.failed fault :: script, taken), _ => (.failed fault, script, taken)
  flush s := (none, s)
  taken s := s.2
  patience s := s.1.length
  taken_of_took {s bytes n t} h := by
    rcases s with ⟨_ | ⟨_ | _ | _, script⟩, taken⟩
    · cases h
      exact ⟨Nat.le_refl _, by rw [List.take_length]⟩
    · cases h
      exact ⟨Nat.min_le_right _ _, rfl⟩
    · cases h
    · cases h
  taken_of_interrupted {s bytes t} h := by
    rcases s with ⟨_ | ⟨_ | _ | _, script⟩, taken⟩ <;> cases h
    exact ⟨rfl, Nat.lt_succ_self _⟩
  taken_of_failed {s bytes fault t} h := by
    rcases s with ⟨_ | ⟨_ | _ | _, script⟩, taken⟩ <;> cases h
    rfl
  taken_flush _ := rfl

/-- A family of 21 bytes. -/
def Family.oneGauge : Family := { name := "a", type := .gauge, metrics := [⟨[], none, .gauge .one⟩] }

/-- The reactions of a sink that takes seven bytes and then none, with and without interruptions. -/
theorem Family.write_exact_oneGauge :
    let interrupted : List Reaction := [.interrupted, .took 7, .interrupted, .interrupted, .took 0]
    oneGauge.render .openMetrics = .ok "# TYPE a gauge\na 1.0\n" ∧
      oneGauge.write Sink.scripted (interrupted, []) .openMetrics =
        (.error (.sink 7 wroteNothing), [], encodeText "# TYPE ") ∧
      (oneGauge.write Sink.scripted (interrupted, []) .openMetrics).1 =
        (oneGauge.write Sink.scripted ([.took 7, .took 0], []) .openMetrics).1 := by
  intro interrupted
  have hrender : oneGauge.render .openMetrics = .ok "# TYPE a gauge\na 1.0\n" := by
    have hcheck : (oneGauge.render .openMetrics).toOption = some "# TYPE a gauge\na 1.0\n" := by
      decide +kernel
    cases h : oneGauge.render .openMetrics with
    | error e => rw [h] at hcheck; cases hcheck
    | ok text => rw [h] at hcheck; rw [Option.some.inj hcheck]
  have hbytes : encodeText "# TYPE a gauge\na 1.0\n" ≠ [] := by decide +kernel
  have hrest : (encodeText "# TYPE a gauge\na 1.0\n").drop 7 ≠ [] := by decide +kernel
  have htake : ∀ script, Sink.scripted.offer (.took 7 :: script, [])
      (encodeText "# TYPE a gauge\na 1.0\n") = (.took 7, script, encodeText "# TYPE ") := by
    have hlen : min 7 (encodeText "# TYPE a gauge\na 1.0\n").length = 7 := by decide +kernel
    have hfront : (encodeText "# TYPE a gauge\na 1.0\n").take 7 = encodeText "# TYPE " := by
      decide +kernel
    intro script
    simp only [Sink.scripted, hlen, hfront, List.nil_append]
  have hfirst : Sink.scripted.Course (interrupted, []) (encodeText "# TYPE a gauge\na 1.0\n")
      interrupted ([], encodeText "# TYPE ") := by
    refine .interrupted hbytes rfl (.took hbytes (by decide) (htake _) ?_)
    exact .interrupted hrest rfl (.interrupted hrest rfl (.refused hrest rfl (by decide +kernel)))
  have hsecond : Sink.scripted.Course ([.took 7, .took 0], [])
      (encodeText "# TYPE a gauge\na 1.0\n") [.took 7, .took 0] ([], encodeText "# TYPE ") := by
    refine .took hbytes (by decide) (htake _) ?_
    exact .refused hrest rfl (by decide +kernel)
  obtain ⟨hwrite, hsame⟩ := (write_exact oneGauge .openMetrics).2 _ hrender
  refine ⟨hrender, ?_, (hsame _ _ _ _ _ _ _ _ hfirst hsecond (by decide)).1⟩
  obtain ⟨reactions, t, hcourse, hresult⟩ := hwrite Sink.scripted (interrupted, [])
  obtain ⟨rfl, rfl⟩ := hfirst.unique hcourse
  rcases hresult with ⟨-, hend, -⟩ | ⟨written, hlt, fault, heq, hfault, htaken⟩
  · exact absurd hend (by decide)
  · rcases hfault with ⟨-, rfl⟩ | hend
    · have hlen := congrArg List.length htaken
      have hseven : written = 7 := by
        rw [List.length_append, List.length_take, Nat.min_eq_left (Nat.le_of_lt hlt)] at hlen
        exact (Nat.zero_add written).symm.trans hlen.symm
      rw [heq, hseven]
    · have hzero : ending? interrupted = some .tookNothing := rfl
      cases hzero.symm.trans hend

end Exposition
