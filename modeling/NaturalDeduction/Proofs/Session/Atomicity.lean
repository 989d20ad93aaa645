import NaturalDeduction.Proofs.Session.Safety

/-!
# Refused operations

An operation that is refused leaves no trace.  A refused answer leaves the whole session as it was, so
the rule that waits can be answered again, and names that were first seen in the refused text are not
known.  A rule that is refused when it is begun leaves the document as it was, and so does a rule that
asks; all that changes is the rule that waits.  A start with texts that cannot be read changes nothing
either, and reports exactly these texts.
-/

set_option autoImplicit false

namespace NaturalDeduction

/-! ### Reports of texts that cannot be read -/

/-- Reading one more text after several others. -/
theorem Formula.parseEach_concat (texts : List String) (text : String) (sig : Signature) :
    Formula.parseEach (texts ++ [text]) sig =
      match Formula.parse text (Formula.parseEach texts sig).2 with
      | .ok f last => ((Formula.parseEach texts sig).1 ++ [.ok f], last)
      | .error e _ =>
        ((Formula.parseEach texts sig).1 ++ [.error e], (Formula.parseEach texts sig).2) := by
  induction texts generalizing sig with
  | nil =>
    cases hparse : Formula.parse text sig with
    | ok f last => simp [Formula.parseEach, hparse]
    | error e last => simp [Formula.parseEach, hparse]
  | cons first texts ih =>
    rw [List.cons_append, Formula.parseEach, Formula.parseEach]
    cases Formula.parse first sig with
    | ok f mid =>
      simp only [ih]
      cases Formula.parse text (Formula.parseEach texts mid).2 <;> rfl
    | error e mid =>
      simp only [ih]
      cases Formula.parse text (Formula.parseEach texts sig).2 <;> rfl

/-- A report names the readings that failed by their places, one after the other. -/
structure BatchError.Reports (e : BatchError) (results : List (Except ParseError Formula)) : Prop where
  places : ∀ i cause, (i, cause) ∈ e.failures ↔ results[i]? = some (.error cause)
  ordered : (e.failures.map Prod.fst).Pairwise (· < ·)

namespace Session

/-- A failure is reported at the place of the reading that failed. -/
theorem mem_failures {results : List (Except ParseError Formula)} {start i : Nat}
    {cause : ParseError} :
    (i, cause) ∈ failures start results ↔
      start ≤ i ∧ results[i - start]? = some (.error cause) := by
  induction results generalizing start with
  | nil => simp [failures]
  | cons result results ih =>
    -- the first reading stands at `start`, the others behind it
    have hrest : (start + 1 ≤ i ∧ results[i - (start + 1)]? = some (.error cause)) ↔
        start < i ∧ (result :: results)[i - start]? = some (.error cause) := by
      refine and_congr_right fun hlt => ?_
      have hsub : i - start = (i - (start + 1)) + 1 := by omega
      rw [hsub, List.getElem?_cons_succ]
    have hsplit : (start ≤ i ∧ (result :: results)[i - start]? = some (.error cause)) ↔
        (i = start ∧ result = .error cause) ∨
          start < i ∧ (result :: results)[i - start]? = some (.error cause) := by
      rcases Nat.lt_trichotomy i start with hlt | rfl | hgt
      · constructor
        · rintro ⟨hle, -⟩; omega
        · rintro (⟨rfl, -⟩ | ⟨hle, -⟩) <;> omega
      · simp
      · simp [hgt, Nat.le_of_lt hgt, Nat.ne_of_gt hgt]
    rw [hsplit, ← hrest, ← ih]
    cases result with
    | ok f => simp [failures]
    | error e => simp [failures, eq_comm]

/-- Failures are reported from the first to the last. -/
theorem pairwise_failures (results : List (Except ParseError Formula)) (start : Nat) :
    ((failures start results).map Prod.fst).Pairwise (· < ·) := by
  induction results generalizing start with
  | nil => exact List.Pairwise.nil
  | cons result results ih =>
    cases result with
    | ok f => exact ih (start + 1)
    | error e =>
      refine List.Pairwise.cons (fun i hi => ?_) (ih (start + 1))
      obtain ⟨⟨j, cause⟩, hj, rfl⟩ := List.mem_map.1 hi
      have hle := (mem_failures.1 hj).1
      exact hle

/-- The failures of a batch report on it. -/
theorem failures_reports (results : List (Except ParseError Formula)) :
    BatchError.Reports ⟨failures 0 results⟩ results where
  places i cause := by
    rw [mem_failures]
    simp
  ordered := pairwise_failures results 0

/-- One more reading is reported last. -/
theorem failures_concat (results : List (Except ParseError Formula))
    (last : Except ParseError Formula) (start : Nat) :
    failures start (results ++ [last]) =
      failures start results ++ failures (start + results.length) [last] := by
  induction results generalizing start with
  | nil => rfl
  | cons result results ih =>
    have hplace : start + 1 + results.length = start + (result :: results).length := by
      rw [List.length_cons]; omega
    cases result with
    | ok f => rw [List.cons_append, failures, ih, hplace, failures]
    | error e => rw [List.cons_append, failures, ih, hplace, failures, List.cons_append]

variable {s s' : Session}

/-- A start that is refused changes nothing and reports the texts that cannot be read; it is refused
only if there are any. -/
theorem start_eq_ok {givens : List String} {goal : String} {answer : Except BatchError Unit}
    (h : s.start givens goal = .ok (answer, s')) :
    (∀ e, answer = .error e → s' = s ∧ e.Reports (Formula.parseEach (givens ++ [goal]) {}).1) ∧
      ((∃ e, answer = .error e) ↔
        ∃ cause, .error cause ∈ (Formula.parseEach (givens ++ [goal]) {}).1) := by
  have hlen := Formula.length_parseEach givens {}
  have hconcat := Formula.parseEach_concat givens goal {}
  unfold Session.start at h
  rcases hread : Formula.parseEach givens {} with ⟨results, sig⟩
  simp only [hread] at h hlen hconcat
  cases hgoal : Formula.parse goal sig with
  | error cause mid =>
    simp only [hgoal] at h hconcat
    obtain ⟨rfl, rfl⟩ := Prod.mk.inj (Except.ok.inj h)
    rw [hconcat]
    refine ⟨fun e he => ⟨rfl, ?_⟩, by simp⟩
    obtain rfl := Except.error.inj he
    -- the goal comes last, so it is reported behind the givens
    have hfailures := failures_concat results (.error cause) 0
    rw [Nat.zero_add, hlen] at hfailures
    have hreports := failures_reports (results ++ [.error cause])
    rwa [hfailures] at hreports
  | ok f mid =>
    simp only [hgoal] at h hconcat
    rw [hconcat]
    have hfailures := failures_concat results (.ok f) 0
    have hreports := failures_reports (results ++ [.ok f])
    rw [hfailures, failures, failures, List.append_nil] at hreports
    by_cases hnone : (failures 0 results).isEmpty = true
    · rw [if_pos hnone] at h
      obtain ⟨d, -, h⟩ := bind_eq_ok.1 h
      obtain ⟨rfl, rfl⟩ := Prod.mk.inj (Except.ok.inj h)
      refine ⟨by simp, ?_⟩
      simp only [reduceCtorEq, exists_false, false_iff]
      rintro ⟨cause, hcause⟩
      obtain ⟨i, hi⟩ := List.mem_iff_getElem?.1 hcause
      have hmem := (hreports.places i cause).2 hi
      simp [List.isEmpty_iff.1 hnone] at hmem
    · rw [if_neg hnone] at h
      obtain ⟨rfl, rfl⟩ := Prod.mk.inj (Except.ok.inj h)
      refine ⟨fun e he => ⟨rfl, ?_⟩, ?_⟩
      · obtain rfl := Except.error.inj he
        exact hreports
      · refine iff_of_true ⟨_, rfl⟩ ?_
        obtain ⟨⟨i, cause⟩, hmem⟩ := List.exists_mem_of_ne_nil _ (mt List.isEmpty_iff.2 hnone)
        exact ⟨cause, List.mem_of_getElem? ((hreports.places i cause).1 hmem)⟩

/-! ### Refused rules and answers -/

/-- A rule that asks leaves the document as it was. -/
theorem run_needsInput {d e : Document} {settings : Settings} {rule : Rule} {selection : Selection}
    {input : Option Input} {pending : Pending}
    (h : d.run settings rule selection input = .ok (.needsInput pending, e)) : e = d := by
  unfold Document.run at h
  obtain ⟨sit, -, h⟩ := bind_eq_ok.1 h
  obtain ⟨action, -, h⟩ := bind_eq_ok.1 h
  cases action with
  | ask request => exact (Prod.mk.inj (Except.ok.inj h)).2.symm
  | apply step =>
    obtain ⟨spliced, -, h⟩ := bind_eq_ok.1 h
    obtain ⟨settled, -, h⟩ := bind_eq_ok.1 h
    simp [pure, Except.pure] at h

/-- A rule that is refused, or that asks, changes nothing but the rule that waits. -/
theorem apply_eq_ok {rule : Rule} {numbers : List Nat} {answer : Except RuleError Outcome}
    (h : s.apply rule numbers = .ok (answer, s')) :
    (∀ e, answer = .error e → s' = { s with pending := none }) ∧
      ∀ pending, answer = .ok (.needsInput pending) → s' = { s with pending := some pending } := by
  obtain ⟨⟨e, rfl⟩, rfl⟩ | ⟨d, selection, outcome, e, rfl, hd, -, hrun, rfl⟩ := apply_begins h
  · exact ⟨fun _ _ => rfl, by simp⟩
  · refine ⟨by simp, fun pending hpending => ?_⟩
    obtain rfl := Except.ok.inj hpending
    rw [run_needsInput hrun, ← hd]
    rfl

/-- An answer that is refused leaves the session as it was. -/
theorem resume_refused {input : Input} {answer : Except RuleError Outcome}
    (h : s.resume input = .ok (answer, s')) : ∀ e, answer = .error e → s' = s := by
  rintro e rfl
  obtain ⟨-, hsame⟩ | ⟨d, pending, outcome, e', hanswer, -⟩ := resume_eq_ok h
  · exact hsame
  · simp at hanswer

/-- An answer in text that is refused, in reading or by its rule, leaves the session as it was. -/
theorem resumeText_refused {text : String} {answer : Except AnswerError Outcome}
    (h : s.resumeText text = .ok (answer, s')) : ∀ e, answer = .error e → s' = s := by
  rintro e rfl
  obtain ⟨-, hsame⟩ | ⟨d, pending, input, sig, outcome, e', hanswer, -⟩ := resumeText_eq_ok h
  · exact hsame
  · simp at hanswer

/-- Refused operations leave no trace in the session. -/
structure Atomic (s : Session) : Prop where
  resume : ∀ input, ∃ answer s', s.resume input = .ok (answer, s') ∧
    ∀ e, answer = .error e → s' = s
  resumeText : ∀ text, ∃ answer s', s.resumeText text = .ok (answer, s') ∧
    ∀ e, answer = .error e → s' = s
  apply : ∀ rule numbers, ∃ answer s', s.apply rule numbers = .ok (answer, s') ∧
    (∀ e, answer = .error e → s' = { s with pending := none }) ∧
    ∀ pending, answer = .ok (.needsInput pending) → s' = { s with pending := some pending }
  start : ∀ givens goal, ∃ answer s', s.start givens goal = .ok (answer, s') ∧
    (∀ e, answer = .error e → s' = s ∧ e.Reports (Formula.parseEach (givens ++ [goal]) {}).1) ∧
    ((∃ e, answer = .error e) ↔ ∃ cause, .error cause ∈ (Formula.parseEach (givens ++ [goal]) {}).1)

/-- In every session that a run of operations leads to, refused operations leave no trace. -/
theorem performAll_atomic {settings : Settings} {ops : List Operation}
    (hrun : ({ settings } : Session).performAll ops = .ok s) : s.Atomic := by
  obtain ⟨s₁, hrun', hready⟩ := (ready_initial settings).performAll ops
  obtain rfl : s₁ = s := Except.ok.inj (hrun'.symm.trans hrun)
  constructor
  · intro input
    obtain ⟨answer, s', hresume, -⟩ := hready.resume_total input
    exact ⟨answer, s', hresume, resume_refused hresume⟩
  · intro text
    obtain ⟨answer, s', hresume, -⟩ := hready.resumeText_total text
    exact ⟨answer, s', hresume, resumeText_refused hresume⟩
  · intro rule numbers
    obtain ⟨answer, s', happly, -⟩ := hready.apply_total rule numbers
    exact ⟨answer, s', happly, apply_eq_ok happly⟩
  · intro givens goal
    obtain ⟨answer, s', hstart, -⟩ := s₁.start_total givens goal
    exact ⟨answer, s', hstart, start_eq_ok hstart⟩

/-- A session in which a rule waits for terms. -/
theorem performAll_atomic_forallElim :
    ∃ s, ({} : Session).performAll [.start ["∀x P(x)"] "P(a)", .apply .forallElim [1, 2]] = .ok s ∧
      s.pending.isSome = true ∧ s.Atomic := by
  generalize hresult : ({} : Session).performAll
    [.start ["∀x P(x)"] "P(a)", .apply .forallElim [1, 2]] = result
  have hpending : result.toOption.any fun s => s.pending.isSome := by
    rw [← hresult]
    decide +kernel
  obtain ⟨s, rfl, hs⟩ := exists_ok_of_any hpending
  exact ⟨s, rfl, hs, performAll_atomic hresult⟩

end Session

end NaturalDeduction
