import NaturalDeduction.Proofs.Semantics.Document

/-!
# Soundness of sessions

In a session where all formulas read from text are closed, whatever is done in whatever order, a line
is a consequence of the givens and of the assumptions around it, as soon as the open goals are.  So the
goal of a complete proof is a consequence of its givens.
-/

set_option autoImplicit false

namespace NaturalDeduction

universe u

variable {s s' : Session} {d : Document}

/-! ### Closed texts -/

/-- The formulas that an operation takes from its texts. -/
def Session.readings (s : Session) : Operation → List Formula
  | .start givens goal =>
    match (Operation.start givens goal).task? with
    | some (task, _) => task.goal :: task.givens
    | none => []
  | .resumeText text =>
    match s.document, s.pending with
    | some d, some pending =>
      match readInput pending.request.kind text d.signature with
      | (.ok (.formula f), _) => [f]
      | _ => []
    | _, _ => []
  | _ => []

/-- All formulas read from text are closed. -/
def Session.ReadsClosed (s : Session) (op : Operation) : Prop :=
  (∀ f ∈ s.readings op, f.Closed) ∧ op.choosesOnly = true

instance (s : Session) (op : Operation) : Decidable (s.ReadsClosed op) :=
  inferInstanceAs (Decidable (_ ∧ _))

/-- Terms read from a text are closed. -/
theorem Session.readInput_closed {kind : InputKind} {text : String} {sig sig' : Signature}
    {ts : List Term} (h : readInput kind text sig = (.ok (.terms ts), sig')) :
    ∀ t ∈ ts, t.vars = [] := by
  obtain ⟨f, hinput, -⟩ | ⟨us, hinput, hparse⟩ | ⟨index, hinput, -⟩ := readInput_eq_ok h
  · simp at hinput
  · obtain rfl := Input.terms.inj hinput
    exact (Term.parseList_learns hparse).2
  · simp at hinput

/-- Closed texts keep a session to closed formulas over known names. -/
theorem Session.ReadsClosed.admits {op : Operation} (h : s.ReadsClosed op) :
    Discipline.proper.{u}.Admits s op := by
  obtain ⟨hclosed, hchooses⟩ := h
  cases op with
  | start givens goal =>
    intro task sig htask f hf
    simp only [readings, htask] at hclosed
    exact ⟨hclosed f hf, fun c hc => (Operation.task?_learns htask).mem ⟨f, hf, hc⟩⟩
  | resume input =>
    cases input with
    | choice index => exact fun _ _ => trivial
    | _ => simp [Operation.choosesOnly] at hchooses
  | resumeText text =>
    intro d hd pending hpending input sig hread
    rw [Option.mem_def] at hd hpending
    simp only [readings, hd, hpending, hread] at hclosed
    have hlearns := readInput_learns hread
    cases input with
    | formula f =>
      exact ⟨hclosed f List.mem_cons_self, fun c hc => hlearns.mem (NameSet.mem_toList.2 hc)⟩
    | terms ts =>
      refine fun t ht => ⟨readInput_closed hread t ht, fun c hc => hlearns.mem ?_⟩
      exact List.mem_flatMap.2 ⟨t, ht, NameSet.mem_toList.2 hc⟩
    | choice index => trivial
  | _ => exact fun _ _ h => by simp [Operation.task?] at h

/-! ### Soundness -/

/-- After any run in which formulas read from text are closed: if all open goals are consequences of
the givens and of the assumptions around them, then so are all lines, and if the proof is complete,
its goal is a consequence of its givens. -/
theorem Session.performAll_sound {settings : Settings} {ops : List Operation}
    (hclosed : ({ settings } : Session).Along ReadsClosed ops)
    (hrun : ({ settings } : Session).performAll ops = .ok s) (hd : s.document = some d) :
    ∃ task, taskAfter none ops = some task ∧
      ((∀ id f, d.isLinked id = true → d.line? id = some (f, .goal) →
          Entails.{u} (d.hypotheses task.givens id) f) →
        ∀ id f just, d.isLinked id = true → d.line? id = some (f, just) →
          Entails.{u} (d.hypotheses task.givens id) f) ∧
      (d.isComplete = true → Entails.{u} task.givens task.goal) := by
  have hfollows := (follows_initial Discipline.proper.{u} settings).performAll
    (hclosed.imp fun _ _ h => h.admits) hrun
  have hkeeps := hfollows.keeps.document d hd
  obtain ⟨task, sig, htask, hallowed, hedits⟩ := hfollows.comes d hd
  have hstart := Document.start_coherent task.givens task.goal sig Warrants.{u}
  have hscoped : d.Scoped task.givens := by
    refine Document.Edits.scoped hedits hstart ?_ Discipline.proper.{u}.mono (fun h => h.2) ?_
    · exact Document.start_scoped fun f hf => (hallowed f (List.mem_cons_of_mem _ hf)).2
    · exact fun hf => hallowed _ (Document.mem_of_formula?_start task.givens task.goal sig hf)
  refine ⟨task, htask, fun hgoals id f just => hkeeps.coherent.entails hkeeps.numbered hscoped hgoals,
    fun hcomplete => hkeeps.coherent.entails_goal hkeeps.numbered hscoped hcomplete ?_⟩
  exact Document.Edits.meaning?_eq hedits hstart
    (Document.meaning?_start_root task.givens task.goal sig)

/-- A run that names an object whose existence is given, in a box of its own. -/
theorem Session.performAll_sound_exists :
    ∃ (ops : List Operation) (s : Session) (d : Document) (task : Task),
      ops = [.start ["∀x (P(x) → Q(x))", "∃x P(x)"] "∃x Q(x)", .apply .existsElim [2, 4],
        .apply .forallElim [1, 6], .resumeText "c0", .apply .impliesElim [5, 6, 7],
        .apply .existsIntro [7, 9]] ∧
      task.givens = [.quant .all "x" (.binary .implies (.rel "P" [.var "x"]) (.rel "Q" [.var "x"])),
        .quant .ex "x" (.rel "P" [.var "x"])] ∧
      task.goal = .quant .ex "x" (.rel "Q" [.var "x"]) ∧
      ({} : Session).Along ReadsClosed ops ∧ ({} : Session).performAll ops = .ok s ∧
      s.document = some d ∧ d.isComplete = true ∧ taskAfter none ops = some task ∧
      Entails.{0} task.givens task.goal := by
  generalize hops : [Operation.start ["∀x (P(x) → Q(x))", "∃x P(x)"] "∃x Q(x)",
    .apply .existsElim [2, 4], .apply .forallElim [1, 6], .resumeText "c0",
    .apply .impliesElim [5, 6, 7], .apply .existsIntro [7, 9]] = ops
  have hclosed : ({} : Session).Along ReadsClosed ops := by
    rw [← hops]
    decide +kernel
  generalize hresult : ({} : Session).performAll ops = result
  have hcomplete : result.toOption.any fun s => s.document.any Document.isComplete := by
    rw [← hresult, ← hops]
    decide +kernel
  match result, hresult, hcomplete with
  | .ok { document := some d, .. }, hrun, hcomplete =>
    obtain ⟨task, htask, -, hsound⟩ := performAll_sound hclosed hrun rfl
    have hset : (taskAfter none ops).any fun task =>
        task.givens = [.quant .all "x" (.binary .implies (.rel "P" [.var "x"]) (.rel "Q" [.var "x"])),
          .quant .ex "x" (.rel "P" [.var "x"])] ∧
        task.goal = .quant .ex "x" (.rel "Q" [.var "x"]) := by
      rw [← hops]
      decide +kernel
    rw [htask, Option.any_some, decide_eq_true_iff] at hset
    exact ⟨ops, _, d, task, rfl, hset.1, hset.2, hclosed, hrun, rfl, hcomplete, htask,
      hsound hcomplete⟩

end NaturalDeduction
