import NaturalDeduction.Proofs.Document.Layout
import NaturalDeduction.Proofs.Session.Order

/-!
# The layout of documents in sessions

In every state of a run each goal stands right below an empty line, no two empty lines are adjacent,
and each box begins with what was named or assumed in it when it was built and ends in the formula it
was built for; nothing is given, assumed or named anywhere else (`LaidOut`).

What a box was built for is a matter of the run and not of the document alone, so it is said by its
history: which operation has built the box, and after which plan (`HasBuilt`).
-/

set_option autoImplicit false

namespace NaturalDeduction

open Document

variable {s s' : Session} {d : Document} {op : Operation} {box : ItemId} {plan : BoxPlan}

/-! ### The history of boxes -/

/-- An operation builds a box after a plan: it lets a rule run that comes to a step, and the box is put
into the document for a premise of this step. -/
inductive Session.Builds (s : Session) (op : Operation) (box : ItemId) (plan : BoxPlan) : Prop
  | intro {d mid : Document} {rule : Rule} {selection : Selection} {input : Option Input}
      {sit : Situation} {step : Step} {cites : List ItemId}
      (hruns : s.Runs op d rule selection input) (hsit : d.situation rule selection = .ok sit)
      (haction : rule.handler sit input = .ok (.apply step))
      (hplace : d.placePremises selection.target step.premises = .ok (cites, mid))
      (hbox : (Premise.box plan, box) ∈ step.premises.zip cites)

/-- A box has been built after a plan in the course of a run, since the last task was set. -/
inductive Session.HasBuilt (s₀ : Session) : List Operation → ItemId → BoxPlan → Prop
  | now {ops : List Operation} {s : Session} {op : Operation} {box : ItemId} {plan : BoxPlan}
      (hrun : s₀.performAll ops = .ok s) (hbuilds : s.Builds op box plan) :
      HasBuilt s₀ (ops ++ [op]) box plan
  | before {ops : List Operation} {op : Operation} {box : ItemId} {plan : BoxPlan}
      (h : HasBuilt s₀ ops box plan) (htask : op.task? = none) : HasBuilt s₀ (ops ++ [op]) box plan

namespace Session

/-- Something is named or assumed in every box that is built. -/
theorem Builds.planOpening_ne_nil (h : s.Builds op box plan) : planOpening plan ≠ [] := by
  obtain @⟨d, mid, rule, selection, input, sit, step, cites, -, hsit, haction, -, hbox⟩ := h
  have hspeaks := (Discipline.lax_offers d selection input).speaks rfl hsit
  have hyields := rule.handler_yields hspeaks haction
  rcases hyields.named_or_assumed (List.of_mem_zip hbox).1 with hskolem | hassumption
  · obtain ⟨name, hname⟩ := Option.ne_none_iff_exists'.1 hskolem
    simp [planOpening, hname]
  · obtain ⟨f, hf⟩ := Option.ne_none_iff_exists'.1 hassumption
    simp [planOpening, hf]

/-- A box that was built for a rule opens with an assumption or with constants. -/
theorem HasBuilt.planOpening_ne_nil {s₀ : Session} {ops : List Operation}
    (h : s₀.HasBuilt ops box plan) : planOpening plan ≠ [] := by
  induction h with
  | now _ hbuilds => exact hbuilds.planOpening_ne_nil
  | before _ _ ih => exact ih

/-! ### Operations keep documents arranged -/

variable {plans : ItemId → BoxPlan → Prop}

/-- The document a rule runs on is arranged if the document of the session is. -/
theorem Runs.arranged {rule : Rule} {selection : Selection} {input : Option Input}
    (hruns : s.Runs op d rule selection input) (hs : s.Keeps .lax)
    (harranged : ∀ d ∈ s.document, d.Arranged plans) : d.Arranged plans := by
  cases hruns with
  | begins hd _ => exact harranged d hd
  | answers hd _ _ => exact harranged d hd
  | answersText hd _ hread _ =>
    exact (harranged _ hd).withSignature (hs.document _ hd).coherent fun _ =>
      (readInput_learns hread).mono

/-- An operation that sets no task leaves the document arranged, with the plans of the boxes that it
builds. -/
theorem Keeps.arranged_perform (h : s.Keeps .lax) (harranged : ∀ d ∈ s.document, d.Arranged plans)
    (htask : op.task? = none) (hperform : s.perform op = .ok s') :
    ∀ e ∈ s'.document, e.Arranged fun box plan => plans box plan ∨ s.Builds op box plan := by
  cases perform_turn hperform with
  | starts hstarts _ _ => simp [htask] at hstarts
  | stays _ hdocument _ _ =>
    intro e he
    exact (harranged e (hdocument ▸ he)).mono Or.inl
  | checks _ hd hrefresh hs' =>
    have hcoherent := (h.document _ hd).coherent
    obtain ⟨complete, e, hok, hmoves, -⟩ := hcoherent.refresh_moves Discipline.lax.repeats
    obtain ⟨-, rfl⟩ := Prod.mk.inj (Except.ok.inj (hok.symm.trans hrefresh))
    subst hs'
    rintro _ ⟨⟩
    exact ((harranged _ hd).moves hcoherent Discipline.lax.repeats hmoves).mono Or.inl
  | @runs d e rule selection input outcome _ hruns hrun hs' =>
    have hd := hruns.arranged h harranged
    obtain ⟨hkeeps, hselects, -, -⟩ := hruns.keeps h (Discipline.lax_admits s op)
    subst hs'
    rintro _ ⟨⟩
    obtain ⟨-, -, rfl⟩ | ⟨-, sit, step, cites, mid, spliced, hsit, haction, -, hspliced, hsettle⟩ :=
      hkeeps.coherent.run_spliced (Discipline.lax.fits d) Discipline.lax.repeats hselects
        (Discipline.lax_offers d selection input) hrun
    · exact hd.mono Or.inl
    · have hcoherent := hspliced.coherent hkeeps.coherent
      obtain ⟨e', hok, hmoves, -⟩ := hcoherent.settle_moves Discipline.lax.repeats s.settings
      obtain rfl : e' = e := Except.ok.inj (hok.symm.trans hsettle)
      refine ((hspliced.arranged hkeeps.coherent hd).moves hcoherent Discipline.lax.repeats
        hmoves).mono fun hplan => hplan.imp_right fun hbox => ?_
      exact .intro hruns hsit haction hspliced.premises hbox

/-- The document a task begins with is arranged, whatever boxes are there later. -/
theorem arranged_start {task : Task} {sig : Signature} {settings : Settings}
    (h : (Document.start task.givens task.goal sig).settle settings = .ok d) : d.Arranged plans := by
  have hstart := start_coherent task.givens task.goal sig Discipline.lax.good
  obtain ⟨e, hok, hmoves, -⟩ := hstart.settle_moves Discipline.lax.repeats settings
  obtain rfl : e = d := Except.ok.inj (hok.symm.trans h)
  exact (start_arranged task.givens task.goal sig plans).moves hstart Discipline.lax.repeats hmoves

/-! ### Runs -/

/-- Operations in two parts are carried out one part after the other. -/
theorem performAll_append (s : Session) (ops ops' : List Operation) :
    s.performAll (ops ++ ops') = s.performAll ops >>= fun mid => mid.performAll ops' := by
  induction ops generalizing s with
  | nil => rfl
  | cons op ops ih => simp only [List.cons_append, performAll, ih, bind_assoc]

/-- The document of every state of a run is arranged, with the plans after which its boxes have been
built. -/
theorem performAll_arranged {settings : Settings} {ops : List Operation}
    (hrun : ({ settings } : Session).performAll ops = .ok s) :
    ∀ d ∈ s.document, d.Arranged (HasBuilt { settings } ops) := by
  induction ops using List.reverseRecOn generalizing s with
  | nil =>
    obtain rfl := Except.ok.inj hrun
    simp
  | append_singleton ops op ih =>
    rw [performAll_append] at hrun
    obtain ⟨mid, hmid, hrun⟩ := bind_eq_ok.1 hrun
    obtain ⟨s', hperform, hrun⟩ := bind_eq_ok.1 hrun
    obtain rfl := Except.ok.inj hrun
    have hfollows := follows_of_performAll hmid
    by_cases htask : op.task? = none
    · intro d hd
      refine (hfollows.keeps.arranged_perform (ih hmid) htask hperform d hd).mono ?_
      rintro box plan (hbuilt | hbuilds)
      · exact hbuilt.before htask
      · exact .now hmid hbuilds
    · cases perform_turn hperform with
      | starts _ hsettle hs' =>
        subst hs'
        rintro _ ⟨⟩
        exact arranged_start hsettle
      | stays hnone _ _ _ | checks hnone _ _ _ | runs hnone _ _ _ => exact absurd hnone htask

end Session

/-! ### The layout -/

/-- The layout of a document for a task, whose boxes have been built after some plans. -/
structure Document.LaidOut (d : Document) (task : Task) (plans : ItemId → BoxPlan → Prop) : Prop where
  /-- Every goal stands right below an empty line. -/
  goals : ∀ id, d.isLinked id = true → d.isGoal id = true →
    ∃ gap, d.prev? id = some gap ∧ d.isEmptyLine gap = true
  /-- No two empty lines are adjacent. -/
  gaps : ∀ id next, d.isLinked id = true → d.isEmptyLine id = true → d.next? id = some next →
    d.isEmptyLine next = false
  /-- The outermost box begins with the givens and ends in the goal of the task. -/
  outermost : d.Framed root (task.givens.map fun f => .line f .given 0) task.goal
  /-- Every other box begins with the constant and the assumption of its plan, of which there is at
  least one, and ends in the goal of the plan. -/
  boxes : ∀ box, d.isLinked box = true → d.isBox box = true → box ≠ root →
    ∃ plan, plans box plan ∧ planOpening plan ≠ [] ∧ d.Framed box (planOpening plan) plan.goal

namespace Session

/-- In every state of a run that has a document, a task has been set, and the document is laid out
for this task, with the boxes that have been built since. -/
theorem performAll_laidOut {settings : Settings} {ops : List Operation}
    (hrun : ({ settings } : Session).performAll ops = .ok s) (hd : s.document = some d) :
    ∃ task, taskAfter none ops = some task ∧ d.LaidOut task (HasBuilt { settings } ops) := by
  have hfollows := follows_of_performAll hrun
  have hlinked := (hfollows.keeps.document d hd).coherent.linked
  have harranged := performAll_arranged hrun d hd
  obtain ⟨task, sig, htask, -, hedits⟩ := hfollows.comes d hd
  have houtermost := Edits.framed hedits (start_coherent task.givens task.goal sig _)
    (start_framed task.givens task.goal sig)
  have hstands : ∀ {id}, d.isLinked id = true → d.isOpen id = true → ∃ box, id ∈ d.children box := by
    intro id hid hopen
    rcases isLinked_iff.1 hid with rfl | ⟨box, hbox⟩
    · have hline := isBox_of_isOpen hopen
      simp [houtermost.isBox hlinked] at hline
    · exact ⟨box, hlinked.standsIn_iff.1 hbox⟩
  refine ⟨task, htask, fun id hid hgoal => ?_, fun id next hid hempty hnext => ?_, houtermost, ?_⟩
  · obtain ⟨box, hbox⟩ := hstands hid (by simp [isOpen, hgoal])
    exact harranged.spaced.prev?_of_isGoal hlinked hbox hgoal
  · obtain ⟨box, hbox⟩ := hstands hid (by simp [isOpen, hempty])
    exact harranged.spaced.next?_of_isEmptyLine hlinked hbox hempty hnext
  · intro box _ hbox hne
    obtain ⟨plan, hplan, hframed⟩ := harranged.framed box hbox hne
    exact ⟨plan, hplan, hplan.planOpening_ne_nil, hframed⟩

/-- A run with a box for a named object, in it a box for an implication, in it a derived line above
the goal. -/
theorem performAll_laidOut_nested :
    ∃ ops s d task,
      ops = [.start ["∃x P(x)"] "Q -> R", .apply .existsElim [1, 3], .apply .impliesIntro [6],
        .apply .excludedMiddle [7], .resumeText "R"] ∧
      ({} : Session).performAll ops = .ok s ∧ s.document = some d ∧
      d.isBox 4 = true ∧ d.children 4 = [5, 6, 7, 9, 8] ∧
      d.isBox 9 = true ∧ d.children 9 = [10, 13, 11, 12] ∧ d.isGoal 12 = true ∧
      taskAfter none ops = some task ∧ d.LaidOut task (HasBuilt {} ops) := by
  obtain ⟨ops, hops⟩ : ∃ ops : List Operation, ops = [.start ["∃x P(x)"] "Q -> R",
      .apply .existsElim [1, 3], .apply .impliesIntro [6], .apply .excludedMiddle [7],
      .resumeText "R"] := ⟨_, rfl⟩
  have hfinal : (({} : Session).performAll ops).toOption.any fun s => s.document.any fun d =>
      d.isBox 4 && d.children 4 == [5, 6, 7, 9, 8] && d.isBox 9 &&
        d.children 9 == [10, 13, 11, 12] && d.isGoal 12 := by
    rw [hops]
    decide +kernel
  obtain ⟨s, hrun, hfinal⟩ := exists_ok_of_any hfinal
  obtain ⟨d, hd, hfinal⟩ := (Option.any_eq_true _ _).1 hfinal
  simp only [Bool.and_eq_true, beq_iff_eq] at hfinal
  obtain ⟨⟨⟨⟨houter, houterRow⟩, hinner⟩, hinnerRow⟩, hgoal⟩ := hfinal
  obtain ⟨task, htask, hlaidOut⟩ := performAll_laidOut hrun hd
  exact ⟨ops, s, d, task, hops, hrun, hd, houter, houterRow, hinner, hinnerRow, hgoal, htask,
    hlaidOut⟩

end Session
end NaturalDeduction
