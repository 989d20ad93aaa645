import Mathlib.Data.List.Infix
import NaturalDeduction.Proofs.Document.Fixpoint
import NaturalDeduction.Proofs.Document.Survival
import NaturalDeduction.Proofs.Session.Order

/-!
# Completion in sessions

What closing the goals does to a document of a session.  It loses nothing
(`performAll_completion_survives`), but it does not close all goals that can be closed: it leaves one
less wherever several goals with one formula wait below a line that has it, so it is repeated until
nothing changes any more (`performAll_completion_settles`).
-/

set_option autoImplicit false

namespace NaturalDeduction.Session

variable {s : Session} {d : Document}

/-- In every state of a run, closing the goals loses nothing: only empty lines and goals leave the
document, each goal because a line before it proves it; what stays keeps its formula and its order,
and what it cites stands for what it stood for; and every box ends in the formula it ended in. -/
theorem performAll_completion_survives {settings : Settings} {ops : List Operation}
    (hrun : ({ settings } : Session).performAll ops = .ok s) (hd : s.document = some d) :
    ∃ complete e, d.checkCompletion = .ok (complete, e) ∧ d.Survives e ∧
      e.lines.Sublist d.lines ∧
      (∀ {id f rule cites}, e.isLinked id = true → d.line? id = some (f, .byRule rule cites) →
        ∃ cites', e.line? id = some (f, .byRule rule cites') ∧
          cites'.map e.meaning? = cites.map d.meaning?) ∧
      ∀ box, d.isLinked box = true → d.isBox box = true →
        e.isLinked box = true ∧ ∃ f, d.ending? box = some f ∧ e.ending? box = some f := by
  have hcoherent := ((follows_of_performAll hrun).keeps.document d hd).coherent
  obtain ⟨complete, e, hok, hmoves, -, -⟩ :=
    hcoherent.checkCompletion_moves Discipline.lax.repeats
  have he := hmoves.coherent Discipline.lax.repeats hcoherent
  have hsurvives := hmoves.survives Discipline.lax.repeats hcoherent
  refine ⟨complete, e, hok, hsurvives,
    hsurvives.shrunk.linesUnder_sublist hcoherent.linked he.linked Document.root,
    fun hlinked hline => hsurvives.cites_meanings hlinked hline, fun box hlinked hbox => ?_⟩
  obtain ⟨f, hf⟩ := hcoherent.ends hbox hlinked
  exact ⟨hsurvives.shrunk.isLinked_of_isBox hcoherent.linked he.linked hbox hlinked, f, hf,
    by rw [hsurvives.ending, hf]⟩

/-- A run after which one goal is ticked and another goes, so that the line which cites both cites
what proves it. -/
theorem performAll_completion_survives_conjunction :
    ∃ s d complete e,
      ({} : Session).performAll [.configure { autoComplete := false }, .start ["Q & P", "Q"] "Q & P",
        .apply .andIntro [4], .apply .andElim [1, 5], .resumeText "2"] = .ok s ∧
      s.document = some d ∧ d.checkCompletion = .ok (complete, e) ∧ d.Survives e ∧
      (d.isGoal 6 = true ∧ e.isLinked 6 = true ∧ e.isGoal 6 = false) ∧
      (d.isGoal 8 = true ∧ e.isLinked 8 = false) ∧
      ∃ x, [x, 8].Sublist (d.children Document.root) ∧ e.isLinked x = true := by
  generalize hops : [Operation.configure { autoComplete := false }, .start ["Q & P", "Q"] "Q & P",
    .apply .andIntro [4], .apply .andElim [1, 5], .resumeText "2"] = ops
  have hfinal : (({} : Session).performAll ops).toOption.any fun s => s.document.any fun d =>
      d.isGoal 6 && d.isGoal 8 && (d.children Document.root).contains 8 &&
        d.checkCompletion.toOption.any fun result =>
          result.2.isLinked 6 && !result.2.isGoal 6 && !result.2.isLinked 8 := by
    rw [← hops]
    decide +kernel
  obtain ⟨s, hrun, hfinal⟩ := exists_ok_of_any hfinal
  obtain ⟨d, hd, hfinal⟩ := (Option.any_eq_true _ _).1 hfinal
  obtain ⟨complete, e, hok, hsurvives, -⟩ := performAll_completion_survives hrun hd
  simp only [hok, Except.toOption, Option.any_some, Bool.and_eq_true, Bool.not_eq_true',
    List.contains_iff_mem] at hfinal
  obtain ⟨⟨⟨hticked, hgoal⟩, hmem⟩, ⟨hlinked, hproved⟩, hgone⟩ := hfinal
  obtain ⟨f, hline⟩ := Document.exists_line?_of_isGoal hgoal
  obtain ⟨x, _, before, -, -, hx⟩ := hsurvives.proved hmem hline hgone
  exact ⟨s, d, complete, e, hrun, hd, hok, hsurvives, ⟨hticked, hlinked, hproved⟩, ⟨hgoal, hgone⟩,
    x, before, hx⟩

/-- In every state of a run, closing the goals leaves a goal that can be closed just where there were
two goals in a row below a line with their formula.  After `n + 1` refreshes another refresh changes
nothing just if there were no `n + 2` such goals in a row anywhere; so some number of refreshes leads
to a document that a refresh leaves as it is. -/
theorem performAll_completion_settles {settings : Settings} {ops : List Operation}
    (hrun : ({ settings } : Session).performAll ops = .ok s) (hd : s.document = some d) :
    (∃ complete e, d.checkCompletion = .ok (complete, e) ∧
      ∀ box, e.Closable box ↔ Role.Due 2 (d.roles box)) ∧
    (∀ n, ∃ complete e, d.Refreshed (n + 1) complete e ∧
      (e.refresh = .ok (complete, e) ↔ ∀ box, ¬ Role.Due (n + 2) (d.roles box))) ∧
    ∃ n complete e, d.Refreshed n complete e ∧ e.refresh = .ok (complete, e) := by
  have hcoherent := ((follows_of_performAll hrun).keeps.document d hd).coherent
  have hrefreshed : ∀ n, ∃ complete e, d.Refreshed (n + 1) complete e ∧
      (e.refresh = .ok (complete, e) ↔ ∀ box, ¬ Role.Due (n + 2) (d.roles box)) := by
    intro n
    obtain ⟨_, e, hsteps, hfresh, rfl, hdue⟩ := hcoherent.refreshed Discipline.lax.repeats n
    refine ⟨_, e, hsteps, ?_⟩
    rw [hfresh.refresh_eq_self_iff Discipline.lax.repeats]
    simp only [hdue 0, Nat.zero_add]
  refine ⟨?_, hrefreshed, ?_⟩
  · obtain ⟨complete, e, hok, -, -, -, hdue⟩ :=
      hcoherent.checkCompletion_due Discipline.lax.repeats
    exact ⟨complete, e, hok, fun box => by rw [Document.closable_iff_due, hdue]⟩
  · obtain ⟨complete, e, hsteps, hself⟩ := hrefreshed d.items.size
    exact ⟨_, complete, e, hsteps,
      hself.2 (hcoherent.linked.not_due (Nat.le_add_right d.items.size 2))⟩

/-- Two goals in a row wait below what is given; a refresh leaves one of them, below the line that
proves it, and a second refresh closes it and with it the proof. -/
theorem performAll_conjunction_refreshes :
    (({} : Session).performAll [.configure { autoComplete := false }, .start ["A"] "A & A",
      .apply .andIntro [3]]).toOption.any (fun s => s.document.any fun d =>
        decide (.premise (.prop "A") :: Role.stack 2 (.prop "A") <:+: d.roles Document.root) &&
          d.refresh.toOption.any fun first => !first.1 &&
            decide (.derived (.prop "A") :: Role.stack 1 (.prop "A") <:+:
              first.2.roles Document.root) &&
            first.2.refresh.toOption.any fun second => second.1) = true := by
  decide +kernel

/-- Two goals in a row below what is given: one of them is left, and refreshing further ends. -/
theorem performAll_completion_settles_conjunction :
    ∃ s d complete e,
      ({} : Session).performAll [.configure { autoComplete := false }, .start ["A"] "A & A",
        .apply .andIntro [3]] = .ok s ∧
      s.document = some d ∧ Role.Due 2 (d.roles Document.root) ∧
      d.checkCompletion = .ok (complete, e) ∧ e.Closable Document.root ∧
      ∃ n complete e, d.Refreshed n complete e ∧ e.refresh = .ok (complete, e) := by
  obtain ⟨s, hrun, hfinal⟩ := exists_ok_of_any performAll_conjunction_refreshes
  obtain ⟨d, hd, hfinal⟩ := (Option.any_eq_true _ _).1 hfinal
  obtain ⟨hwindow, -⟩ := (Bool.and_eq_true _ _).mp hfinal
  have hdue : Role.Due 2 (d.roles Document.root) :=
    ⟨_, .prop "A", Or.inl rfl, of_decide_eq_true hwindow⟩
  obtain ⟨⟨complete, e, hok, hclosable⟩, -, hsettles⟩ := performAll_completion_settles hrun hd
  exact ⟨s, d, complete, e, hrun, hd, hdue, hok, (hclosable _).2 hdue, hsettles⟩

/-- A second refresh closes a goal that the first has left below the line that proves it, and with it
the proof. -/
theorem performAll_refresh_twice :
    ∃ s d e f,
      ({} : Session).performAll [.configure { autoComplete := false }, .start ["A"] "A & A",
        .apply .andIntro [3]] = .ok s ∧
      s.document = some d ∧ d.refresh = .ok (false, e) ∧ e.Closable Document.root ∧
      e.refresh = .ok (true, f) := by
  obtain ⟨s, hrun, hfinal⟩ := exists_ok_of_any performAll_conjunction_refreshes
  obtain ⟨d, hd, hfinal⟩ := (Option.any_eq_true _ _).1 hfinal
  obtain ⟨-, hfinal⟩ := (Bool.and_eq_true _ _).mp hfinal
  obtain ⟨⟨_, e⟩, hrefresh, hfinal⟩ := exists_ok_of_any hfinal
  simp only [Bool.and_eq_true, Bool.not_eq_true', decide_eq_true_eq] at hfinal
  obtain ⟨⟨rfl, hwindow⟩, hfinal⟩ := hfinal
  obtain ⟨⟨_, f⟩, hrefresh', rfl⟩ := exists_ok_of_any hfinal
  refine ⟨s, d, e, f, hrun, hd, hrefresh, Document.closable_iff_due.2 ?_, hrefresh'⟩
  exact ⟨_, .prop "A", Or.inr rfl, hwindow⟩

end NaturalDeduction.Session
