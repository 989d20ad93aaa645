import NaturalDeduction.Proofs.Inference.Replay
import NaturalDeduction.Proofs.Session.Safety

/-!
# Replaying waiting rules

A session keeps at most one rule that waits.  Here all rules that have ever asked are kept, on a
`Desk`, and each may be answered at any time and any number of times, also after it has been answered
or after the document has changed.

This does no harm.  A desk remembers of each question the document about which it was asked; the
present document comes from that one by edits, so `Document.Coherent.resume_cases` says what becomes of
the answer (`Desk.Keeps.perform`).
-/

set_option autoImplicit false

namespace NaturalDeduction

open Document

/-! ### Desks -/

/-- A question that a rule has asked, with the document about which it asked. -/
structure Question where
  pending : Pending
  document : Document

/-- A document, with all the questions that have been asked about it so far. -/
structure Desk where
  document : Document
  asked : List Question := []

/-- What can be done at a desk. -/
inductive Call where
  | begin (settings : Settings) (rule : Rule) (numbers : List Nat)
  | resume (settings : Settings) (pending : Pending) (input : Input)

namespace Desk

/-- The desk of a proof that has just begun. -/
def new (givens : List Formula) (goal : Formula) (sig : Signature) : Desk where
  document := .start givens goal sig

/-- What a rule comes to, and the desk after it.  A rule that is refused changes nothing, and a
question is added to the others. -/
def conclude (k : Desk) :
    Except Refusal (Outcome × Document) → Except Fault (Except RuleError Outcome × Desk)
  | .ok (.done, d) => .ok (.ok .done, { k with document := d })
  | .ok (.needsInput pending, d) =>
    .ok (.ok (.needsInput pending),
      { document := d, asked := { pending, document := k.document } :: k.asked })
  | .error (.rule e) => .ok (.error e, k)
  | .error (.fault fault) => .error fault

/-- The answer to a call, and the desk after it. -/
def perform (k : Desk) : Call → Except Fault (Except RuleError Outcome × Desk)
  | .begin settings rule numbers => k.conclude (k.document.begin settings rule numbers)
  | .resume settings pending input => k.conclude (k.document.resume settings pending input)

/-- The desk after several calls. -/
def performAll (k : Desk) : List Call → Except Fault Desk
  | [] => .ok k
  | call :: calls => do (← k.perform call).2.performAll calls

/-- Rules are begun on lines that are there, and only questions that have been asked are answered. -/
def Admits (k : Desk) : Call → Prop
  | .begin _ _ numbers => ∀ number ∈ numbers, (k.document.findLine? number).isSome
  | .resume _ pending _ => ∃ question ∈ k.asked, question.pending = pending

/-- Each of several calls is admitted at the desk at which it is made. -/
def AdmitsAll : Desk → List Call → Prop
  | _, [] => True
  | k, call :: calls => k.Admits call ∧ ∀ answer k', k.perform call = .ok (answer, k') →
      k'.AdmitsAll calls

/-- The call answers a question about a goal, and the goal no longer stands in the document as a
goal. -/
def Outdated (k : Desk) : Call → Prop
  | .begin _ _ _ => False
  | .resume _ pending _ => ∃ question ∈ k.asked, question.pending = pending ∧
      question.document.isGoal pending.selection.target = true ∧
      ¬ (k.document.isLinked pending.selection.target = true ∧
        k.document.isGoal pending.selection.target = true)

instance (k : Desk) : (call : Call) → Decidable (k.Admits call)
  | .begin _ _ numbers =>
    inferInstanceAs (Decidable (∀ number ∈ numbers, (k.document.findLine? number).isSome))
  | .resume _ pending _ =>
    inferInstanceAs (Decidable (∃ question ∈ k.asked, question.pending = pending))

instance (k : Desk) : (call : Call) → Decidable (k.Outdated call)
  | .begin _ _ _ => inferInstanceAs (Decidable False)
  | .resume _ pending _ => inferInstanceAs (Decidable (∃ question ∈ k.asked,
      question.pending = pending ∧ question.document.isGoal pending.selection.target = true ∧
      ¬ (k.document.isLinked pending.selection.target = true ∧
        k.document.isGoal pending.selection.target = true)))

instance decidableAdmitsAll : (k : Desk) → (calls : List Call) → Decidable (k.AdmitsAll calls)
  | _, [] => .isTrue trivial
  | k, call :: calls =>
    have : Decidable (∀ answer k', k.perform call = .ok (answer, k') → k'.AdmitsAll calls) :=
      match k.perform call with
      | .ok (_, k') =>
        have : Decidable (k'.AdmitsAll calls) := decidableAdmitsAll k' calls
        decidable_of_iff (k'.AdmitsAll calls) (by simp)
      | .error _ => .isTrue (by simp)
    inferInstanceAs (Decidable (_ ∧ _))

end Desk

/-! ### Rules at a desk -/

variable {d : Document}

/-- What a rule comes to does not spoil a document: the rule is refused, or it edits the document and
leaves it numbered.  If it asks, it leaves the document alone and asks about lines of it. -/
def Document.Advances (d : Document) : Except Refusal (Outcome × Document) → Prop
  | .error (.rule _) => True
  | .error (.fault _) => False
  | .ok (outcome, e) => Discipline.lax.Edits d e ∧ e.Numbered ∧
      ∀ pending, outcome = .needsInput pending →
        e = d ∧ d.Selects pending.selection ∧ d.Awaits pending

/-- A rule that is begun on lines that are there leads on from a document that is in order. -/
theorem Discipline.Keeps.advances_begin (h : lax.Keeps d) {numbers : List Nat}
    (hfound : ∀ number ∈ numbers, (d.findLine? number).isSome) (settings : Settings) (rule : Rule) :
    d.Advances (d.begin settings rule numbers) := by
  have hready : ({ document := some d } : Session).Ready := by
    refine ⟨⟨?_, by simp⟩, by simp⟩
    rintro e ⟨⟩
    exact h
  have hgives := hready.gives_begin rfl hfound settings rule
  rcases hbegin : d.begin settings rule numbers with (err | fault) | ⟨outcome, e⟩
  · trivial
  · rw [hbegin] at hgives
    exact hgives.elim
  · rw [hbegin] at hgives
    obtain ⟨selection, hselect, hrun⟩ := bind_eq_ok.1 hbegin
    have hsel := h.coherent.linked.select_selects h.numbered hselect
    obtain ⟨hedits, hnum, hpending⟩ := h.run hsel (by simp) hrun
    refine ⟨hedits, hnum, fun pending hout => ?_⟩
    obtain ⟨rfl, hawaits⟩ := hgives pending hout
    exact ⟨rfl, hpending pending hout, hawaits⟩

/-- The question was asked in good order, and the document comes by edits from the one about which it
was asked. -/
structure Question.Stands (question : Question) (d : Document) : Prop where
  keeps : Discipline.lax.Keeps question.document
  selects : question.document.Selects question.pending.selection
  awaits : question.document.Awaits question.pending
  edits : Discipline.lax.Edits question.document d

namespace Question.Stands

variable {question : Question} (h : question.Stands d)
include h

/-- A rule that is answered, however late, leads on from the present document. -/
theorem advances_resume (hd : Discipline.lax.Keeps d) (settings : Settings) (input : Input) :
    d.Advances (d.resume settings question.pending input) := by
  obtain ⟨err, herr⟩ | ⟨hsel, hawaits⟩ :=
    h.keeps.coherent.resume_cases h.edits h.selects h.awaits settings input
  · rw [herr]
    trivial
  · have hgives := hd.coherent.gives_resume (Discipline.lax.fits d) Discipline.lax.repeats hsel hawaits
      (Discipline.lax_offers d _ (some input)) settings
    rcases hresume : d.resume settings question.pending input with (err | fault) | ⟨outcome, e⟩
    · trivial
    · rw [hresume] at hgives
      exact hgives.elim
    · rw [hresume] at hgives
      obtain ⟨-, hrun⟩ := Document.resume_eq_ok hresume
      obtain ⟨hedits, hnum, -⟩ :=
        hd.run hsel (fun i _ => Discipline.lax_speaks d.signature i) hrun
      refine ⟨hedits, hnum, fun pending hout => ?_⟩
      exact absurd (hout.symm.trans hgives) (by simp)

/-- An answer to a question about a goal that is a goal no more is refused. -/
theorem resume_refused (hgoal : question.document.isGoal question.pending.selection.target = true)
    (hgone : ¬ (d.isLinked question.pending.selection.target = true ∧
      d.isGoal question.pending.selection.target = true)) (settings : Settings) (input : Input) :
    ∃ err, d.resume settings question.pending input = .error (.rule err) := by
  refine (h.keeps.coherent.resume_cases h.edits h.selects h.awaits settings input).resolve_right ?_
  rintro ⟨hsel, -⟩
  have hcoherent := Edits.coherent h.edits h.keeps.coherent
  have hcore := Edits.core?_of_isOpen h.edits (lt_size_of_isOpen h.selects.target_open)
    hsel.target_open
  exact hgone ⟨((hcoherent.linked.mem_lines_iff hcoherent.rooted).1 hsel.target_line).1,
    (isGoal_congr hcore).trans hgoal⟩

/-- A question that stands still stands after further edits. -/
theorem trans {e : Document} (hedits : Discipline.lax.Edits d e) : question.Stands e :=
  ⟨h.keeps, h.selects, h.awaits, h.edits.trans hedits⟩

end Question.Stands

/-! ### Runs at a desk -/

namespace Desk

variable {k : Desk}

/-- The document of the desk is in good order, and so are the questions that have been asked about
it. -/
structure Keeps (k : Desk) : Prop where
  document : Discipline.lax.Keeps k.document
  asked : ∀ question ∈ k.asked, question.Stands k.document

/-- What a rule comes to leads to a next desk.  It is the same desk if the rule is refused. -/
theorem Keeps.conclude (h : k.Keeps) {result : Except Refusal (Outcome × Document)}
    (hresult : k.document.Advances result) :
    ∃ answer k', k.conclude result = .ok (answer, k') ∧ k'.Keeps ∧
      (∀ err, answer = .error err → k' = k) ∧
        ∀ err, result = .error (.rule err) → answer = .error err := by
  rcases result with (err | fault) | ⟨outcome, e⟩
  · refine ⟨.error err, k, rfl, h, fun _ _ => rfl, fun err' herr => ?_⟩
    obtain rfl := Refusal.rule.inj (Except.error.inj herr)
    rfl
  · exact hresult.elim
  · obtain ⟨hedits, hnum, hasks⟩ := hresult
    have hkeeps := h.document.edits hedits hnum
    have hasked : ∀ question ∈ k.asked, question.Stands e := fun question hmem =>
      (h.asked question hmem).trans hedits
    cases outcome with
    | done => exact ⟨.ok .done, _, rfl, ⟨hkeeps, hasked⟩, by simp, by simp⟩
    | needsInput pending =>
      obtain ⟨rfl, hsel, hawaits⟩ := hasks pending rfl
      refine ⟨.ok (.needsInput pending), _, rfl, ⟨hkeeps, fun question hmem => ?_⟩, by simp, by simp⟩
      rcases List.mem_cons.1 hmem with rfl | hmem
      · exact ⟨h.document, hsel, hawaits, .refl⟩
      · exact hasked question hmem

/-- A call that is admitted is carried out.  If it is refused, the desk stays as it was; and it is
refused if it answers a question about a goal that is a goal no more. -/
theorem Keeps.perform (h : k.Keeps) {call : Call} (hadmits : k.Admits call) :
    ∃ answer k', k.perform call = .ok (answer, k') ∧ k'.Keeps ∧
      (∀ err, answer = .error err → k' = k) ∧ (k.Outdated call → ∃ err, answer = .error err) := by
  cases call with
  | begin settings rule numbers =>
    obtain ⟨answer, k', hperform, hkeeps, hsame, -⟩ :=
      h.conclude (h.document.advances_begin hadmits settings rule)
    exact ⟨answer, k', hperform, hkeeps, hsame, False.elim⟩
  | resume settings pending input =>
    obtain ⟨question, hmem, rfl⟩ := hadmits
    obtain ⟨answer, k', hperform, hkeeps, hsame, hrefused⟩ :=
      h.conclude ((h.asked question hmem).advances_resume h.document settings input)
    refine ⟨answer, k', hperform, hkeeps, hsame, ?_⟩
    rintro ⟨other, hother, hpending, hgoal, hgone⟩
    rw [← hpending] at hgoal hgone
    obtain ⟨err, herr⟩ := (h.asked other hother).resume_refused hgoal hgone settings input
    exact ⟨err, hrefused err (hpending ▸ herr)⟩

/-- Calls that are admitted one after the other are all carried out, and the desk stays in order. -/
theorem Keeps.performAll {calls : List Call} (h : k.Keeps) (hadmits : k.AdmitsAll calls) :
    ∃ k', k.performAll calls = .ok k' ∧ k'.Keeps := by
  induction calls generalizing k with
  | nil => exact ⟨k, rfl, h⟩
  | cons call calls ih =>
    obtain ⟨hcall, hcalls⟩ := hadmits
    obtain ⟨answer, next, hperform, hkeeps, -⟩ := h.perform hcall
    obtain ⟨k', hrun, hkeeps'⟩ := ih hkeeps (hcalls answer next hperform)
    exact ⟨k', by rw [Desk.performAll, hperform]; exact hrun, hkeeps'⟩

end Desk
end NaturalDeduction
