import NaturalDeduction.Proofs.Document.Ordered
import NaturalDeduction.Proofs.Session.Run

/-!
# The order of documents in sessions

Whatever is done in a session, in whatever order and with whatever arguments, its document stays one
ordered tree with numbered lines and citations that go back.  Nothing need be known about the formulas
for this, so the lax discipline is enough.
-/

set_option autoImplicit false

namespace NaturalDeduction

variable {s s' : Session} {d : Document}

/-- Every answer is in the vocabulary of the lax discipline. -/
theorem Discipline.lax_speaks (sig : Signature) (input : Input) :
    input.Speaks (Discipline.lax.vocabulary sig) := by
  cases input with
  | formula _ => trivial
  | choice _ => trivial
  | terms ts => exact fun _ _ => trivial

/-- The lax discipline admits every operation. -/
theorem Discipline.lax_admits (s : Session) (op : Operation) : Discipline.lax.Admits s op := by
  cases op with
  | resume input => exact fun d _ => lax_speaks d.signature input
  | resumeText text => exact fun _ _ _ _ input sig _ => lax_speaks sig input
  | _ => exact fun _ _ _ _ _ => trivial

/-- Any selection and any answer are on offer under the lax discipline. -/
theorem Discipline.lax_offers (d : Document) (selection : Selection) (input : Option Input) :
    d.Offers (Discipline.lax.vocabulary d.signature) selection input where
  line _ _ := trivial
  input i _ := lax_speaks d.signature i

/-- What holds of all operations holds of those of a run. -/
theorem Session.along_of_forall {Allowed : Session → Operation → Prop}
    (h : ∀ s op, Allowed s op) (s : Session) (ops : List Operation) : s.Along Allowed ops := by
  induction ops generalizing s with
  | nil => trivial
  | cons op ops ih => exact ⟨h s op, fun s' _ => ih s'⟩

/-- Every run keeps to the lax discipline. -/
theorem Session.follows_of_performAll {settings : Settings} {ops : List Operation}
    (hrun : ({ settings } : Session).performAll ops = .ok s) :
    s.Follows .lax (taskAfter none ops) :=
  (follows_initial .lax settings).performAll (along_of_forall Discipline.lax_admits _ ops) hrun

/-- After any run of operations the links of the document spell out one ordered tree of the linked
items, the lines are numbered from one on in the order of the tree, and every line that follows by a
rule cites linked items of the boxes around it that come before it. -/
theorem Session.performAll_orderly {settings : Settings} {ops : List Operation}
    (hrun : ({ settings } : Session).performAll ops = .ok s) (hd : s.document = some d) :
    d.Orderly := by
  have hkeeps := (follows_of_performAll hrun).keeps.document d hd
  exact hkeeps.coherent.orderly hkeeps.numbered

/-- A run that builds a box and closes its goal with a line from outside and one from inside. -/
theorem Session.performAll_orderly_implication :
    ∃ s d, ({} : Session).performAll
        [.start ["P"] "Q -> P & Q", .apply .impliesIntro [3], .apply .andIntro [1, 3, 5]] = .ok s ∧
      s.document = some d ∧ d.isComplete = true ∧ d.Orderly := by
  generalize hresult : ({} : Session).performAll
    [.start ["P"] "Q -> P & Q", .apply .impliesIntro [3], .apply .andIntro [1, 3, 5]] = result
  have hcomplete : result.toOption.any fun s => s.document.any Document.isComplete := by
    rw [← hresult]
    decide +kernel
  match result, hresult, hcomplete with
  | .ok { document := some d, .. }, hrun, hcomplete =>
    exact ⟨_, d, rfl, rfl, hcomplete, performAll_orderly hrun rfl⟩

end NaturalDeduction
