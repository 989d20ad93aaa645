import NaturalDeduction.Session
import NaturalDeduction.Proofs.Document.Start
import NaturalDeduction.Proofs.Inference.Run
import NaturalDeduction.Proofs.Reading.Names

/-!
# Runs of sessions

A run of a session is any sequence of operations with any arguments, as `Session.performAll` carries
it out.

What can be said about the documents of a run depends on what is demanded of them; this is fixed by a
`Discipline`.  `Session.Follows.performAll` then says once and for all what operations can do: the
document of every session reached comes from the one its task began with by edits that keep the
discipline, and its lines are numbered.
-/

set_option autoImplicit false

namespace NaturalDeduction

open Document

/-! ### Operations -/

/-- What can be done in a session. -/
inductive Operation where
  | start (givens : List String) (goal : String)
  | apply (rule : Rule) (numbers : List Nat)
  | resume (input : Input)
  | resumeText (text : String)
  | cancel
  | check
  | configure (settings : Settings)

/-- The session after an operation, whatever it answers. -/
def Session.perform (s : Session) : Operation → Except Fault Session
  | .start givens goal => do return (← s.start givens goal).2
  | .apply rule numbers => do return (← s.apply rule numbers).2
  | .resume input => do return (← s.resume input).2
  | .resumeText text => do return (← s.resumeText text).2
  | .cancel => return s.cancel.2
  | .check => do return (← s.check).2
  | .configure settings => return { s with settings }

/-- An answer that is not given as text is a choice. -/
def Operation.choosesOnly : Operation → Bool
  | .resume (.choice _) => true
  | .resume _ => false
  | _ => true

/-- What is to be proved, and from what. -/
structure Task where
  givens : List Formula
  goal : Formula

/-- The task set by an operation, with the names learnt from its texts.  Only a start whose texts can
all be read sets a task. -/
def Operation.task? : Operation → Option (Task × Signature)
  | .start givens goal =>
    let (results, sig) := Formula.parseEach givens {}
    match Formula.parse goal sig with
    | .ok f sig =>
      if (Session.failures 0 results).isEmpty then
        some ({ givens := Session.successes results, goal := f }, sig)
      else none
    | .error _ _ => none
  | _ => none

/-- The session after several operations. -/
def Session.performAll (s : Session) : List Operation → Except Fault Session
  | [] => .ok s
  | op :: ops => do (← s.perform op).performAll ops

/-- Each operation of a run is allowed in the session in which it is performed. -/
def Session.Along (Allowed : Session → Operation → Prop) : Session → List Operation → Prop
  | _, [] => True
  | s, op :: ops => Allowed s op ∧ ∀ s', s.perform op = .ok s' → s'.Along Allowed ops

instance Session.decidableAlong {Allowed : Session → Operation → Prop}
    [∀ s op, Decidable (Allowed s op)] :
    (s : Session) → (ops : List Operation) → Decidable (s.Along Allowed ops)
  | _, [] => .isTrue trivial
  | s, op :: ops =>
    have : Decidable (∀ s', s.perform op = .ok s' → s'.Along Allowed ops) :=
      match hop : s.perform op with
      | .ok s' =>
        have : Decidable (s'.Along Allowed ops) := decidableAlong s' ops
        decidable_of_iff (s'.Along Allowed ops) (by simp)
      | .error e => .isTrue (by simp)
    inferInstanceAs (Decidable (_ ∧ _))

/-- The task that is worked on after several operations: the one that was set last. -/
def taskAfter (task : Option Task) (ops : List Operation) : Option Task :=
  ops.foldl (fun task op => (op.task?.map Prod.fst).or task) task

/-- An outcome that passes a test is there. -/
theorem exists_ok_of_any {ε α : Type} {x : Except ε α} {p : α → Bool}
    (h : x.toOption.any p = true) : ∃ a, x = .ok a ∧ p a = true := by
  cases x with
  | error e => simp [Except.toOption] at h
  | ok a => exact ⟨a, rfl, by simpa [Except.toOption] using h⟩

/-! ### What is learnt from texts -/

/-- The successes of a batch are the formulas that were read. -/
theorem Session.ok_mem_of_mem_successes {results : List (Except ParseError Formula)} {f : Formula} :
    f ∈ successes results ↔ .ok f ∈ results := by
  induction results with
  | nil => simp [successes]
  | cons result results ih => cases result <;> simp [successes, ih]

/-- What a task brings are the constants of its formulas. -/
theorem Operation.task?_learns {op : Operation} {task : Task} {sig : Signature}
    (h : op.task? = some (task, sig)) :
    Learns {} sig fun c => ∃ f ∈ task.goal :: task.givens, c ∈ f.constants := by
  cases op with
  | start givens goal =>
    unfold task? at h
    rcases hread : Formula.parseEach givens {} with ⟨results, mid⟩
    simp only [hread] at h
    cases hparse : Formula.parse goal mid with
    | error e _ => simp [hparse] at h
    | ok g last =>
      simp only [hparse] at h
      split at h
      · obtain ⟨rfl, rfl⟩ := Prod.mk.inj (Option.some.inj h)
        refine ((Formula.parseEach_learns hread).trans (Formula.parse_learns hparse)).congr
          fun c => ?_
        simp only [List.exists_mem_cons_iff, Session.ok_mem_of_mem_successes]
        exact or_comm
      · simp at h
  | _ => simp [task?] at h

/-- An answer that could be read is a formula, some terms or an option, as the question wants it. -/
theorem Session.readInput_eq_ok {kind : InputKind} {text : String} {sig sig' : Signature}
    {input : Input} (h : readInput kind text sig = (.ok input, sig')) :
    (∃ f, input = .formula f ∧ Formula.parse text sig = .ok f sig') ∨
      (∃ ts, input = .terms ts ∧ Term.parseList text sig = .ok ts sig') ∨
        ∃ index, input = .choice index ∧ sig' = sig := by
  cases kind with
  | formula =>
    simp only [readInput] at h
    split at h
    · rename_i f mid hparse
      obtain ⟨hinput, rfl⟩ := Prod.mk.inj h
      exact Or.inl ⟨f, (Except.ok.inj hinput).symm, hparse⟩
    · simp at h
  | terms count =>
    simp only [readInput] at h
    split at h
    · rename_i ts mid hparse
      obtain ⟨hinput, rfl⟩ := Prod.mk.inj h
      exact Or.inr (Or.inl ⟨ts, (Except.ok.inj hinput).symm, hparse⟩)
    · simp at h
  | choice options =>
    simp only [readInput] at h
    split at h
    · rename_i index _
      obtain ⟨hinput, rfl⟩ := Prod.mk.inj h
      exact Or.inr (Or.inr ⟨index, (Except.ok.inj hinput).symm, rfl⟩)
    · simp at h

/-- What an answer given as text brings are its constants. -/
theorem Session.readInput_learns {kind : InputKind} {text : String} {sig sig' : Signature}
    {input : Input} (h : readInput kind text sig = (.ok input, sig')) :
    Learns sig sig' (· ∈ input.constants) := by
  obtain ⟨f, rfl, hparse⟩ | ⟨ts, rfl, hparse⟩ | ⟨index, rfl, rfl⟩ := readInput_eq_ok h
  · exact (Formula.parse_learns hparse).congr fun c => NameSet.mem_toList.symm
  · refine (Term.parseList_learns hparse).1.congr fun c => ?_
    simp [Input.constants, NameSet.mem_toList]
  · exact (Learns.refl sig').congr (by simp [Input.constants])

/-! ### What an operation does -/

/-- A rule that goes on has passed the check of its answer. -/
theorem Document.resume_eq_ok {d e : Document} {settings : Settings} {pending : Pending}
    {input : Input} {outcome : Outcome} (h : d.resume settings pending input = .ok (outcome, e)) :
    (settings.checkSkolemScope = true → d.checkSkolems pending.selection.target input = .ok ()) ∧
      d.run settings pending.rule pending.selection (some input) = .ok (outcome, e) := by
  unfold Document.resume at h
  split at h
  · simp [throw, throwThe, MonadExceptOf.throw] at h
  · dsimp only at h
    split at h
    · simp [throw, throwThe, MonadExceptOf.throw, bind, Except.bind] at h
    · split at h
      · obtain ⟨_, hcheck, h⟩ := bind_eq_ok.1 h
        exact ⟨fun _ => hcheck, h⟩
      · rename_i hscope
        exact ⟨fun hon => absurd hon hscope, h⟩

namespace Session

variable {s s' : Session} {d e : Document}

/-- A rule that an operation lets run: on which document, with which selected lines and which answer.
A document knows the names of an answer that is given as text. -/
inductive Runs (s : Session) : Operation → Document → Rule → Selection → Option Input → Prop
  | begins {d : Document} {rule : Rule} {numbers : List Nat} {selection : Selection}
      (hd : s.document = some d) (hselect : d.select numbers = .ok selection) :
      Runs s (.apply rule numbers) d rule selection none
  | answers {d : Document} {pending : Pending} {input : Input} (hd : s.document = some d)
      (hpending : s.pending = some pending)
      (hscope : s.settings.checkSkolemScope = true →
        d.checkSkolems pending.selection.target input = .ok ()) :
      Runs s (.resume input) d pending.rule pending.selection (some input)
  | answersText {d : Document} {pending : Pending} {text : String} {input : Input} {sig : Signature}
      (hd : s.document = some d) (hpending : s.pending = some pending)
      (hread : readInput pending.request.kind text d.signature = (.ok input, sig))
      (hscope : s.settings.checkSkolemScope = true →
        ({ d with signature := sig } : Document).checkSkolems pending.selection.target input =
          .ok ()) :
      Runs s (.resumeText text) { d with signature := sig } pending.rule pending.selection
        (some input)

/-- An operation begins a task, leaves the document alone, closes goals, or lets a rule run. -/
inductive Turn (s : Session) (op : Operation) (s' : Session) : Prop
  | starts {task : Task} {sig : Signature} {d : Document} (htask : op.task? = some (task, sig))
      (hsettle : (Document.start task.givens task.goal sig).settle s.settings = .ok d)
      (hs' : s' = { s with document := some d, pending := none })
  | stays (htask : op.task? = none) (hdocument : s'.document = s.document)
      (hpending : ∀ pending ∈ s'.pending, pending ∈ s.pending)
      (hsettings : s'.settings = s.settings ∨ op = .configure s'.settings)
  | checks {d e : Document} {complete : Bool} (htask : op.task? = none) (hd : s.document = some d)
      (hrefresh : d.refresh = .ok (complete, e))
      (hs' : s' = { s with document := some e, pending := none })
  | runs {d e : Document} {rule : Rule} {selection : Selection} {input : Option Input}
      {outcome : Outcome} (htask : op.task? = none) (hruns : s.Runs op d rule selection input)
      (hrun : d.run s.settings rule selection input = .ok (outcome, e))
      (hs' : s' = { s with document := some e, pending := outcome.pending? })

/-- Starting begins the task that the texts set, or changes nothing if they set none. -/
theorem start_turn {givens : List String} {goal : String} {answer : Except BatchError Unit}
    (h : s.start givens goal = .ok (answer, s')) : Turn s (.start givens goal) s' := by
  unfold Session.start at h
  rcases hread : Formula.parseEach givens {} with ⟨results, sig⟩
  simp only [hread] at h
  cases hgoal : Formula.parse goal sig with
  | error e mid =>
    simp only [hgoal] at h
    obtain ⟨-, rfl⟩ := Prod.mk.inj (Except.ok.inj h)
    exact .stays (by simp [Operation.task?, hread, hgoal]) rfl (fun _ hp => hp) (Or.inl rfl)
  | ok f sig' =>
    simp only [hgoal] at h
    by_cases hfailed : (failures 0 results).isEmpty = true
    · rw [if_pos hfailed] at h
      obtain ⟨d, hd, h⟩ := bind_eq_ok.1 h
      obtain ⟨-, rfl⟩ := Prod.mk.inj (Except.ok.inj h)
      have htask : (Operation.start givens goal).task? =
          some ({ givens := successes results, goal := f }, sig') := by
        simp [Operation.task?, hread, hgoal, hfailed]
      exact .starts htask hd rfl
    · rw [if_neg hfailed] at h
      obtain ⟨-, rfl⟩ := Prod.mk.inj (Except.ok.inj h)
      exact .stays (by simp [Operation.task?, hread, hgoal, hfailed]) rfl (fun _ hp => hp)
        (Or.inl rfl)

/-- A rule that was refused leaves the session for refusals; the outcome of another one becomes the
next session. -/
theorem conclude_eq_ok {before refused : Session} {result : Except Refusal (Outcome × Document)}
    {answer : Except RuleError Outcome} (h : before.conclude refused result = .ok (answer, s')) :
    (∃ e, answer = .error e ∧ s' = refused) ∨ ∃ outcome e, answer = .ok outcome ∧
      result = .ok (outcome, e) ∧
        s' = { before with document := some e, pending := outcome.pending? } := by
  rcases result with (e | fault) | ⟨outcome, e⟩
  · obtain ⟨rfl, rfl⟩ := Prod.mk.inj (Except.ok.inj h)
    exact Or.inl ⟨e, rfl, rfl⟩
  · simp [conclude] at h
  · obtain ⟨rfl, rfl⟩ := Prod.mk.inj (Except.ok.inj h)
    exact Or.inr ⟨outcome, e, rfl, rfl, rfl⟩

/-- A rule is refused and changes nothing but the rule that waits, or it runs on the selected lines. -/
theorem apply_begins {rule : Rule} {numbers : List Nat} {answer : Except RuleError Outcome}
    (h : s.apply rule numbers = .ok (answer, s')) :
    (∃ e, answer = .error e) ∧ s' = { s with pending := none } ∨
      ∃ d selection outcome e, answer = .ok outcome ∧ s.document = some d ∧
        d.select numbers = .ok selection ∧
        d.run s.settings rule selection none = .ok (outcome, e) ∧
        s' = { s with document := some e, pending := outcome.pending? } := by
  unfold Session.apply at h
  split at h
  · obtain ⟨rfl, rfl⟩ := Prod.mk.inj (Except.ok.inj h)
    exact Or.inl ⟨⟨_, rfl⟩, rfl⟩
  · rename_i d hd
    split at h
    · obtain ⟨rfl, rfl⟩ := Prod.mk.inj (Except.ok.inj h)
      exact Or.inl ⟨⟨_, rfl⟩, rfl⟩
    · obtain ⟨e, rfl, rfl⟩ | ⟨outcome, e, rfl, hbegin, rfl⟩ := conclude_eq_ok h
      · exact Or.inl ⟨⟨e, rfl⟩, rfl⟩
      · obtain ⟨selection, hselect, hrun⟩ := bind_eq_ok.1 hbegin
        exact Or.inr ⟨d, selection, outcome, e, rfl, hd, hselect, hrun, rfl⟩

/-- Applying a rule is a turn. -/
theorem apply_turn {rule : Rule} {numbers : List Nat} {answer : Except RuleError Outcome}
    (h : s.apply rule numbers = .ok (answer, s')) : Turn s (.apply rule numbers) s' := by
  obtain ⟨-, rfl⟩ | ⟨d, selection, outcome, e, -, hd, hselect, hrun, hs'⟩ := apply_begins h
  · exact .stays rfl rfl (by simp) (Or.inl rfl)
  · exact .runs rfl (.begins hd hselect) hrun hs'

/-- An answer is refused and changes nothing, or the rule that waits goes on with it. -/
theorem resume_eq_ok {input : Input} {answer : Except RuleError Outcome}
    (h : s.resume input = .ok (answer, s')) :
    (∃ e, answer = .error e) ∧ s' = s ∨ ∃ d pending outcome e, answer = .ok outcome ∧
      s.document = some d ∧ s.pending = some pending ∧
      (s.settings.checkSkolemScope = true →
        d.checkSkolems pending.selection.target input = .ok ()) ∧
      d.run s.settings pending.rule pending.selection (some input) = .ok (outcome, e) ∧
      s' = { s with document := some e, pending := outcome.pending? } := by
  unfold Session.resume at h
  split at h
  · obtain ⟨rfl, rfl⟩ := Prod.mk.inj (Except.ok.inj h)
    exact Or.inl ⟨⟨_, rfl⟩, rfl⟩
  · obtain ⟨rfl, rfl⟩ := Prod.mk.inj (Except.ok.inj h)
    exact Or.inl ⟨⟨_, rfl⟩, rfl⟩
  · rename_i pending d hpending hd
    obtain ⟨e, rfl, rfl⟩ | ⟨outcome, e, rfl, hresume, rfl⟩ := conclude_eq_ok h
    · exact Or.inl ⟨⟨e, rfl⟩, rfl⟩
    · obtain ⟨hscope, hrun⟩ := Document.resume_eq_ok hresume
      exact Or.inr ⟨d, pending, outcome, e, rfl, hd, hpending, hscope, hrun, rfl⟩

/-- Putting back the signature of the document undoes a change of it. -/
theorem withSignature_restore (hd : s.document = some d) (sig : Signature) :
    (s.withSignature sig).withSignature d.signature = s := by
  obtain ⟨settings, document, pending⟩ := s
  obtain rfl : document = some d := hd
  rfl

/-- What was read from a text is refused and changes nothing, or it is an answer that the rule takes. -/
theorem resumeRead_eq_ok {read : Except AnswerError Input} {answer : Except AnswerError Outcome}
    (h : s.resumeRead read = .ok (answer, s')) :
    (∃ e, answer = .error e) ∧ s' = s ∨ ∃ input outcome, read = .ok input ∧ answer = .ok outcome ∧
      s.resume input = .ok (.ok outcome, s') := by
  cases read with
  | error e =>
    obtain ⟨rfl, rfl⟩ := Prod.mk.inj (Except.ok.inj h)
    exact Or.inl ⟨⟨e, rfl⟩, rfl⟩
  | ok input =>
    obtain ⟨⟨inner, mid⟩, hresume, h⟩ := bind_eq_ok.1 h
    obtain ⟨rfl, rfl⟩ := Prod.mk.inj (Except.ok.inj h)
    obtain ⟨⟨e, rfl⟩, rfl⟩ | ⟨-, -, outcome, -, rfl, -⟩ := resume_eq_ok hresume
    · exact Or.inl ⟨⟨.rule e, rfl⟩, rfl⟩
    · exact Or.inr ⟨input, outcome, rfl, rfl, hresume⟩

/-- An answer given as text is refused and changes nothing, or the rule that waits goes on with what is
read, on the document that knows its names. -/
theorem resumeText_eq_ok {text : String} {answer : Except AnswerError Outcome}
    (h : s.resumeText text = .ok (answer, s')) :
    (∃ e, answer = .error e) ∧ s' = s ∨ ∃ d pending input sig outcome e, answer = .ok outcome ∧
      s.document = some d ∧ s.pending = some pending ∧
      readInput pending.request.kind text d.signature = (.ok input, sig) ∧
      (s.settings.checkSkolemScope = true →
        ({ d with signature := sig } : Document).checkSkolems pending.selection.target input =
          .ok ()) ∧
      ({ d with signature := sig } : Document).run s.settings pending.rule pending.selection
        (some input) = .ok (outcome, e) ∧
      s' = { s with document := some e, pending := outcome.pending? } := by
  unfold Session.resumeText at h
  split at h
  · obtain ⟨rfl, rfl⟩ := Prod.mk.inj (Except.ok.inj h)
    exact Or.inl ⟨⟨_, rfl⟩, rfl⟩
  · obtain ⟨rfl, rfl⟩ := Prod.mk.inj (Except.ok.inj h)
    exact Or.inl ⟨⟨_, rfl⟩, rfl⟩
  · rename_i pending d hpending hd
    rcases hread : readInput pending.request.kind text d.signature with ⟨read, sig⟩
    simp only [hread] at h
    obtain ⟨⟨inner, mid⟩, hinner, h⟩ := bind_eq_ok.1 h
    obtain ⟨⟨e, rfl⟩, rfl⟩ | ⟨input, outcome, rfl, rfl, hresume⟩ := resumeRead_eq_ok hinner
    · -- whether the text or the answer was refused, the names of the text are forgotten
      obtain ⟨rfl, rfl⟩ := Prod.mk.inj (Except.ok.inj h)
      exact Or.inl ⟨⟨e, rfl⟩, withSignature_restore hd sig⟩
    · obtain ⟨rfl, rfl⟩ := Prod.mk.inj (Except.ok.inj h)
      obtain ⟨⟨e, he⟩, -⟩ | ⟨d', pending', _, e, ho, hd', hpending', hscope, hrun, rfl⟩ :=
        resume_eq_ok hresume
      · simp at he
      · obtain rfl := Except.ok.inj ho
        obtain rfl : { d with signature := sig } = d' := by
          simpa [withSignature, hd] using hd'
        obtain rfl : pending = pending' := Option.some.inj (hpending.symm.trans hpending')
        exact Or.inr ⟨d, pending, input, sig, outcome, e, rfl, hd, hpending, hread, hscope, hrun, rfl⟩

/-- Answering in text is a turn. -/
theorem resumeText_turn {text : String} {answer : Except AnswerError Outcome}
    (h : s.resumeText text = .ok (answer, s')) : Turn s (.resumeText text) s' := by
  obtain ⟨-, rfl⟩ | ⟨d, pending, input, sig, outcome, e, -, hd, hpending, hread, hscope, hrun, hs'⟩ :=
    resumeText_eq_ok h
  · exact .stays rfl rfl (fun _ hp => hp) (Or.inl rfl)
  · exact .runs rfl (.answersText hd hpending hread hscope) hrun hs'

/-- Everything that an operation can do. -/
theorem perform_turn {op : Operation} (h : s.perform op = .ok s') : Turn s op s' := by
  cases op with
  | start givens goal =>
    obtain ⟨⟨answer, s₁⟩, hstart, h⟩ := bind_eq_ok.1 h
    obtain rfl := Except.ok.inj h
    exact start_turn hstart
  | apply rule numbers =>
    obtain ⟨⟨answer, s₁⟩, happly, h⟩ := bind_eq_ok.1 h
    obtain rfl := Except.ok.inj h
    exact apply_turn happly
  | resume input =>
    obtain ⟨⟨answer, s₁⟩, hresume, h⟩ := bind_eq_ok.1 h
    obtain rfl := Except.ok.inj h
    obtain ⟨-, rfl⟩ | ⟨d, pending, outcome, e, -, hd, hpending, hscope, hrun, rfl⟩ :=
      resume_eq_ok hresume
    · exact .stays rfl rfl (fun _ hp => hp) (Or.inl rfl)
    · exact .runs rfl (.answers hd hpending hscope) hrun rfl
  | resumeText text =>
    obtain ⟨⟨answer, s₁⟩, hresume, h⟩ := bind_eq_ok.1 h
    obtain rfl := Except.ok.inj h
    exact resumeText_turn hresume
  | cancel =>
    obtain rfl := Except.ok.inj h
    exact .stays rfl rfl (by simp [Session.cancel]) (Or.inl rfl)
  | check =>
    obtain ⟨⟨answer, s₁⟩, hcheck, h⟩ := bind_eq_ok.1 h
    obtain rfl := Except.ok.inj h
    unfold Session.check at hcheck
    split at hcheck
    · obtain ⟨-, rfl⟩ := Prod.mk.inj (Except.ok.inj hcheck)
      exact .stays rfl rfl (by simp) (Or.inl rfl)
    · rename_i d hd
      obtain ⟨⟨complete, e⟩, hrefresh, hcheck⟩ := bind_eq_ok.1 hcheck
      obtain ⟨-, rfl⟩ := Prod.mk.inj (Except.ok.inj hcheck)
      exact .checks rfl hd hrefresh rfl
  | configure settings =>
    obtain rfl := Except.ok.inj h
    exact .stays rfl rfl (fun _ hp => hp) (Or.inr rfl)

end Session

/-! ### Disciplines -/

/-- What is demanded of a document: which formulas may follow from which, and which may be written
down at all, given the names that are known.  The calculus has to obey the discipline when it is
confined to the formulas that may be written down. -/
structure Discipline where
  good : List Meaning → Formula → Prop
  allowed : Signature → Formula → Prop
  vocabulary : Signature → Vocabulary
  mono : ∀ {sig sig' : Signature} {f : Formula},
    (∀ name ∈ sig.constants, name ∈ sig'.constants) → allowed sig f → allowed sig' f
  repeats : ∀ f, good [.formula f] f
  speaks : ∀ {sig f}, allowed sig f → (vocabulary sig).formula f
  fits : ∀ d : Document, (vocabulary d.signature).Fits good allowed d

/-- The discipline that demands nothing. -/
def Discipline.lax : Discipline where
  good _ _ := True
  allowed _ _ := True
  vocabulary sig := .all sig.nextSkolem
  mono _ _ := trivial
  repeats _ := trivial
  speaks _ := trivial
  fits d := Vocabulary.all_fits d

variable {D : Discipline} {s s' : Session} {d e : Document}

/-- Edits that keep a discipline. -/
abbrev Discipline.Edits (D : Discipline) : Document → Document → Prop :=
  Document.Edits D.good D.allowed

/-- A document that keeps a discipline. -/
structure Discipline.Keeps (D : Discipline) (d : Document) : Prop where
  coherent : Coherent D.good d
  numbered : d.Numbered
  allowed : ∀ {id f}, d.formula? id = some f → D.allowed d.signature f

/-- The document of the session keeps the discipline, and the rule that waits can go on. -/
structure Session.Keeps (D : Discipline) (s : Session) : Prop where
  document : ∀ d ∈ s.document, D.Keeps d
  pending : ∀ d ∈ s.document, ∀ pending ∈ s.pending, d.Selects pending.selection

/-- The texts and answers of an operation are in the vocabulary of the discipline. -/
def Discipline.Admits (D : Discipline) (s : Session) : Operation → Prop
  | .resume input => ∀ d ∈ s.document, input.Speaks (D.vocabulary d.signature)
  | .resumeText text => ∀ d ∈ s.document, ∀ pending ∈ s.pending, ∀ input sig,
      Session.readInput pending.request.kind text d.signature = (.ok input, sig) →
        input.Speaks (D.vocabulary sig)
  | op => ∀ task sig, op.task? = some (task, sig) →
      ∀ f ∈ task.goal :: task.givens, D.allowed sig f

namespace Discipline

/-- A document that comes by edits from one that keeps the discipline keeps it too, once its lines are
numbered. -/
theorem Keeps.edits (h : D.Keeps d) (hedits : D.Edits d e) (hnum : e.Numbered) : D.Keeps e where
  coherent := Edits.coherent hedits h.coherent
  numbered := hnum
  allowed := Edits.formulas hedits D.mono h.allowed

/-- A rule that runs on a good selection, with an answer in the vocabulary. -/
theorem Keeps.run (h : D.Keeps d) {selection : Selection} (hsel : d.Selects selection)
    {input : Option Input} (hinput : ∀ i ∈ input, i.Speaks (D.vocabulary d.signature))
    {settings : Settings} {rule : Rule} {outcome : Outcome}
    (hrun : d.run settings rule selection input = .ok (outcome, e)) :
    D.Edits d e ∧ e.Numbered ∧
      ∀ pending, outcome = .needsInput pending → e.Selects pending.selection := by
  have hoffers : Offers (D.vocabulary d.signature) d selection input :=
    ⟨fun _ hf => D.speaks (h.allowed hf), hinput⟩
  obtain ⟨hedits, hnum, hpending⟩ :=
    h.coherent.run_edits h.numbered (D.fits d) D.repeats hsel hoffers hrun
  refine ⟨hedits, hnum, fun pending hout => ?_⟩
  obtain ⟨hselection, rfl⟩ := hpending pending hout
  rwa [hselection]

/-- Names may become known without any change of the lines. -/
theorem Keeps.learn (h : D.Keeps d) {sig : Signature}
    (hsig : ∀ name ∈ d.signature.constants, name ∈ sig.constants) :
    D.Keeps { d with signature := sig } ∧ D.Edits d { d with signature := sig } := by
  obtain ⟨hlinked, hkids⟩ := h.coherent.linked.withSignature sig
  have hedits : D.Edits d { d with signature := sig } :=
    .single (.relabel hlinked hkids (fun _ => rfl) hsig)
  have hnum : ({ d with signature := sig } : Document).Numbered := by
    rw [Numbered, h.coherent.linked.lines_withSignature sig]
    exact h.numbered
  exact ⟨h.edits hedits hnum, hedits⟩

end Discipline

/-- A selection can be made just as well when more names are known. -/
theorem Document.Selects.learn {selection : Selection} (h : d.Selects selection)
    (hlinked : d.WellLinked) (sig : Signature) :
    ({ d with signature := sig } : Document).Selects selection where
  target_line := by
    rw [hlinked.lines_withSignature sig]
    exact h.target_line
  target_open := h.target_open
  visible cite hcite := (visible_congr (hlinked.withSignature sig).2).2 (h.visible cite hcite)
  formula := h.formula
  proved := h.proved

/-! ### Sessions that keep a discipline -/

namespace Session

/-- The second session goes on with the document of the first, which has only been edited. -/
structure Continues (D : Discipline) (s s' : Session) : Prop where
  keeps : s'.Keeps D
  edits : ∀ e ∈ s'.document, ∃ d ∈ s.document, D.Edits d e
  edited : ∀ d ∈ s.document, ∃ e ∈ s'.document, D.Edits d e

/-- A session goes on when its document stays and no other rule waits. -/
theorem Keeps.continues (h : s.Keeps D) (hdocument : s'.document = s.document)
    (hpending : ∀ pending ∈ s'.pending, pending ∈ s.pending) : Continues D s s' where
  keeps := ⟨fun d hd => h.document d (hdocument ▸ hd),
    fun d hd p hp => h.pending d (hdocument ▸ hd) p (hpending p hp)⟩
  edits e he := ⟨e, hdocument ▸ he, .refl⟩
  edited d hd := ⟨d, hdocument ▸ hd, .refl⟩

/-- A session goes on when its document is edited and the rule that waits, if any, can go on. -/
theorem Keeps.continues_of_edits (h : s.Keeps D) (hd : d ∈ s.document)
    (hedits : D.Edits d e) (hnum : e.Numbered) (hdocument : s'.document = some e)
    (hpending : ∀ pending ∈ s'.pending, e.Selects pending.selection) : Continues D s s' where
  keeps := by
    refine ⟨fun e' he' => ?_, fun e' he' p hp => ?_⟩
    · obtain rfl : e = e' := Option.some.inj (hdocument.symm.trans he')
      exact (h.document d hd).edits hedits hnum
    · obtain rfl : e = e' := Option.some.inj (hdocument.symm.trans he')
      exact hpending p hp
  edits e' he' := by
    obtain rfl : e = e' := Option.some.inj (hdocument.symm.trans he')
    exact ⟨d, hd, hedits⟩
  edited d' hd' := by
    obtain rfl : d = d' := Option.some.inj (hd.symm.trans hd')
    exact ⟨e, hdocument, hedits⟩

/-- The document that a task begins with, once it is in order, keeps the discipline. -/
theorem keeps_start {task : Task} {sig : Signature} {settings : Settings}
    (hallowed : ∀ f ∈ task.goal :: task.givens, D.allowed sig f)
    (h : (Document.start task.givens task.goal sig).settle settings = .ok d) :
    D.Keeps d ∧ D.Edits (Document.start task.givens task.goal sig) d := by
  have hstart := start_coherent task.givens task.goal sig D.good
  obtain ⟨e, hok, htidies, hnum⟩ := hstart.settle_tidies D.repeats settings
  have hedits : D.Edits (Document.start task.givens task.goal sig) e := htidies.editsOf
  obtain rfl := Except.ok.inj (hok.symm.trans h)
  refine ⟨⟨Edits.coherent hedits hstart, hnum, Edits.formulas hedits D.mono ?_⟩, hedits⟩
  exact fun hf => hallowed _ (mem_of_formula?_start task.givens task.goal sig hf)

/-- A rule runs on a good selection in a document that keeps the discipline, and its answer is in the
vocabulary.  The document is the one of the session, up to the names of the answer. -/
theorem Runs.keeps {op : Operation} {rule : Rule} {selection : Selection} {input : Option Input}
    (hruns : s.Runs op d rule selection input) (h : s.Keeps D) (hadmits : D.Admits s op) :
    D.Keeps d ∧ d.Selects selection ∧ (∀ i ∈ input, i.Speaks (D.vocabulary d.signature)) ∧
      ∃ before ∈ s.document, D.Edits before d := by
  cases hruns with
  | begins hd hselect =>
    have hkeeps := h.document d hd
    have hcoherent := hkeeps.coherent
    exact ⟨hkeeps, hcoherent.linked.select_selects hkeeps.numbered hselect,
      by simp, d, hd, .refl⟩
  | answers hd hpending _ =>
    refine ⟨h.document d hd, h.pending d hd _ hpending, fun i hi => ?_, d, hd, .refl⟩
    obtain rfl := Option.some.inj hi
    exact hadmits d hd
  | @answersText before pending text input sig hd hpending hread _ =>
    obtain ⟨hkeeps, hedits⟩ := (h.document before hd).learn fun _ => (readInput_learns hread).mono
    refine ⟨hkeeps, (h.pending before hd pending hpending).learn (h.document before hd).coherent.linked
      sig, fun i hi => ?_, before, hd, hedits⟩
    obtain rfl := Option.some.inj hi
    exact hadmits before hd pending hpending input sig hread

/-- What an operation does to a session that keeps a discipline: a new task begins with its own
document, and otherwise the session goes on. -/
theorem Keeps.perform (h : s.Keeps D) {op : Operation} (hadmits : D.Admits s op)
    (hperform : s.perform op = .ok s') :
    (∃ task sig e, op.task? = some (task, sig) ∧ s'.document = some e ∧ s'.Keeps D ∧
      D.Edits (Document.start task.givens task.goal sig) e) ∨
    op.task? = none ∧ Continues D s s' := by
  cases perform_turn hperform with
  | @starts task sig d htask hsettle hs' =>
    have hallowed : ∀ f ∈ task.goal :: task.givens, D.allowed sig f := by
      cases op with
      | start givens goal => exact hadmits task sig htask
      | _ => simp [Operation.task?] at htask
    obtain ⟨hkeeps, hedits⟩ := keeps_start hallowed hsettle
    subst hs'
    refine Or.inl ⟨task, sig, d, htask, rfl, ⟨?_, by simp⟩, hedits⟩
    rintro e ⟨⟩
    exact hkeeps
  | stays htask hdocument hpending _ => exact Or.inr ⟨htask, h.continues hdocument hpending⟩
  | checks htask hd hrefresh hs' =>
    obtain ⟨complete, e, hok, htidies, hnum, -⟩ := (h.document _ hd).coherent.refresh_tidies D.repeats
    obtain ⟨-, rfl⟩ := Prod.mk.inj (Except.ok.inj (hok.symm.trans hrefresh))
    subst hs'
    exact Or.inr ⟨htask, h.continues_of_edits hd htidies.editsOf hnum rfl (by simp)⟩
  | @runs d e rule selection input outcome htask hruns hrun hs' =>
    obtain ⟨hkeeps, hselects, hinput, before, hbefore, hedits⟩ := hruns.keeps h hadmits
    obtain ⟨hedits', hnum, hpending⟩ := hkeeps.run hselects hinput hrun
    subst hs'
    refine Or.inr ⟨htask,
      h.continues_of_edits hbefore (hedits.trans hedits') hnum rfl fun pending hp => ?_⟩
    cases outcome with
    | done => simp [Outcome.pending?] at hp
    | needsInput p =>
      obtain rfl : p = pending := by simpa [Outcome.pending?] using hp
      exact hpending p rfl

/-! ### Runs -/

/-- The session keeps the discipline, and its document comes by edits from the one that the task began
with. -/
structure Follows (D : Discipline) (task : Option Task) (s : Session) : Prop where
  keeps : s.Keeps D
  comes : ∀ e ∈ s.document, ∃ t sig, task = some t ∧
    (∀ f ∈ t.goal :: t.givens, D.allowed sig f) ∧
    D.Edits (Document.start t.givens t.goal sig) e

variable {task : Option Task}

/-- A session without a document follows every discipline. -/
theorem follows_initial (D : Discipline) (settings : Settings) :
    ({ settings } : Session).Follows D none :=
  ⟨⟨by simp, by simp⟩, by simp⟩

/-- An operation that the discipline admits keeps to it, in the task that it begins or in the one
before. -/
theorem Follows.perform (h : s.Follows D task) {op : Operation} (hadmits : D.Admits s op)
    (hperform : s.perform op = .ok s') : s'.Follows D ((op.task?.map Prod.fst).or task) := by
  rcases h.keeps.perform hadmits hperform with
    ⟨t, sig, e, htask, hdocument, hkeeps, hedits⟩ | ⟨htask, hcontinues⟩
  · refine ⟨hkeeps, fun e' he' => ?_⟩
    obtain rfl := Option.some.inj (hdocument.symm.trans he')
    refine ⟨t, sig, by simp [htask], ?_, hedits⟩
    cases op with
    | start givens goal => exact hadmits t sig htask
    | _ => simp [Operation.task?] at htask
  · refine ⟨hcontinues.keeps, fun e he => ?_⟩
    obtain ⟨d, hd, hedits⟩ := hcontinues.edits e he
    obtain ⟨t, sig, rfl, hallowed, hedits'⟩ := h.comes d hd
    exact ⟨t, sig, by simp [htask], hallowed, hedits'.trans hedits⟩

/-- A run whose texts and answers are in the vocabulary of the discipline keeps to it. -/
theorem Follows.performAll {ops : List Operation} (h : s.Follows D task)
    (hadmits : s.Along D.Admits ops) (hperform : s.performAll ops = .ok s') :
    s'.Follows D (taskAfter task ops) := by
  induction ops generalizing s task with
  | nil =>
    obtain rfl := Except.ok.inj hperform
    exact h
  | cons op ops ih =>
    obtain ⟨mid, hmid, hperform⟩ := bind_eq_ok.1 hperform
    exact ih (h.perform hadmits.1 hmid) (hadmits.2 mid hmid) hperform

/-- Operations that are allowed along a run are allowed by all that allows more. -/
theorem Along.imp {Allowed Allowed' : Session → Operation → Prop}
    (himp : ∀ s op, Allowed s op → Allowed' s op) {ops : List Operation}
    (h : s.Along Allowed ops) : s.Along Allowed' ops := by
  induction ops generalizing s with
  | nil => trivial
  | cons op ops ih => exact ⟨himp s op h.1, fun s' hs' => ih (h.2 s' hs')⟩

end Session

end NaturalDeduction
