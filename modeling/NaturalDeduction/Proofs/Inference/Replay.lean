import NaturalDeduction.Proofs.Document.Persistence
import NaturalDeduction.Proofs.Inference.Questions
import NaturalDeduction.Proofs.Inference.Safety

/-!
# Waiting rules in later documents

A rule that waits may be answered after the document has been edited.  If its lines still stand there
and its target is open, it sees the same lines as when it asked, so it goes on as it would have done
then (`Edits.awaits`).  Otherwise the answer is refused: some line is gone, or the target was a goal
that has been justified, and then the rule lacks citations (`Edits.run_of_not_isOpen`).
-/

set_option autoImplicit false

namespace NaturalDeduction.Document

variable {d e : Document} {V : List Meaning → Formula → Prop} {P : Signature → Formula → Prop}

/-! ### What a rule sees later -/

/-- What a target is depends on its kind only. -/
theorem target_congr {id : ItemId} (h : e.core? id = d.core? id) : e.target id = d.target id := by
  rw [target, target, line?_congr h]

/-- A goal is a target with a formula. -/
theorem target_of_isGoal {id : ItemId} (h : d.isGoal id = true) : ∃ g, d.target id = .goal g := by
  rw [isGoal] at h
  cases hline : d.line? id with
  | none => simp [hline] at h
  | some line =>
    rw [hline] at h
    exact ⟨line.1, by rw [target, hline]; exact if_pos h⟩

/-- The formula of a target that is a goal is the one of its line. -/
theorem formula?_of_target {id : ItemId} {g : Formula} (h : d.target id = .goal g) :
    d.formula? id = some g := by
  rw [formula?, target_eq_goal h]
  rfl

/-- A line that is not open counts as a gap. -/
theorem target_of_not_isOpen {id : ItemId} (h : d.isOpen id = false) : d.target id = .gap := by
  rw [isOpen, Bool.or_eq_false_iff] at h
  cases htarget : d.target id with
  | gap => rfl
  | goal g => simp [isGoal, target_eq_goal htarget, Justification.isGoal] at h

/-- The cited formulas are those of the cited lines. -/
theorem citedLines_formulas {ids : List ItemId} {cites : List CitedLine}
    (h : d.citedLines ids = .ok cites) :
    (cites.map CitedLine.formula).map some = ids.map d.formula? := by
  induction ids generalizing cites with
  | nil =>
    obtain rfl := Except.ok.inj h
    rfl
  | cons id ids ih =>
    rw [citedLines] at h
    obtain ⟨first, hfirst, h⟩ := bind_eq_ok.1 h
    obtain ⟨rest, hrest, h⟩ := bind_eq_ok.1 h
    obtain rfl := Except.ok.inj h
    simp only [List.map_cons, ih hrest, (citedLine_eq_ok hfirst).2]

/-- The formulas that a rule sees are those of the selected lines. -/
theorem situation_formulas {rule : Rule} {selection : Selection} {s : Situation}
    (h : d.situation rule selection = .ok s) :
    (s.cites.map CitedLine.formula).map some = selection.cites.map d.formula? := by
  unfold situation at h
  obtain ⟨cites, hcites, h⟩ := bind_eq_ok.1 h
  obtain rfl := Except.ok.inj h
  exact citedLines_formulas hcites

/-- A rule sees the same lines as long as they can be worked on. -/
theorem Edits.sameLines (h : Edits V P d e) {selection : Selection} (hsel : d.Selects selection)
    (hopen : e.isOpen selection.target = true) {rule : Rule} {s s' : Situation}
    (hs : d.situation rule selection = .ok s) (hs' : e.situation rule selection = .ok s') :
    s.SameLines s' where
  target := by
    have hcore := core?_of_isOpen h (lt_size_of_isOpen hsel.target_open) hopen
    rw [(situation_eq_ok hs).1, (situation_eq_ok hs').1, target_congr hcore]
  formulas := by
    have hkept : selection.cites.map e.formula? = selection.cites.map d.formula? := by
      refine List.map_congr_left fun cite hcite => ?_
      obtain ⟨f, hf⟩ := Option.isSome_iff_exists.1 (hsel.formula cite hcite)
      rw [hf, formula?_eq h hf]
    rw [← situation_formulas hs, ← situation_formulas hs'] at hkept
    exact List.map_injective_iff.2 (fun _ _ => Option.some.inj) hkept

/-- A rule that waits asks the same question about the lines as they are now. -/
theorem Edits.awaits (h : Edits V P d e) {pending : Pending} (hsel : d.Selects pending.selection)
    (hawaits : d.Awaits pending) (hsel' : e.Selects pending.selection) : e.Awaits pending := by
  obtain ⟨s, next, hs, hask⟩ := hawaits
  obtain ⟨s', hs'⟩ := hsel'.situation_total pending.rule
  have hsame := sameLines h hsel hsel'.target_open hs hs'
  exact ⟨s', s'.nextSkolem, hs', (pending.rule.handler_asks hask).again ⟨hsame.target, hsame.formulas⟩⟩

/-! ### Answers that come too late -/

/-- An answer is refused if the selected lines are no longer there. -/
theorem resume_of_not_holds {pending : Pending} (h : d.holds pending.selection = false)
    (settings : Settings) (input : Input) :
    ∃ err, d.resume settings pending input = .error (.rule err) := by
  unfold resume
  cases input.check pending.request with
  | error err => exact ⟨err, rfl⟩
  | ok checked => exact ⟨.stalePending, by rw [h]; rfl⟩

/-- A rule whose handler refuses refuses. -/
theorem run_of_refused {rule : Rule} {selection : Selection} {s : Situation}
    (hs : d.situation rule selection = .ok s) {input : Option Input} {err : RuleError}
    (h : rule.handler s input = .error (.rule err)) (settings : Settings) :
    d.run settings rule selection input = .error (.rule err) := by
  simp only [run, hs, Refusal.lift, h, bind, Except.bind]

/-- A rule that asked about a goal is refused once the goal is justified: it finds no goal, and to be
used at an empty line it lacks citations. -/
theorem Edits.run_of_not_isOpen (h : Edits V P d e) {pending : Pending}
    (hsel : d.Selects pending.selection) (hawaits : d.Awaits pending)
    (hclosed : e.isOpen pending.selection.target = false) (settings : Settings)
    (input : Option Input) :
    ∃ err, e.run settings pending.rule pending.selection input = .error (.rule err) := by
  obtain ⟨s, next, hs, hask⟩ := hawaits
  obtain ⟨g, hg⟩ := target_of_isGoal (isGoal_of_not_isOpen h hsel.target_open hclosed)
  obtain ⟨hnil, hrefused⟩ := (pending.rule.handler_asks hask).refused ((situation_eq_ok hs).1.trans hg)
  have hcites : pending.selection.cites = [] := by
    have hformulas := situation_formulas hs
    rw [hnil] at hformulas
    simpa using hformulas.symm
  obtain ⟨s', hs'⟩ : ∃ s', e.situation pending.rule pending.selection = .ok s' := by
    rw [situation, hcites]
    exact ⟨_, rfl⟩
  have hnil' : s'.cites = [] := by
    have hformulas := situation_formulas hs'
    rw [hcites] at hformulas
    simpa using hformulas
  have hgap := (situation_eq_ok hs').1.trans (target_of_not_isOpen hclosed)
  obtain ⟨expected, herr⟩ := hrefused s' input hgap hnil'
  exact ⟨_, run_of_refused hs' herr settings⟩

/-- An answer is refused if the rule is refused with it. -/
theorem WellLinked.resume_of_refused (h : d.WellLinked) {pending : Pending}
    (hline : pending.selection.target ∈ d.lines) {settings : Settings} {input : Input}
    (hrun : ∃ err, d.run settings pending.rule pending.selection (some input) = .error (.rule err)) :
    ∃ err, d.resume settings pending input = .error (.rule err) := by
  unfold resume
  cases input.check pending.request with
  | error err => exact ⟨err, rfl⟩
  | ok checked =>
    dsimp only
    split
    · exact ⟨.stalePending, rfl⟩
    · split
      · rcases hskolems : d.checkSkolems pending.selection.target input with (err | fault) | checked
        · exact ⟨err, rfl⟩
        · have hgives := h.gives_checkSkolems hline input
          rw [hskolems] at hgives
          exact hgives.elim
        · exact hrun
      · exact hrun

/-- After edits an answer is refused, or the lines of the rule can still be worked on and the rule still
waits. -/
theorem Coherent.resume_cases (hd : Coherent V d) (h : Edits V P d e) {pending : Pending}
    (hsel : d.Selects pending.selection) (hawaits : d.Awaits pending) (settings : Settings)
    (input : Input) :
    (∃ err, e.resume settings pending input = .error (.rule err)) ∨
      e.Selects pending.selection ∧ e.Awaits pending := by
  have he := Edits.coherent h hd
  by_cases hholds : e.holds pending.selection = true
  · rw [holds, Bool.and_eq_true, List.all_eq_true] at hholds
    obtain ⟨htarget, hcites⟩ := hholds
    cases hopen : e.isOpen pending.selection.target with
    | true =>
      have hsel' := Edits.selects h hd hsel htarget hcites hopen
      exact Or.inr ⟨hsel', Edits.awaits h hsel hawaits hsel'⟩
    | false =>
      have hgoal := Edits.isGoal_of_not_isOpen h hsel.target_open hopen
      obtain ⟨g, hg⟩ := target_of_isGoal hgoal
      obtain ⟨line, hline, -⟩ := Option.map_eq_some_iff.1 (Edits.formula?_eq h (formula?_of_target hg))
      have hmem := (he.linked.mem_lines_iff he.rooted).2 ⟨htarget, isBox_of_line? hline⟩
      exact Or.inl (he.linked.resume_of_refused hmem
        (Edits.run_of_not_isOpen h hsel hawaits hopen settings (some input)))
  · exact Or.inl (resume_of_not_holds (Bool.eq_false_iff.2 hholds) settings input)

end NaturalDeduction.Document
