import NaturalDeduction.Proofs.Inference.Safety
import NaturalDeduction.Proofs.Session.Order
import NaturalDeduction.Proofs.Snapshot.Rows

/-!
# Sessions do not fault

A session is `Ready` when its document holds together and the rule that waits, if any, has asked its
question about lines of this document.  A ready session carries out every operation, and it is ready
again afterwards; so no run of operations comes to a fault, whatever the texts, rules, numbers and
answers are.
-/

set_option autoImplicit false

namespace NaturalDeduction

open Document

/-! ### The table -/

/-- The items that an item names: its box, its neighbours, the first item in it, and what it cites. -/
def Item.named (item : Item) : List ItemId :=
  item.parent.toList ++ item.prev.toList ++ item.next.toList ++
    match item.kind with
    | .box data => data.head.toList
    | .line _ (.byRule _ cites) _ => cites
    | _ => []

/-- What a linked item names is in the table. -/
theorem Document.Coherent.lt_size_of_named {V : List Meaning → Formula → Prop} {d : Document}
    {id other : ItemId} {item : Item} (h : Coherent V d) (hlinked : d.isLinked id = true)
    (hitem : d.items[id]? = some item) (hother : other ∈ item.named) : other < d.items.size := by
  have hlt : ∀ {box j}, j ∈ d.children box → j < d.items.size := h.linked.linkedBy.lt_size
  -- the neighbours of an item stand in its box
  have hbeside : ∀ {j}, d.prev? id = some j ∨ d.next? id = some j → j < d.items.size := by
    intro j hj
    cases hparent : d.parent? id with
    | none =>
      obtain ⟨hprev, hnext⟩ := h.linked.linkedBy.free hparent
      simp [hprev, hnext] at hj
    | some box =>
      obtain ⟨xs, ys, hrow⟩ := List.append_of_mem (h.linked.mem_children_iff.2 hparent)
      obtain ⟨-, hprev, hnext⟩ := h.linked.linkedBy.place hrow
      rw [hprev, hnext] at hj
      have hmem : j ∈ d.children box := by
        rw [hrow]
        rcases hj with hj | hj
        · exact List.mem_append_left _ (List.mem_of_getLast? hj)
        · exact List.mem_append_right _ (List.mem_cons_of_mem _ (List.mem_of_head? hj))
      exact hlt hmem
  have hkind : d.kind? id = some item.kind := by rw [kind?, hitem]; rfl
  simp only [Item.named, List.mem_append, Option.mem_toList] at hother
  rcases hother with ((hparent | hprev) | hnext) | hinner
  · exact lt_size_of_isBox (h.linked.linkedBy.isBox_of_mem
      (h.linked.mem_children_iff.2 (by rw [parent?, hitem]; exact hparent)))
  · exact hbeside (Or.inl (by rw [prev?, hitem]; exact hprev))
  · exact hbeside (Or.inr (by rw [next?, hitem]; exact hnext))
  · rcases hcase : item.kind with ⟨f, _ | _ | _ | ⟨rule, cites⟩, n⟩ | n | ⟨names, n⟩ | data
    all_goals simp only [hcase, Option.mem_toList, List.not_mem_nil] at hinner
    · have hline : d.line? id = some (f, .byRule rule cites) := by simp [line?, hkind, hcase]
      obtain ⟨-, m, hm⟩ := h.cited hlinked hline hinner
      exact lt_size_of_meaning? hm
    · have hhead : d.head? id = some other := by simp [head?, box?, hkind, hcase, hinner]
      rw [h.linked.linkedBy.head] at hhead
      exact hlt (List.mem_of_head? hhead)

namespace Session

variable {s s' : Session} {d : Document}

/-! ### Ready sessions -/

/-- The document holds together, and the rule that waits has asked its question there. -/
structure Ready (s : Session) : Prop where
  keeps : s.Keeps .lax
  awaits : ∀ d ∈ s.document, ∀ pending ∈ s.pending, d.Awaits pending

/-- A rule is begun on any numbers of lines that are there, without a fault, and if it asks, then
about this document. -/
theorem Ready.gives_begin (h : s.Ready) (hd : d ∈ s.document) {numbers : List Nat}
    (hfound : ∀ number ∈ numbers, (d.findLine? number).isSome) (settings : Settings) (rule : Rule) :
    Gives (d.begin settings rule numbers) fun result =>
      ∀ pending, result.1 = .needsInput pending → result.2 = d ∧ d.Awaits pending := by
  have hkeeps := h.keeps.document d hd
  have hcoherent := hkeeps.coherent
  unfold Document.begin
  rw [gives_bind]
  refine (hcoherent.linked.gives_select hkeeps.numbered hfound).imp
    fun selection hsel => ?_
  obtain ⟨sit, hsit⟩ := hsel.situation_total rule
  refine (hcoherent.gives_run (Discipline.lax.fits d) Discipline.lax.repeats hsel
    (Discipline.lax_offers d selection none) hsit (rule.handler_settles sit sit.nextSkolem)
    settings).imp ?_
  rintro ⟨outcome, e⟩ (hdone | ⟨request, -, hask, heq⟩) pending houtcome
  · exact absurd (houtcome.symm.trans hdone) (by simp)
  · obtain ⟨rfl, rfl⟩ := Prod.mk.inj heq
    obtain rfl := Outcome.needsInput.inj houtcome
    exact ⟨rfl, sit, sit.nextSkolem, hsit, hask⟩

/-- The rule that waits goes on with any answer, after any names have become known. -/
theorem Ready.gives_resume (h : s.Ready) (hd : d ∈ s.document) {pending : Pending}
    (hpending : pending ∈ s.pending) {sig : Signature}
    (hsig : ∀ name ∈ d.signature.constants, name ∈ sig.constants) (settings : Settings)
    (input : Input) :
    Gives (({ d with signature := sig } : Document).resume settings pending input)
      fun result => result.1 = .done := by
  obtain ⟨hkeeps, -⟩ := (h.keeps.document d hd).learn hsig
  have hlinked := (h.keeps.document d hd).coherent.linked
  exact hkeeps.coherent.gives_resume (Discipline.lax.fits _) Discipline.lax.repeats
    ((h.keeps.pending d hd pending hpending).learn hlinked sig)
    ((h.awaits d hd pending hpending).learn sig) (Discipline.lax_offers _ _ _) settings

/-- What does not fault leads to a next session: the one for refusals, or one with the outcome. -/
theorem conclude_total (before refused : Session) {result : Except Refusal (Outcome × Document)}
    {p : Outcome × Document → Prop} (h : Gives result p) :
    ∃ answer s', before.conclude refused result = .ok (answer, s') ∧ answer ≠ .error .stalePending ∧
      ((∃ e, answer = .error e) ∧ s' = refused ∨ ∃ outcome e, answer = .ok outcome ∧
        p (outcome, e) ∧ s' = { before with document := some e, pending := outcome.pending? }) := by
  rcases result with (e | fault) | ⟨outcome, e⟩
  · exact ⟨.error e, refused, rfl, by simpa using h, Or.inl ⟨⟨e, rfl⟩, rfl⟩⟩
  · exact h.elim
  · exact ⟨.ok outcome, _, rfl, by simp, Or.inr ⟨outcome, e, rfl, h, rfl⟩⟩

/-! ### Operations of a ready session -/

/-- Reading an answer does not find the rule stale. -/
theorem readInput_ne_stalePending (kind : InputKind) (text : String) (sig : Signature) :
    (readInput kind text sig).1 ≠ .error (.rule .stalePending) := by
  cases kind with
  | formula =>
    rw [readInput]
    split <;> simp
  | terms count =>
    rw [readInput]
    split <;> simp
  | choice options =>
    rw [readInput]
    split <;> simp

/-- Starting a task does not fault; it is refused and changes nothing, or no rule waits afterwards.
-/
theorem start_total (s : Session) (givens : List String) (goal : String) :
    ∃ answer s', s.start givens goal = .ok (answer, s') ∧ (s' = s ∨ s'.pending = none) := by
  unfold Session.start
  rcases Formula.parseEach givens {} with ⟨results, sig⟩
  cases hgoal : Formula.parse goal sig with
  | error e mid => exact ⟨_, s, by simp only [hgoal]; rfl, Or.inl rfl⟩
  | ok f sig' =>
    simp only [hgoal]
    split
    · have hcoherent := start_coherent (successes results) f sig' fun _ _ => True
      obtain ⟨e, hsettle, -, -⟩ := hcoherent.settle_tidies (fun _ => trivial) s.settings
      exact ⟨.ok (), { s with document := some e, pending := none }, by rw [hsettle]; rfl, Or.inr rfl⟩
    · exact ⟨_, s, rfl, Or.inl rfl⟩

/-- A rule can be begun, and if it waits then, it has asked. -/
theorem Ready.apply_total (h : s.Ready) (rule : Rule) (numbers : List Nat) :
    ∃ answer s', s.apply rule numbers = .ok (answer, s') ∧
      ∀ d ∈ s'.document, ∀ pending ∈ s'.pending, d.Awaits pending := by
  unfold Session.apply
  cases hd : s.document with
  | none => exact ⟨_, _, rfl, by simp⟩
  | some d =>
    cases hfind : numbers.find? fun number => (d.findLine? number).isNone with
    | some number =>
      exact ⟨.error (.noSuchLine number), { s with pending := none }, by simp [hd, hfind], by simp⟩
    | none =>
      have hfound : ∀ number ∈ numbers, (d.findLine? number).isSome := by
        simpa [List.find?_eq_none, ← Option.isSome_iff_ne_none] using hfind
      obtain ⟨answer, s', hconclude, -, hcases⟩ :=
        conclude_total { s with pending := none } { s with pending := none }
          (h.gives_begin hd hfound s.settings rule)
      refine ⟨answer, s', by simpa [hd, hfind] using hconclude, ?_⟩
      rcases hcases with ⟨-, rfl⟩ | ⟨outcome, e, -, hawaits, rfl⟩
      · simp
      · intro d' hd' pending hpending
        cases outcome with
        | done => simp [Outcome.pending?] at hpending
        | needsInput p =>
          obtain rfl : p = pending := by simpa [Outcome.pending?] using hpending
          obtain ⟨rfl, hwaits⟩ := hawaits p rfl
          obtain rfl := Option.some.inj hd'
          exact hwaits

/-- An answer is taken or refused: the rule that waits is not stale, and it does not ask again. -/
theorem Ready.resume_total (h : s.Ready) (input : Input) :
    ∃ answer s', s.resume input = .ok (answer, s') ∧ answer ≠ .error .stalePending ∧
      (∀ pending, answer ≠ .ok (.needsInput pending)) ∧ (s' = s ∨ s'.pending = none) := by
  unfold Session.resume
  cases hpending : s.pending with
  | none => exact ⟨_, s, rfl, by simp, by simp, Or.inl rfl⟩
  | some pending =>
    cases hd : s.document with
    | none => exact ⟨_, s, rfl, by simp, by simp, Or.inl rfl⟩
    | some d =>
      obtain ⟨answer, s', hconclude, hstale, hcases⟩ := conclude_total s s
        (h.gives_resume hd hpending (fun _ hname => hname) s.settings input)
      refine ⟨answer, s', hconclude, hstale, ?_⟩
      rcases hcases with ⟨⟨e, rfl⟩, rfl⟩ | ⟨outcome, e, rfl, hdone, rfl⟩
      · exact ⟨by simp, Or.inl rfl⟩
      · obtain rfl : outcome = .done := hdone
        exact ⟨by simp, Or.inr rfl⟩

/-- An answer in text does not fault, finds the rule that waits in place and is followed by no other
question; it is refused and changes nothing, or no rule waits afterwards. -/
theorem Ready.resumeText_total (h : s.Ready) (text : String) :
    ∃ answer s', s.resumeText text = .ok (answer, s') ∧ answer ≠ .error (.rule .stalePending) ∧
      (∀ pending, answer ≠ .ok (.needsInput pending)) ∧ (s' = s ∨ s'.pending = none) := by
  unfold Session.resumeText
  cases hpending : s.pending with
  | none => exact ⟨_, s, rfl, by simp, by simp, Or.inl rfl⟩
  | some pending =>
    cases hd : s.document with
    | none => exact ⟨_, s, rfl, by simp, by simp, Or.inl rfl⟩
    | some d =>
      rcases hread : readInput pending.request.kind text d.signature with ⟨read, sig⟩
      cases read with
      | error e =>
        refine ⟨.error e, _, by simp only [hread]; rfl, ?_, by simp,
          Or.inl (withSignature_restore hd sig)⟩
        have hstale := readInput_ne_stalePending pending.request.kind text d.signature
        rw [hread] at hstale
        simpa using hstale
      | ok input =>
        -- the answer is given to a session that knows its names
        have hknows : s.withSignature sig =
            { s with document := some { d with signature := sig }, pending := some pending } := by
          rw [withSignature, hd, ← hpending]
          rfl
        obtain ⟨answer, s', hconclude, hstale, hcases⟩ :=
          conclude_total (s.withSignature sig) (s.withSignature sig)
            (h.gives_resume hd hpending (fun _ => (readInput_learns hread).mono) s.settings input)
        have hresume : (s.withSignature sig).resume input = .ok (answer, s') := by
          rw [hknows] at hconclude ⊢
          exact hconclude
        simp only [hread, resumeRead, hresume, bind, Except.bind]
        rcases hcases with ⟨⟨e, rfl⟩, rfl⟩ | ⟨outcome, e, rfl, hdone, rfl⟩
        · refine ⟨.error (.rule e), _, rfl, ?_, by simp, Or.inl (withSignature_restore hd sig)⟩
          simpa using hstale
        · obtain rfl : outcome = .done := hdone
          exact ⟨.ok .done, _, rfl, by simp, by simp, Or.inr rfl⟩

/-- Closing goals does not fault, and no rule waits afterwards. -/
theorem Ready.check_total (h : s.Ready) :
    ∃ answer s', s.check = .ok (answer, s') ∧ s'.pending = none := by
  unfold Session.check
  cases hd : s.document with
  | none => exact ⟨.error .noProof, { s with pending := none }, by simp [hd], rfl⟩
  | some d =>
    obtain ⟨complete, e, hrefresh, -⟩ :=
      (h.keeps.document d hd).coherent.refresh_tidies Discipline.lax.repeats
    exact ⟨.ok complete, { s with document := some e, pending := none },
      by simp only [hrefresh, bind, Except.bind]; rfl, rfl⟩

/-- Taking a snapshot does not fault. -/
theorem Ready.snapshot?_total (h : s.Ready) : ∃ snapshot, s.snapshot? = .ok snapshot := by
  unfold Session.snapshot?
  cases hd : s.document with
  | none => exact ⟨_, rfl⟩
  | some d =>
    obtain ⟨snapshot, hsnapshot⟩ :=
      (h.keeps.document d hd).coherent.snapshot_total s.settings.style
    exact ⟨some snapshot, by simp only [hsnapshot, bind, Except.bind]; rfl⟩

/-- A ready session carries out every operation, and if a rule waits then, it has asked. -/
theorem Ready.perform_total (h : s.Ready) (op : Operation) :
    ∃ s', s.perform op = .ok s' ∧ ∀ d ∈ s'.document, ∀ pending ∈ s'.pending, d.Awaits pending := by
  have hquiet : ∀ {s' : Session}, s' = s ∨ s'.pending = none →
      ∀ d ∈ s'.document, ∀ pending ∈ s'.pending, d.Awaits pending := by
    rintro s' (rfl | hnone)
    · exact h.awaits
    · simp [hnone]
  cases op with
  | start givens goal =>
    obtain ⟨answer, s', hstart, hcases⟩ := s.start_total givens goal
    exact ⟨s', bind_eq_ok.2 ⟨_, hstart, rfl⟩, hquiet hcases⟩
  | apply rule numbers =>
    obtain ⟨answer, s', happly, hawaits⟩ := h.apply_total rule numbers
    exact ⟨s', bind_eq_ok.2 ⟨_, happly, rfl⟩, hawaits⟩
  | resume input =>
    obtain ⟨answer, s', hresume, -, -, hcases⟩ := h.resume_total input
    exact ⟨s', bind_eq_ok.2 ⟨_, hresume, rfl⟩, hquiet hcases⟩
  | resumeText text =>
    obtain ⟨answer, s', hresume, -, -, hcases⟩ := h.resumeText_total text
    exact ⟨s', bind_eq_ok.2 ⟨_, hresume, rfl⟩, hquiet hcases⟩
  | cancel => exact ⟨s.cancel.2, rfl, hquiet (Or.inr rfl)⟩
  | check =>
    obtain ⟨answer, s', hcheck, hnone⟩ := h.check_total
    exact ⟨s', bind_eq_ok.2 ⟨_, hcheck, rfl⟩, hquiet (Or.inr hnone)⟩
  | configure settings => exact ⟨{ s with settings }, rfl, h.awaits⟩

/-- A ready session is ready again after every operation. -/
theorem Ready.perform (h : s.Ready) (op : Operation) : ∃ s', s.perform op = .ok s' ∧ s'.Ready := by
  obtain ⟨s', hperform, hawaits⟩ := h.perform_total op
  refine ⟨s', hperform, ?_, hawaits⟩
  obtain ⟨-, -, -, -, -, hkeeps, -⟩ | ⟨-, hcontinues⟩ :=
    h.keeps.perform (Discipline.lax_admits s op) hperform
  · exact hkeeps
  · exact hcontinues.keeps

/-- So is every run of operations carried out. -/
theorem Ready.performAll (h : s.Ready) (ops : List Operation) :
    ∃ s', s.performAll ops = .ok s' ∧ s'.Ready := by
  induction ops generalizing s with
  | nil => exact ⟨s, rfl, h⟩
  | cons op ops ih =>
    obtain ⟨mid, hmid, hready⟩ := h.perform op
    obtain ⟨s', hs', hready'⟩ := ih hready
    exact ⟨s', bind_eq_ok.2 ⟨mid, hmid, hs'⟩, hready'⟩

/-- A session without a document is ready. -/
theorem ready_initial (settings : Settings) : ({ settings } : Session).Ready :=
  ⟨(follows_initial .lax settings).keeps, by simp⟩

/-- Nothing that is done with the session faults, an answer finds the rule that waits in place and is
followed by no other question, and the items of the document name items of the document only. -/
structure Safe (s : Session) : Prop where
  perform : ∀ op, ∃ s', s.perform op = .ok s'
  resume : ∀ input, ∃ answer s', s.resume input = .ok (answer, s') ∧
    answer ≠ .error .stalePending ∧ ∀ pending, answer ≠ .ok (.needsInput pending)
  resumeText : ∀ text, ∃ answer s', s.resumeText text = .ok (answer, s') ∧
    answer ≠ .error (.rule .stalePending) ∧ ∀ pending, answer ≠ .ok (.needsInput pending)
  snapshot : ∃ snapshot, s.snapshot? = .ok snapshot
  named : ∀ d ∈ s.document, ∀ id item, d.isLinked id = true → d.items[id]? = some item →
    ∀ other ∈ item.named, other < d.items.size

/-- All that is done with a session that is ready is safe. -/
theorem Ready.safe (h : s.Ready) : s.Safe where
  perform op := by
    obtain ⟨s', hperform, -⟩ := h.perform op
    exact ⟨s', hperform⟩
  resume input := by
    obtain ⟨answer, s', hresume, hstale, hask, -⟩ := h.resume_total input
    exact ⟨answer, s', hresume, hstale, hask⟩
  resumeText text := by
    obtain ⟨answer, s', hresume, hstale, hask, -⟩ := h.resumeText_total text
    exact ⟨answer, s', hresume, hstale, hask⟩
  snapshot := h.snapshot?_total
  named d hd _ _ hlinked hitem _ hother :=
    (h.keeps.document d hd).coherent.lt_size_of_named hlinked hitem hother

/-- Every run of operations is carried out, and the session that it leads to is safe. -/
theorem performAll_safe (settings : Settings) (ops : List Operation) :
    ∃ s, ({ settings } : Session).performAll ops = .ok s ∧ s.Safe := by
  obtain ⟨s, hrun, hready⟩ := (ready_initial settings).performAll ops
  exact ⟨s, hrun, hready.safe⟩

end Session

end NaturalDeduction
