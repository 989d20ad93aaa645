import NaturalDeduction.Proofs.Document.Finality
import NaturalDeduction.Proofs.Session.Order

/-!
# Completed boxes in sessions

A box that is marked as complete holds nothing open, and until another task is set no operation
changes anything under it but line numbers.  Closing goals marks exactly the boxes in which no goal
is left.
-/

set_option autoImplicit false

namespace NaturalDeduction.Session

variable {s s' : Session} {d : Document} {D : Discipline}

/-- Until another task is set, a document is only edited. -/
theorem Keeps.performAll_edits {ops : List Operation} (h : s.Keeps D)
    (hadmits : s.Along D.Admits ops) (hops : ∀ op ∈ ops, op.task? = none)
    (hperform : s.performAll ops = .ok s') (hd : s.document = some d) :
    ∃ e, s'.document = some e ∧ D.Edits d e := by
  induction ops generalizing s d with
  | nil =>
    obtain rfl := Except.ok.inj hperform
    exact ⟨d, hd, .refl⟩
  | cons op ops ih =>
    obtain ⟨mid, hmid, hperform⟩ := bind_eq_ok.1 hperform
    obtain ⟨hop, hops⟩ := List.forall_mem_cons.1 hops
    rcases h.perform hadmits.1 hmid with ⟨_, _, _, htask, -⟩ | ⟨-, hcontinues⟩
    · simp [hop] at htask
    · obtain ⟨m, hm, hedits⟩ := hcontinues.edited d hd
      obtain ⟨e, he, hedits'⟩ := ih hcontinues.keeps (hadmits.2 mid hmid) hops hperform hm
      exact ⟨e, he, hedits.trans hedits'⟩

/-- In every state of a run a box marked as complete holds no goal and no empty line at any depth, and
as long as no other task is set it stays in the document with its mark, and nothing under it changes
but line numbers.  Closing the goals succeeds in every state, and afterwards a box is marked just if
no goal stands in it at any depth. -/
theorem performAll_completion_final {settings : Settings} {ops : List Operation}
    (hrun : ({ settings } : Session).performAll ops = .ok s) (hd : s.document = some d) :
    (∀ box, d.isLinked box = true → d.isClosed box = true →
      (∀ id, d.Within id box → d.isGoal id = false ∧ d.isEmptyLine id = false) ∧
      ∀ later s', (∀ op ∈ later, op.task? = none) → s.performAll later = .ok s' →
        ∃ e, s'.document = some e ∧ e.isLinked box = true ∧ e.isClosed box = true ∧
          d.Untouched e box) ∧
    ∃ complete e, d.checkCompletion = .ok (complete, e) ∧
      ∀ box, e.isLinked box = true → e.isBox box = true →
        (e.isClosed box = true ↔ ∀ id, e.Within id box → e.isGoal id = false) := by
  have hfollows := follows_of_performAll hrun
  have hcoherent := (hfollows.keeps.document d hd).coherent
  refine ⟨fun box hlinked hclosed => ⟨fun id hin => ?_, fun later s' hlater hperform => ?_⟩, ?_⟩
  · have hopen := (hcoherent.closed_within hin hclosed).1
    rw [Document.isOpen, Bool.or_eq_false_iff] at hopen
    exact hopen.symm
  · obtain ⟨e, he, hedits⟩ := hfollows.keeps.performAll_edits
      (along_of_forall Discipline.lax_admits _ later) hlater hperform hd
    obtain ⟨hlinked', hsame⟩ := Document.Edits.untouched hedits hcoherent hclosed hlinked
    exact ⟨e, he, hlinked', hsame.isClosed hclosed, hsame⟩
  · obtain ⟨complete, e, hok, hmoves, -, hhonest⟩ :=
      hcoherent.checkCompletion_moves Discipline.lax.repeats
    have he := hmoves.coherent Discipline.lax.repeats hcoherent
    exact ⟨complete, e, hok, fun box hlinked hbox => he.isClosed_iff hhonest hlinked hbox⟩

/-- A run in which the box of one half of a conjunction is complete while the other half is open and
worked on further. -/
theorem performAll_completion_final_conjunction :
    ∃ s d s' e,
      ({} : Session).performAll
        [.start [] "(P -> P) & Q", .apply .andIntro [2], .apply .impliesIntro [2]] = .ok s ∧
      s.document = some d ∧ d.isLinked 7 = true ∧ d.isClosed 7 = true ∧ d.isComplete = false ∧
      (∀ id, d.Within id 7 → d.isGoal id = false ∧ d.isEmptyLine id = false) ∧
      s.performAll [.configure { autoComplete := false }, .apply .excludedMiddle [5],
        .resumeText "Q", .check] = .ok s' ∧
      s'.document = some e ∧ e.formula? 11 ≠ none ∧ e.isClosed 7 = true ∧ d.Untouched e 7 := by
  generalize hops : [Operation.start [] "(P -> P) & Q", .apply .andIntro [2],
    .apply .impliesIntro [2]] = ops
  generalize hlater : [Operation.configure { autoComplete := false }, .apply .excludedMiddle [5],
    .resumeText "Q", .check] = later
  have htask : ∀ op ∈ later, op.task? = none := by
    rw [← hlater]
    simp [Operation.task?]
  have hfinal : (({} : Session).performAll ops).toOption.any fun s =>
      (s.performAll later).toOption.any fun s' => s.document.any fun d =>
        d.isLinked 7 && d.isClosed 7 && !d.isComplete &&
          s'.document.any fun e => (e.formula? 11).isSome := by
    rw [← hops, ← hlater]
    decide +kernel
  obtain ⟨s, hrun, hfinal⟩ := exists_ok_of_any hfinal
  obtain ⟨s', hperform, hfinal⟩ := exists_ok_of_any hfinal
  obtain ⟨d, hd, hfinal⟩ := (Option.any_eq_true _ _).1 hfinal
  simp only [Bool.and_eq_true, Bool.not_eq_true'] at hfinal
  obtain ⟨⟨⟨hlinked, hclosed⟩, hopen⟩, hlast⟩ := hfinal
  obtain ⟨hnothing, hlater⟩ := (performAll_completion_final hrun hd).1 7 hlinked hclosed
  obtain ⟨e, he, -, hclosed', hsame⟩ := hlater later s' htask hperform
  rw [he, Option.any_some, Option.isSome_iff_ne_none] at hlast
  exact ⟨s, d, s', e, hrun, hd, hlinked, hclosed, hopen, hnothing, hperform, he, hlast, hclosed',
    hsame⟩

end NaturalDeduction.Session
