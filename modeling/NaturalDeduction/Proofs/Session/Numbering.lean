import NaturalDeduction.Proofs.Session.Order
import NaturalDeduction.Proofs.Snapshot.Text

/-!
# The numbers that a session shows

Whatever has been done in a session, the text of its snapshot shows the document: the numbers in front
of the rows and in their justifications are those by which the lines are found.  As rules find their
lines by the same numbers, a rule works on the rows whose numbers it is given.
-/

set_option autoImplicit false

namespace NaturalDeduction.Session

variable {s s' : Session} {d : Document}

/-- Rules are applied to rows of the text: a number that no row has is refused, the selected lines are
those that are found by the given numbers, and a rule goes through if it runs on these. -/
structure WorksOn (s : Session) (d : Document) (texts : List String) : Prop where
  missing : ∀ rule numbers, (∃ k ∈ numbers, k ∉ List.range' 1 texts.length) →
    ∃ k ∈ numbers, k ∉ List.range' 1 texts.length ∧
      s.apply rule numbers = .ok (.error (.noSuchLine k), { s with pending := none })
  selects : ∀ numbers selection, d.select numbers = .ok selection →
    ∀ id, id ∈ selection.target :: selection.cites ↔ ∃ k ∈ numbers, d.findLine? k = some id
  runs : ∀ rule numbers outcome s', s.apply rule numbers = .ok (.ok outcome, s') ↔
    ∃ selection e, d.select numbers = .ok selection ∧
      d.run s.settings rule selection none = .ok (outcome, e) ∧
      s' = { s with document := some e, pending := outcome.pending? }

/-- If all lines are there, a rule is begun on them. -/
theorem apply_of_found (hd : s.document = some d) {numbers : List Nat}
    (hfound : ∀ k ∈ numbers, (d.findLine? k).isSome) (rule : Rule) :
    s.apply rule numbers = conclude { s with pending := none } { s with pending := none }
      (d.begin s.settings rule numbers) := by
  have hfind : (numbers.find? fun k => (d.findLine? k).isNone) = none := by
    simpa [List.find?_eq_none, ← Option.isSome_iff_ne_none] using hfound
  simp [Session.apply, hd, hfind]

/-- A rule is applied just if the numbers select lines on which it runs. -/
theorem apply_eq_ok_iff (hd : s.document = some d) {rule : Rule} {numbers : List Nat}
    {outcome : Outcome} : s.apply rule numbers = .ok (.ok outcome, s') ↔
      ∃ selection e, d.select numbers = .ok selection ∧
        d.run s.settings rule selection none = .ok (outcome, e) ∧
        s' = { s with document := some e, pending := outcome.pending? } := by
  constructor
  · intro happly
    obtain ⟨⟨e, herror⟩, -⟩ | ⟨d', selection, outcome', e, houtcome, hd', hselect, hrun, hs'⟩ :=
      apply_begins happly
    · simp at herror
    · obtain rfl := Option.some.inj (hd.symm.trans hd')
      obtain rfl := Except.ok.inj houtcome
      exact ⟨selection, e, hselect, hrun, hs'⟩
  · rintro ⟨selection, e, hselect, hrun, rfl⟩
    have hbegin : d.begin s.settings rule numbers = .ok (outcome, e) :=
      bind_eq_ok.2 ⟨selection, hselect, hrun⟩
    rw [apply_of_found hd (Document.findLine?_isSome_of_select hselect), hbegin]
    rfl

/-- Rules work on the lines that are shown with the numbers they are given. -/
theorem worksOn_of_displayed {style : Style} {texts : List String} (h : d.Displayed style texts)
    (hd : s.document = some d) : s.WorksOn d texts where
  missing rule numbers hmissing := by
    simp only [h.mem_range'_iff, Option.not_isSome_iff_eq_none] at hmissing ⊢
    cases hfind : numbers.find? fun number => (d.findLine? number).isNone with
    | none =>
      obtain ⟨k, hk, hnone⟩ := hmissing
      exact absurd hnone (by simpa using List.find?_eq_none.1 hfind k hk)
    | some k =>
      refine ⟨k, List.mem_of_find?_eq_some hfind, by simpa using List.find?_some hfind, ?_⟩
      simp [Session.apply, hd, hfind]
  selects _ _ hselect _ := Document.mem_selection_iff hselect
  runs _ _ _ _ := apply_eq_ok_iff hd

/-- After any run of operations the snapshot can be taken, and its text shows the document.  It has a
row for each linked line, which begins with the number by which the line is found, goes on with a bar
for each box around the line but the outermost one, and names what the line cites by the numbers of
rows above.  Rules work on the rows whose numbers they are given. -/
theorem performAll_displayed {settings : Settings} {ops : List Operation}
    (hrun : ({ settings } : Session).performAll ops = .ok s) (hd : s.document = some d) :
    ∃ snapshot, s.snapshot? = .ok (some snapshot) ∧
      d.Displayed s.settings.style snapshot.lines ∧ s.WorksOn d snapshot.lines := by
  have hkeeps := (follows_of_performAll hrun).keeps.document d hd
  obtain ⟨snapshot, hsnapshot⟩ := hkeeps.coherent.snapshot_total s.settings.style
  have hdisplayed := hkeeps.coherent.displayed hkeeps.numbered hsnapshot
  refine ⟨snapshot, ?_, hdisplayed, worksOn_of_displayed hdisplayed hd⟩
  rw [snapshot?, hd]
  simp only [hsnapshot]
  rfl

/-- A run with a box in a box.  The goal of the inner one has been split, and its first half has been
closed by the assumption. -/
theorem performAll_displayed_nested :
    ∃ s d snapshot,
      ({} : Session).performAll [.start ["∃x P(x)"] "Q -> Q & R", .apply .existsElim [1, 3],
        .apply .impliesIntro [6], .apply .andIntro [8]] = .ok s ∧
      s.document = some d ∧ s.snapshot? = .ok (some snapshot) ∧
      snapshot.lines.drop 9 =
        ["10 │ │ Q ∧ R  ∧I 7, 9", "11 │ Q → Q ∧ R  →I 6–10", "12 Q → Q ∧ R  ∃E 1, 3–11"] ∧
      d.Displayed s.settings.style snapshot.lines ∧ s.WorksOn d snapshot.lines := by
  generalize hresult : ({} : Session).performAll [.start ["∃x P(x)"] "Q -> Q & R",
    .apply .existsElim [1, 3], .apply .impliesIntro [6], .apply .andIntro [8]] = result
  have hfinal : result.toOption.any fun s => s.document.isSome &&
      s.snapshot?.toOption.any fun snapshot => snapshot.any fun snapshot =>
        snapshot.lines.drop 9 ==
          ["10 │ │ Q ∧ R  ∧I 7, 9", "11 │ Q → Q ∧ R  →I 6–10", "12 Q → Q ∧ R  ∃E 1, 3–11"] := by
    rw [← hresult]
    decide +kernel
  obtain ⟨s, hrun, hfinal⟩ := exists_ok_of_any hfinal
  rw [hrun] at hresult
  obtain ⟨hdocument, hfinal⟩ := Bool.and_eq_true_iff.1 hfinal
  obtain ⟨d, hd⟩ := Option.isSome_iff_exists.1 hdocument
  obtain ⟨shown, hshown, hfinal⟩ := exists_ok_of_any hfinal
  obtain ⟨snapshot, hsnapshot, hdisplayed, hworks⟩ := performAll_displayed hresult hd
  obtain rfl := Except.ok.inj (hshown.symm.trans hsnapshot)
  exact ⟨s, d, snapshot, hrun, hd, hsnapshot, by simpa using hfinal, hdisplayed, hworks⟩

end NaturalDeduction.Session
