import NaturalDeduction.Proofs.Reading.Resolution
import NaturalDeduction.Proofs.Session.Coverage

/-!
# Lines as they are shown

The text of every line of a session can be read against the signature of the document.  Variables and
constants share one kind of names in the text, though, and an answer may put a constant under a
quantifier that binds its name.  So the text is read as the formula of the line with its names
resolved, and as the formula itself exactly if the line has no free variables and no such constants.
-/

set_option autoImplicit false

namespace NaturalDeduction.Session

open Formula (Reassoc)

variable {s : Session} {d : Document}

/-- After any run whose answers are texts or choices, the text of a line, in both styles, is read as
the formula of the line with its names resolved, up to re-association; this is the formula of the line
exactly if every name in it is what the quantifiers around it make of it.  Two lines have the same text
exactly if they are equal once their names are resolved, up to re-association. -/
theorem performAll_text_resolved {settings : Settings} {ops : List Operation}
    (hops : ∀ op ∈ ops, op.choosesOnly = true)
    (hrun : ({ settings } : Session).performAll ops = .ok s) (hd : s.document = some d)
    {style : Style} (hstyle : style ∈ [Style.unicode, Style.ascii]) :
    (∀ id f, d.formula? id = some f → ∃ g sig,
      Formula.parse (f.render style) d.signature = .ok g sig ∧ Reassoc g (f.resolve []) ∧
        (Reassoc g f ↔ f.BoundIn [])) ∧
    ∀ id f id' f', d.formula? id = some f → d.formula? id' = some f' →
      (f.render style = f'.render style ↔ Reassoc (f.resolve []) (f'.resolve [])) ∧
      (f.render style = f'.render style → f.BoundIn [] → f'.BoundIn [] → Reassoc f f') := by
  have hspelled : style.Spelled := by
    rcases List.mem_pair.1 hstyle with rfl | rfl
    · exact Style.spelled_unicode
    · exact Style.spelled_ascii
  have hread : ∀ {id f}, d.formula? id = some f →
      ∃ sig, Formula.parse (f.render style) d.signature = .ok (f.resolve []).leftAssoc sig :=
    fun hf => Formula.parse_render_resolve hspelled (known_of_performAll hops hrun hd hf)
  have hsame : ∀ {id f id' f'}, d.formula? id = some f → d.formula? id' = some f' →
      (f.render style = f'.render style ↔ Reassoc (f.resolve []) (f'.resolve [])) := by
    intro id f id' f' hf hf'
    constructor
    · intro htext
      obtain ⟨sig, hparse⟩ := hread hf
      obtain ⟨sig', hparse'⟩ := hread hf'
      rw [htext, hparse'] at hparse
      exact Formula.reassoc_iff.2 (EStateM.Result.ok.inj hparse).1.symm
    · intro hreassoc
      rw [← Formula.render_resolve style [] f, hreassoc.render_eq, Formula.render_resolve]
  refine ⟨fun id f hf => ?_, fun id f id' f' hf hf' => ⟨hsame hf hf', fun htext hbound hbound' => ?_⟩⟩
  · obtain ⟨sig, hparse⟩ := hread hf
    have hleft := Formula.reassoc_leftAssoc (f.resolve [])
    refine ⟨_, sig, hparse, hleft.symm, fun h => ?_, fun h => ?_⟩
    · exact Formula.reassoc_resolve_iff.1 (hleft.trans h)
    · exact hleft.symm.trans (Formula.reassoc_resolve_iff.2 h)
  · have hreassoc := (hsame hf hf').1 htext
    rwa [hbound.resolve_eq, hbound'.resolve_eq] at hreassoc

/-- Two instances of one line.  The text of the first is read as the line, with its chain grouped to
the left; in the second a constant got under the quantifier that binds its name. -/
theorem performAll_text_resolved_instances :
    ∃ s d f f' g g' sig sig',
      ({} : Session).performAll
        [.start ["∀y ∃x (R(x, y) & (P & Q))"] "⊥", .apply .forallElim [1, 2], .resumeText "f(a)",
          .apply .forallElim [1, 3], .resumeText "f(x)"] = .ok s ∧
      s.document = some d ∧ d.formula? 4 = some f ∧ d.formula? 5 = some f' ∧
      Formula.parse (f.render .ascii) d.signature = .ok g sig ∧
      Formula.parse (f'.render .ascii) d.signature = .ok g' sig' ∧
      Reassoc g f ∧ Reassoc g' (f'.resolve []) ∧ ¬ Reassoc g' f' := by
  generalize hops : [Operation.start ["∀y ∃x (R(x, y) & (P & Q))"] "⊥", .apply .forallElim [1, 2],
    .resumeText "f(a)", .apply .forallElim [1, 3], .resumeText "f(x)"] = ops
  have hchooses : ∀ op ∈ ops, op.choosesOnly = true := by
    rw [← hops]
    decide
  generalize hresult : ({} : Session).performAll ops = result
  have hfinal : result.toOption.any fun s => s.document.any fun d =>
      (d.formula? 4).any fun f => (d.formula? 5).any fun f' =>
        decide (f.BoundIn [] ∧ ¬ f'.BoundIn []) := by
    rw [← hresult, ← hops]
    decide +kernel
  obtain ⟨s, rfl, hs⟩ := exists_ok_of_any hfinal
  obtain ⟨d, hd, hs⟩ := (Option.any_eq_true _ _).1 hs
  obtain ⟨f, hf, hs⟩ := (Option.any_eq_true _ _).1 hs
  obtain ⟨f', hf', hs⟩ := (Option.any_eq_true _ _).1 hs
  obtain ⟨hbound, hunbound⟩ := of_decide_eq_true hs
  obtain ⟨htexts, -⟩ := performAll_text_resolved hchooses hresult hd
    (List.mem_pair.2 (Or.inr rfl) : Style.ascii ∈ _)
  obtain ⟨g, sig, hparse, -, hiff⟩ := htexts 4 f hf
  obtain ⟨g', sig', hparse', hresolved, hiff'⟩ := htexts 5 f' hf'
  exact ⟨s, d, f, f', g, g', sig, sig', rfl, hd, hf, hf', hparse, hparse', hiff.2 hbound, hresolved,
    fun h => hunbound (hiff'.1 h)⟩

/-- Two lines with the same text may differ in more than their brackets: an instance of a given and the
goal, of which the first says something of an object `x` and the second does not. -/
theorem performAll_same_text :
    ∃ s d f g,
      ({ settings := { autoComplete := false } } : Session).performAll
        [.start ["∀y ∃x R(x, y)"] "∃x R(x, x)", .apply .forallElim [1, 2], .resumeText "x"] = .ok s ∧
      s.document = some d ∧ d.isLinked 4 = true ∧ d.formula? 4 = some f ∧ d.isLinked 3 = true ∧
      d.formula? 3 = some g ∧ f.text = g.text ∧ ¬ Reassoc f g := by
  generalize hresult : ({ settings := { autoComplete := false } } : Session).performAll
    [.start ["∀y ∃x R(x, y)"] "∃x R(x, x)", .apply .forallElim [1, 2], .resumeText "x"] = result
  have hfinal : result.toOption.any fun s => s.document.any fun d =>
      (d.formula? 4).any fun f => (d.formula? 3).any fun g =>
        decide (d.isLinked 4 = true ∧ d.isLinked 3 = true ∧ f.text = g.text ∧
          f.leftAssoc ≠ g.leftAssoc) := by
    rw [← hresult]
    decide +kernel
  obtain ⟨s, rfl, hs⟩ := exists_ok_of_any hfinal
  obtain ⟨d, hd, hs⟩ := (Option.any_eq_true _ _).1 hs
  obtain ⟨f, hf, hs⟩ := (Option.any_eq_true _ _).1 hs
  obtain ⟨g, hg, hs⟩ := (Option.any_eq_true _ _).1 hs
  obtain ⟨hline, hgoal, htext, hne⟩ := of_decide_eq_true hs
  exact ⟨s, d, f, g, rfl, hd, hline, hf, hgoal, hg, htext, fun h => hne (Formula.reassoc_iff.1 h)⟩

end NaturalDeduction.Session
