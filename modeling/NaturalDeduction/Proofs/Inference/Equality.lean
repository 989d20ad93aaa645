import NaturalDeduction.Proofs.Inference.Handlers
import NaturalDeduction.Proofs.Replacement

/-!
# Elimination of equality in both directions

Forwards the rule replaces everywhere, backwards it asks whether some places were replaced, and with
only the equation cited it replaces everywhere in the other direction.  The three agree
(`eqElim_directions_agree`): what follows forwards by an equation with two different sides is accepted
backwards, and so is a goal from the goal that was made of it.

An equation with two equal sides is the exception.  Forwards it repeats the other line, and backwards
no line is accepted as a rewriting of itself.
-/

set_option autoImplicit false

namespace NaturalDeduction

variable {s : Situation} {input : Option Input} {equation line : CitedLine} {a b : Term}
  {f g : Formula} {premises : List Premise}

/-- Replacing everywhere takes an equation whose left side occurs. -/
theorem replaceEverywhere_eq_some {e : Formula} (h : replaceEverywhere e f = some g) :
    ∃ a b, e = .eq a b ∧ f.occurrences a ≠ 0 ∧ g = f.replace a b := by
  unfold replaceEverywhere at h
  split at h
  · rename_i a b hequation
    split at h
    · rename_i hpos
      exact ⟨a, b, equated?_eq_some hequation, Nat.ne_of_gt hpos, (Option.some.inj h).symm⟩
    · simp at h
  · simp at h

/-- An equation that leads to another formula is accepted for it. -/
theorem replaceSomewhere_eq_some {e : Formula} (he : e = .eq a b) (hne : f ≠ g)
    (hbecomes : f.becomes a b g = true) : replaceSomewhere g e f = some () := by
  simp [replaceSomewhere, he, Formula.equated?, hne, hbecomes]

/-- Two lines in a relation are found in whichever order they are cited. -/
theorem Situation.CitesBoth.pair?_isSome {α : Type} {r : Formula → Formula → Option α} {result : α}
    {x y : CitedLine} (h : s.CitesBoth x y) (hr : r x.formula y.formula = some result) :
    (s.pair? r).isSome = true := by
  rcases h with hcites | hcites
  · simp [Situation.pair?, hcites, hr]
  · simp only [Situation.pair?, hcites]
    cases r y.formula x.formula with
    | some _ => rfl
    | none => simp [hr]

/-! ### The three ways -/

/-- What equality elimination derives is one of the two cited lines, rewritten with the other from
left to right wherever its left side occurs. -/
theorem eqElim_eq_derive (htarget : s.target = .gap)
    (h : eqElim s input = .ok (.apply (.derive g premises))) :
    ∃ equation line a b, s.CitesBoth equation line ∧ premises = [equation.premise, line.premise] ∧
      equation.formula = .eq a b ∧ line.formula.occurrences a ≠ 0 ∧
      g = line.formula.replace a b := by
  simp only [eqElim, htarget] at h
  obtain ⟨_, -, h⟩ := bind_eq_ok.1 h
  split at h
  · rename_i f ps hpair
    obtain ⟨rfl, rfl⟩ := Step.derive.inj (derive_eq_apply.1 h)
    obtain ⟨equation, line, hcites, hreplace, rfl⟩ := citesBoth_of_pair? hpair
    obtain ⟨a, b, hequation, hoccurs, hg⟩ := replaceEverywhere_eq_some hreplace
    exact ⟨equation, line, a, b, hcites, rfl, hequation, hoccurs, hg⟩
  · exact absurd h reject_ne_ok

/-- With one cited equation, a goal is justified by the equation and a new goal, the old one
rewritten from right to left. -/
theorem eqElim_eq_justify_goal (htarget : s.target = .goal g) (hcites : s.cites = [equation])
    (h : eqElim s input = .ok (.apply (.justify premises))) :
    ∃ a b, equation.formula = .eq a b ∧ g.occurrences b ≠ 0 ∧
      premises = [equation.premise, .goal (g.replace b a)] := by
  simp only [eqElim, htarget, hcites] at h
  split at h
  · exact absurd h rejectShape_ne_ok
  · rename_i a b hequation
    split at h
    · exact absurd h reject_ne_ok
    · rename_i hoccurs
      exact ⟨a, b, equated?_eq_some hequation, hoccurs, Step.justify.inj (justify_eq_apply.1 h)⟩

/-- A goal that is another formula with some places replaced is accepted. -/
theorem eqElim_justifies (htarget : s.target = .goal g) (hcites : s.CitesBoth equation line)
    (hequation : equation.formula = .eq a b) (hne : line.formula ≠ g)
    (hbecomes : line.formula.becomes a b g = true) :
    ∃ premises, eqElim s input = .ok (.apply (.justify premises)) := by
  obtain ⟨⟨_, premises⟩, hpair⟩ := Option.isSome_iff_exists.1
    (hcites.pair?_isSome (replaceSomewhere_eq_some hequation hne hbecomes))
  refine ⟨premises, ?_⟩
  rcases hcites with hcites | hcites
  all_goals simp [eqElim, htarget, hcites, hpair, justify]

/-- What becomes what, and how often, is told by the places replaced; and the three ways in which
equality is eliminated agree on it.  What follows forwards by an equation with different sides is
accepted as a goal when the same two lines are cited in any order; and a goal is accepted when the
equation is cited together with the line that it alone would have asked for. -/
theorem eqElim_directions_agree :
    (∀ (a b : Term) (f g : Formula),
      f.becomes a b g = true ↔ ∃ chosen, f.replaceAt a b chosen = g) ∧
    (∀ (a b : Term) (f : Formula),
      f.becomes a b (f.replace a b) = true ∧ (f.replace a b).becomes b a f = true ∧
      (f.occurrences a = 0 ↔ a ∉ f.subterms) ∧
      (a ≠ b → (f = f.replace a b ↔ f.occurrences a = 0))) ∧
    (∀ (s : Situation) (input : Option Input) (g : Formula) (premises : List Premise),
      s.target = .gap → eqElim s input = .ok (.apply (.derive g premises)) →
      ∃ equation line a b, s.CitesBoth equation line ∧
        premises = [equation.premise, line.premise] ∧ equation.formula = .eq a b ∧
        g = line.formula.replace a b ∧ (a = b → g = line.formula) ∧
        (a ≠ b → ∀ (s' : Situation) (input' : Option Input),
          s'.target = .goal g → s'.CitesBoth equation line →
          ∃ premises', eqElim s' input' = .ok (.apply (.justify premises')))) ∧
    (∀ (s : Situation) (input : Option Input) (equation : CitedLine) (g : Formula)
      (premises : List Premise), s.target = .goal g → s.cites = [equation] →
      eqElim s input = .ok (.apply (.justify premises)) →
      ∃ a b f, equation.formula = .eq a b ∧ premises = [equation.premise, .goal f] ∧
        (a ≠ b → ∀ (s' : Situation) (input' : Option Input) (line : CitedLine),
          s'.target = .goal g → line.formula = f → s'.CitesBoth equation line →
          ∃ premises', eqElim s' input' = .ok (.apply (.justify premises')))) := by
  refine ⟨fun a b => Formula.becomes_iff_replaceAt, fun a b f => ⟨f.becomes_replace,
    f.becomes_of_replace, f.occurrences_eq_zero_iff, fun hne => ?_⟩, ?_, ?_⟩
  · rw [eq_comm, f.replace_eq_self_iff hne]
  · intro s input g premises htarget h
    obtain ⟨equation, line, a, b, hcites, hpremises, hequation, hoccurs, rfl⟩ :=
      eqElim_eq_derive htarget h
    refine ⟨equation, line, a, b, hcites, hpremises, hequation, rfl, ?_, ?_⟩
    · rintro rfl
      exact line.formula.replace_self
    · intro hne s' input' htarget' hcites'
      refine eqElim_justifies htarget' hcites' hequation (fun heq => hoccurs ?_)
        line.formula.becomes_replace
      exact (line.formula.replace_eq_self_iff hne).1 heq.symm
  · intro s input equation g premises htarget hcites h
    obtain ⟨a, b, hequation, hoccurs, hpremises⟩ := eqElim_eq_justify_goal htarget hcites h
    refine ⟨a, b, g.replace b a, hequation, hpremises, ?_⟩
    intro hne s' input' line htarget' hline hcites'
    refine eqElim_justifies htarget' hcites' hequation (fun heq => hoccurs ?_)
      (hline ▸ g.becomes_of_replace)
    exact (g.replace_eq_self_iff hne.symm).1 (hline.symm.trans heq)

/-- The left side of the equation is a part of its right side: what has been replaced is there to be
replaced again. -/
theorem eqElim_directions_agree_nested :
    ∃ (equation line : CitedLine) (g f : Formula) (premises : List Premise),
      equation.formula = .eq (.const "a") (.app "s" [.const "a"]) ∧
      line.formula = .rel "P" [.const "a", .app "s" [.const "a"]] ∧
      g = .rel "P" [.app "s" [.const "a"], .app "s" [.app "s" [.const "a"]]] ∧
      eqElim ⟨.eqElim, .gap, [line, equation], "c0"⟩ none = .ok (.apply (.derive g premises)) ∧
      (∃ premises', eqElim ⟨.eqElim, .goal g, [line, equation], "c0"⟩ none =
        .ok (.apply (.justify premises'))) ∧
      eqElim ⟨.eqElim, .goal g, [equation], "c0"⟩ none =
        .ok (.apply (.justify [equation.premise, .goal f])) ∧
      ∃ premises', eqElim ⟨.eqElim, .goal g, [equation, ⟨7, 7, f⟩], "c0"⟩ none =
        .ok (.apply (.justify premises')) := by
  generalize hequation : CitedLine.mk 2 2 (.eq (.const "a") (.app "s" [.const "a"])) = equation
  generalize hline : CitedLine.mk 1 1 (.rel "P" [.const "a", .app "s" [.const "a"]]) = line
  generalize hg : Formula.rel "P" [.app "s" [.const "a"], .app "s" [.app "s" [.const "a"]]] = g
  have hforward : eqElim ⟨.eqElim, .gap, [line, equation], "c0"⟩ none =
      .ok (.apply (.derive g [equation.premise, line.premise])) := by
    rw [← hequation, ← hline, ← hg]
    rfl
  have hbackward : ∃ premises, eqElim ⟨.eqElim, .goal g, [equation], "c0"⟩ none =
      .ok (.apply (.justify premises)) := by
    rw [← hequation, ← hg]
    exact ⟨_, rfl⟩
  obtain ⟨premises, hbackward⟩ := hbackward
  have hsides : ∀ {a b}, equation.formula = .eq a b → a ≠ b := by
    rintro a b heq rfl
    obtain ⟨rfl, heq⟩ : .const "a" = a ∧ .app "s" [.const "a"] = a := by
      simpa [← hequation] using heq
    simp at heq
  obtain ⟨-, -, hderived, hasked⟩ := eqElim_directions_agree
  obtain ⟨equation', line', a, b, hcites, -, hsides', -, -, haccepted⟩ :=
    hderived _ none g _ rfl hforward
  obtain ⟨a', b', f, hsides'', rfl, haccepted'⟩ := hasked _ none equation g _ rfl rfl hbackward
  have hne : a ≠ b := by
    rcases hcites with hcites | hcites
    · simp only [List.cons.injEq] at hcites
      simp [← hcites.1, ← hline] at hsides'
    · simp only [List.cons.injEq] at hcites
      exact hsides (hcites.2.1 ▸ hsides')
  exact ⟨equation, line, g, f, _, by rw [← hequation], by rw [← hline], rfl, hforward,
    haccepted hne _ none rfl hcites, hbackward,
    haccepted' (hsides hsides'') _ none ⟨7, 7, f⟩ rfl rfl (Or.inl rfl)⟩

/-- Forwards the equation of a term with itself repeats another equation, and backwards the same two
lines are refused, whatever their order. -/
theorem eqElim_refuses_repetition :
    ∃ equation line : CitedLine,
      equation.formula = .eq (.const "a") (.const "b") ∧
      eqElim ⟨.eqElim, .gap, [equation, line], "c0"⟩ none =
        .ok (.apply (.derive (.eq (.const "a") (.const "b")) [line.premise, equation.premise])) ∧
      ∀ s : Situation, s.rule = .eqElim → s.target = .goal (.eq (.const "a") (.const "b")) →
        s.CitesBoth equation line →
        eqElim s none = .error (.rule (.invalid .eqElim (.isNot .goal .replacementInCited))) := by
  refine ⟨⟨1, 1, .eq (.const "a") (.const "b")⟩, ⟨2, 2, .eq (.const "b") (.const "b")⟩, rfl, rfl, ?_⟩
  rintro ⟨rule, target, cites, skolem⟩ rfl rfl (rfl | rfl)
  all_goals rfl

end NaturalDeduction
