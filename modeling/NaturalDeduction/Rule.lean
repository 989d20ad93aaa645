import NaturalDeduction.Text.Lowercase

/-!
# The rules of inference

The twenty-four rules of the calculus, the symbols they are shown with and the names they can be
called by.  Names are compared in small letters.
-/

set_option autoImplicit false

namespace NaturalDeduction

/-- A rule of natural deduction. -/
inductive Rule where
  /-- Repeat a line. -/
  | tick
  | andIntro
  | andElim
  | orIntro
  | orElim
  | impliesIntro
  | impliesElim
  | notIntro
  | notElim
  | notNotIntro
  | notNotElim
  | topIntro
  | bottomElim
  | iffIntro
  | iffElim
  /-- The law of excluded middle. -/
  | excludedMiddle
  /-- Proof by contradiction. -/
  | contradiction
  | existsIntro
  | existsElim
  | forallIntro
  | forallElim
  | eqIntro
  | eqElim
  /-- Turn an equation round. -/
  | eqSymm
deriving DecidableEq

namespace Rule

/-- All rules, in the order in which they are listed. -/
def all : List Rule :=
  [.tick, .andIntro, .andElim, .orIntro, .orElim, .impliesIntro, .impliesElim, .notIntro,
   .notElim, .notNotIntro, .notNotElim, .topIntro, .bottomElim, .iffIntro, .iffElim,
   .excludedMiddle, .contradiction, .existsIntro, .existsElim, .forallIntro, .forallElim,
   .eqIntro, .eqElim, .eqSymm]

/-- The symbol shown in justifications. -/
def name : Rule → String
  | .tick => "✓"
  | .andIntro => "∧I"
  | .andElim => "∧E"
  | .orIntro => "∨I"
  | .orElim => "∨E"
  | .impliesIntro => "→I"
  | .impliesElim => "→E"
  | .notIntro => "¬I"
  | .notElim => "¬E"
  | .notNotIntro => "¬¬I"
  | .notNotElim => "¬¬E"
  | .topIntro => "⊤I"
  | .bottomElim => "⊥E"
  | .iffIntro => "↔I"
  | .iffElim => "↔E"
  | .excludedMiddle => "LEM"
  | .contradiction => "PC"
  | .existsIntro => "∃I"
  | .existsElim => "∃E"
  | .forallIntro => "∀I"
  | .forallElim => "∀E"
  | .eqIntro => "=I"
  | .eqElim => "=E"
  | .eqSymm => "=Sym"

/-- The names a rule can be called by, besides its symbol. -/
def aliases : Rule → List String
  | .tick => ["tick", "reit", "r"]
  | .andIntro => ["andi", "&i"]
  | .andElim => ["ande", "&e"]
  | .orIntro => ["ori", "|i"]
  | .orElim => ["ore", "|e"]
  | .impliesIntro => ["impi", "->i"]
  | .impliesElim => ["impe", "->e", "mp"]
  | .notIntro => ["noti", "~i"]
  | .notElim => ["note", "~e"]
  | .notNotIntro => ["notnoti", "~~i"]
  | .notNotElim => ["notnote", "~~e"]
  | .topIntro => ["topi"]
  | .bottomElim => ["bote", "efq"]
  | .iffIntro => ["iffi", "<->i"]
  | .iffElim => ["iffe", "<->e"]
  | .excludedMiddle => ["tnd"]
  | .contradiction => ["raa"]
  | .existsIntro => ["existsi", "ei"]
  | .existsElim => ["existse", "ee"]
  | .forallIntro => ["foralli", "ai"]
  | .forallElim => ["foralle", "ae"]
  | .eqIntro => ["eqi", "refl"]
  | .eqElim => ["eqe", "subst"]
  | .eqSymm => ["eqsym", "sym"]

end Rule

/-- A name that no rule goes by, in small letters. -/
structure UnknownRule where
  /-- The name that was looked up. -/
  name : String
deriving DecidableEq

/-- The error in words. -/
def UnknownRule.message (e : UnknownRule) : String :=
  "unknown rule '" ++ e.name ++ "'"

/-- The rule that goes by a name, whether in capital or in small letters. -/
def Rule.parse (text : String) : Except UnknownRule Rule :=
  let wanted := Text.lowercase text
  match Rule.all.find? fun rule =>
      Text.lowercase rule.name = wanted || rule.aliases.contains wanted with
  | some rule => .ok rule
  | none => .error ⟨wanted⟩

end NaturalDeduction
