import NaturalDeduction.NameMap

/-!
# Terms of first-order logic

A term is a constant, a variable or a function applied to arguments.  Constants and variables are
different names: a variable stands under a quantifier that binds it, a constant stands for an
object of the domain.

A term holds a list of terms, so each operation on terms comes with its companion on argument
lists.
-/

set_option autoImplicit false

namespace NaturalDeduction

/-- A term of first-order logic. -/
inductive Term where
  /-- A constant. -/
  | const (name : String)
  /-- A variable, bound by a quantifier around it. -/
  | var (name : String)
  /-- A function applied to its arguments. -/
  | app (name : String) (args : List Term)

namespace Term

instance : Inhabited Term := ⟨.const ""⟩

mutual

/-- Decides whether two terms are equal. -/
def decEq : (s t : Term) → Decidable (s = t)
  | .const a, .const b =>
    if h : a = b then .isTrue (h ▸ rfl) else .isFalse fun e => h (Term.const.inj e)
  | .var a, .var b =>
    if h : a = b then .isTrue (h ▸ rfl) else .isFalse fun e => h (Term.var.inj e)
  | .app a ss, .app b ts =>
    if h : a = b then
      match decEqList ss ts with
      | .isTrue hargs => .isTrue (h ▸ hargs ▸ rfl)
      | .isFalse hargs => .isFalse fun e => hargs (Term.app.inj e).2
    else .isFalse fun e => h (Term.app.inj e).1
  | .const _, .var _ => .isFalse nofun
  | .const _, .app _ _ => .isFalse nofun
  | .var _, .const _ => .isFalse nofun
  | .var _, .app _ _ => .isFalse nofun
  | .app _ _, .const _ => .isFalse nofun
  | .app _ _, .var _ => .isFalse nofun

/-- Decides whether two argument lists are equal. -/
def decEqList : (ss ts : List Term) → Decidable (ss = ts)
  | [], [] => .isTrue rfl
  | [], _ :: _ => .isFalse nofun
  | _ :: _, [] => .isFalse nofun
  | s :: ss, t :: ts =>
    match decEq s t with
    | .isTrue h =>
      match decEqList ss ts with
      | .isTrue hrest => .isTrue (h ▸ hrest ▸ rfl)
      | .isFalse hrest => .isFalse fun e => hrest (List.cons.inj e).2
    | .isFalse h => .isFalse fun e => h (List.cons.inj e).1

end

instance : DecidableEq Term := decEq

mutual

/-- The term and all terms inside it, each before its own arguments. -/
def subterms : Term → List Term
  | .const name => [.const name]
  | .var name => [.var name]
  | .app name args => .app name args :: subtermsList args

/-- The subterms of all arguments, from left to right. -/
def subtermsList : List Term → List Term
  | [] => []
  | t :: ts => t.subterms ++ subtermsList ts

end

/-- The name of a constant. -/
def constName? : Term → Option String
  | .const name => some name
  | _ => none

/-- The constants that occur in a term. -/
def constants (t : Term) : NameSet :=
  .ofList (t.subterms.filterMap constName?)

mutual

/-- Whether one of the given names occurs as a variable. -/
def mentions (names : List String) : Term → Bool
  | .const _ => false
  | .var name => names.contains name
  | .app _ args => mentionsList names args

/-- Whether one of the given names occurs as a variable in an argument. -/
def mentionsList (names : List String) : List Term → Bool
  | [] => false
  | t :: ts => t.mentions names || mentionsList names ts

end

mutual

/-- The term as a user writes it: `name(first, second)` for an application. -/
def text : Term → String
  | .const name => name
  | .var name => name
  | .app name args => name ++ "(" ++ ", ".intercalate (textList args) ++ ")"

/-- The texts of all arguments. -/
def textList : List Term → List String
  | [] => []
  | t :: ts => t.text :: textList ts

end

mutual

/-- The term with the kind of every name shown: `c:` before a constant, `v:` before a variable,
and square brackets around arguments. -/
def treeText : Term → String
  | .const name => "c:" ++ name
  | .var name => "v:" ++ name
  | .app name args => name ++ "[" ++ ", ".intercalate (treeTextList args) ++ "]"

/-- The tree texts of all arguments. -/
def treeTextList : List Term → List String
  | [] => []
  | t :: ts => t.treeText :: treeTextList ts

end

/-! ### The companions on lists, said with the operations of `List` -/

/-- The subterms of a list of terms are those of each, one after the other. -/
theorem subtermsList_eq (ts : List Term) : subtermsList ts = ts.flatMap subterms := by
  induction ts with
  | nil => rfl
  | cons t ts ih => simp [subtermsList, ih]

/-- A list of terms mentions a name if one of the terms does. -/
theorem mentionsList_eq (names : List String) (ts : List Term) :
    mentionsList names ts = ts.any (mentions names) := by
  induction ts with
  | nil => rfl
  | cons t ts ih => simp [mentionsList, ih]

/-- The texts of a list of terms are the texts of its members. -/
theorem textList_eq (ts : List Term) : textList ts = ts.map text := by
  induction ts with
  | nil => rfl
  | cons t ts ih => simp [textList, ih]

end Term
end NaturalDeduction
