import NaturalDeduction.Proofs.Document.Moves

/-!
# Closing goals in a row

Which goals of a chain are closed depends only on what stands in it, item after item: empty lines,
goals, premises, lines that follow by a rule, and the rest.  These are the `Role`s, and `Role.close`
does to the row of roles what closing the goals does to the chain.

The search goes on below a goal that has been closed, so neither this goal nor the line that took its
place is tried on the next goal.  Of several goals with one formula below a line that has it, one is
closed and the others wait: there are `n` goals waiting afterwards just if there were `n + 1`
(`Role.due_close_iff`).
-/

set_option autoImplicit false

namespace NaturalDeduction

/-- What an item counts for when goals are closed. -/
inductive Role where
  /-- An empty line. -/
  | gap
  /-- A line that is still to be proved. -/
  | goal (f : Formula)
  /-- A line that is given or assumed. -/
  | premise (f : Formula)
  /-- A line that follows by a rule. -/
  | derived (f : Formula)
  /-- Any other line, or a box. -/
  | other
deriving DecidableEq

namespace Role

variable {x y z : Role} {f : Formula} {n : Nat} {row rest : List Role}

/-- The line has the formula and is no goal. -/
def Says (x : Role) (f : Formula) : Prop := x = .premise f ∨ x = .derived f

/-- Whether a line proves a goal, with an empty line between them. -/
def proves : Role → Role → Role → Bool
  | .premise f, .gap, .goal g => f = g
  | .derived f, .gap, .goal g => f = g
  | _, _, _ => false

/-- What is left of a line and the goal it proves. -/
def kept : Role → List Role
  | .premise f => [.premise f, .derived f]
  | x => [x]

/-- Closes the goals of a row. -/
def close : List Role → List Role
  | x :: y :: z :: rest =>
    if proves x y z then x.kept ++ close rest else x :: close (y :: z :: rest)
  | row => row

/-- Drops the empty lines of a complete row. -/
def settle (complete : Bool) (row : List Role) : List Role :=
  if complete then row.filter (· ≠ .gap) else row

/-- So many goals with one formula, each below an empty line. -/
def stack : Nat → Formula → List Role
  | 0, _ => []
  | n + 1, f => .gap :: .goal f :: stack n f

/-- Somewhere in the row a line stands above so many goals with its formula. -/
def Due (n : Nat) (row : List Role) : Prop :=
  ∃ x f, Says x f ∧ x :: stack n f <:+: row

/-- A line proves a goal if it has its formula and an empty line is between them. -/
theorem proves_iff : proves x y z = true ↔ ∃ f, Says x f ∧ y = .gap ∧ z = .goal f := by
  constructor
  · intro h
    unfold proves at h
    split at h
    · exact ⟨_, Or.inl rfl, rfl, by simpa using Eq.symm (of_decide_eq_true h)⟩
    · exact ⟨_, Or.inr rfl, rfl, by simpa using Eq.symm (of_decide_eq_true h)⟩
    · simp at h
  · rintro ⟨f, rfl | rfl, rfl, rfl⟩
    all_goals simp [proves]

/-- A line has only one formula. -/
theorem Says.unique {g : Formula} (hf : Says x f) (hg : Says x g) : f = g := by
  rcases hf with rfl | rfl
  all_goals simpa [Says] using hg

/-! ### Goals that are due -/

/-- Goals are due below the first line, or below one of the others. -/
theorem due_cons_iff : Due n (x :: row) ↔ (∃ f, Says x f ∧ stack n f <+: row) ∨ Due n row := by
  constructor
  · rintro ⟨a, f, hsaid, hwindow⟩
    rcases List.infix_cons_iff.1 hwindow with hstack | hwindow
    · obtain ⟨rfl, hrest⟩ := List.cons_prefix_cons.1 hstack
      exact Or.inl ⟨f, hsaid, hrest⟩
    · exact Or.inr ⟨a, f, hsaid, hwindow⟩
  · rintro (⟨f, hsaid, hstack⟩ | ⟨a, f, hsaid, hwindow⟩)
    · exact ⟨x, f, hsaid, (List.cons_prefix_cons.2 ⟨rfl, hstack⟩).isInfix⟩
    · exact ⟨a, f, hsaid, List.infix_cons hwindow⟩

/-- An item without a formula makes no goals due. -/
theorem due_cons_of_silent (h : ∀ f, ¬ Says x f) : Due n (x :: row) ↔ Due n row := by
  rw [due_cons_iff, or_iff_right]
  rintro ⟨f, hsaid, -⟩
  exact h f hsaid

/-- Each goal of a stack comes with its empty line. -/
theorem length_stack (n : Nat) (f : Formula) : (stack n f).length = 2 * n := by
  induction n with
  | zero => rfl
  | succ n ih => rw [stack, List.length_cons, List.length_cons, ih]; omega

/-- A row is longer than the stack of goals that are due in it. -/
theorem Due.lt_length (h : Due n row) : 2 * n < row.length := by
  obtain ⟨x, f, -, hwindow⟩ := h
  have hlen := hwindow.length_le
  rw [List.length_cons, length_stack] at hlen
  omega

/-- Nothing is due in a row of fewer than three items. -/
theorem not_due_of_short (h : ∀ x y z rest, row = x :: y :: z :: rest → False) :
    ¬ Due (n + 1) row := by
  intro hdue
  have hlen := hdue.lt_length
  rcases row with _ | ⟨x, _ | ⟨y, _ | ⟨z, rest⟩⟩⟩
  · simp at hlen
  · simp at hlen
  · simp at hlen
    omega
  · exact h x y z rest rfl

/-- A line proves the first goal of a stack with its formula. -/
theorem proves_of_stack (hsaid : Says x f) (h : stack (n + 1) f <+: y :: z :: rest) :
    proves x y z = true := by
  simp only [stack, List.cons_prefix_cons] at h
  obtain ⟨rfl, rfl, -⟩ := h
  exact proves_iff.2 ⟨f, hsaid, rfl, rfl⟩

/-- Where goals are due there are an empty line and a goal. -/
theorem Due.mem (h : Due (n + 1) row) : .gap ∈ row ∧ ∃ f, .goal f ∈ row := by
  obtain ⟨x, f, -, hwindow⟩ := h
  exact ⟨hwindow.subset (by simp [stack]), f, hwindow.subset (by simp [stack])⟩

/-! ### The closed row -/

/-- An item that proves nothing stays, and the rest is closed. -/
theorem close_cons (h : ∀ f, ¬ Says x f) : close (x :: row) = x :: close row := by
  rcases row with _ | ⟨y, _ | ⟨z, rest⟩⟩
  · rfl
  · rfl
  · have hproves : proves x y z = false := by
      rw [Bool.eq_false_iff]
      intro hproves
      obtain ⟨f, hsaid, -⟩ := proves_iff.1 hproves
      exact h f hsaid
    simp [close, hproves]

/-- An empty line says nothing. -/
theorem not_says_gap (f : Formula) : ¬ Says .gap f := by simp [Says]

/-- A goal says nothing. -/
theorem not_says_goal (g f : Formula) : ¬ Says (.goal g) f := by simp [Says]

/-- Closing goals keeps the first item of a row. -/
theorem head?_close (row : List Role) : (close row).head? = row.head? := by
  fun_cases close row with
  | case1 x y z rest hproves => cases x <;> rfl
  | case2 x y z rest hproves => rfl
  | case3 row => rfl

/-- An item without a formula stays where it is when the goals of the row are closed, if it is the
first one. -/
theorem cons_prefix_close_iff {xs : List Role} (h : ∀ f, ¬ Says x f) :
    x :: xs <+: close row ↔ ∃ rest, row = x :: rest ∧ xs <+: close rest := by
  constructor
  · rintro ⟨ys, hys⟩
    have hhead := head?_close row
    rw [← hys] at hhead
    obtain ⟨rest, rfl⟩ := List.head?_eq_some_iff.1 hhead.symm
    rw [close_cons h] at hys
    exact ⟨rest, rfl, ys, (List.cons.inj hys).2⟩
  · rintro ⟨rest, rfl, hstack⟩
    rw [close_cons h]
    exact List.cons_prefix_cons.2 ⟨rfl, hstack⟩

/-- A row begins with a stack of goals if its first goal has the formula and the rest begins with
the other goals. -/
theorem stack_succ_prefix_cons_iff {g : Formula} :
    stack (n + 1) f <+: .gap :: .goal g :: rest ↔ f = g ∧ stack n f <+: rest := by
  simp [stack, List.cons_prefix_cons]

/-- Goals at the top of a row are at the top of the closed row. -/
theorem stack_prefix_close_iff : stack n f <+: close row ↔ stack n f <+: row := by
  induction n generalizing row with
  | zero => simp [stack]
  | succ n ih =>
    rw [stack, cons_prefix_close_iff not_says_gap]
    simp only [cons_prefix_close_iff (not_says_goal f), ih]
    constructor
    · rintro ⟨_, rfl, rest, rfl, hstack⟩
      exact stack_succ_prefix_cons_iff.2 ⟨rfl, hstack⟩
    · rintro ⟨ys, rfl⟩
      exact ⟨_, rfl, _, rfl, List.prefix_append _ _⟩

/-- Below a line and the goal it proves, one goal less is due. -/
theorem due_kept_append (h : Says x f) :
    Due (n + 1) (x.kept ++ row) ↔ stack (n + 1) f <+: row ∨ Due (n + 1) row := by
  have hderived : Due (n + 1) (.derived f :: row) ↔ stack (n + 1) f <+: row ∨ Due (n + 1) row := by
    rw [due_cons_iff]
    refine or_congr_left ⟨?_, fun hstack => ⟨f, Or.inr rfl, hstack⟩⟩
    rintro ⟨g, hsaid, hstack⟩
    exact hsaid.unique (Or.inr rfl) ▸ hstack
  rcases h with rfl | rfl
  · rw [← hderived, kept, List.cons_append, due_cons_iff, or_iff_right]
    · rfl
    · rintro ⟨g, -, hstack⟩
      simp [stack, List.cons_prefix_cons] at hstack
  · exact hderived

/-- Closing the goals of a row leaves one goal less to close wherever there were some. -/
theorem due_close_iff (n : Nat) (row : List Role) : Due (n + 1) (close row) ↔ Due (n + 2) row := by
  fun_induction close row with
  | case1 x y z rest hproves ih =>
    obtain ⟨f, hsaid, rfl, rfl⟩ := proves_iff.1 hproves
    rw [due_kept_append hsaid, stack_prefix_close_iff, ih, due_cons_iff,
      due_cons_of_silent not_says_gap, due_cons_of_silent (not_says_goal f)]
    refine or_congr_left ⟨fun hstack => ⟨f, hsaid, ?_⟩, ?_⟩
    · exact stack_succ_prefix_cons_iff.2 ⟨rfl, hstack⟩
    · rintro ⟨g, hg, hstack⟩
      obtain ⟨rfl, hrest⟩ := stack_succ_prefix_cons_iff.1 hstack
      exact hrest
  | case2 x y z rest hproves ih =>
    -- a goal at the top would have been closed
    rw [due_cons_iff, due_cons_iff, ih]
    refine or_congr_left ⟨?_, ?_⟩
    · rintro ⟨f, hsaid, hstack⟩
      exact absurd (proves_of_stack hsaid (stack_prefix_close_iff.1 hstack)) hproves
    · rintro ⟨f, hsaid, hstack⟩
      exact absurd (proves_of_stack hsaid hstack) hproves
  | case3 row hshort => exact iff_of_false (not_due_of_short hshort) (not_due_of_short hshort)

/-- Closing goals makes no row longer. -/
theorem length_close_le (row : List Role) : (close row).length ≤ row.length := by
  fun_induction close row with
  | case1 x y z rest hproves ih =>
    have hkept : x.kept.length ≤ 2 := by cases x <;> simp [kept]
    simp only [List.length_append, List.length_cons]
    omega
  | case2 x y z rest hproves ih => simpa using ih
  | case3 row hshort => exact Nat.le_refl _

/-- Dropping empty lines makes no row longer. -/
theorem length_settle_le (complete : Bool) (row : List Role) :
    (settle complete row).length ≤ row.length := by
  cases complete with
  | false => exact Nat.le_refl _
  | true => exact List.length_filter_le _ _

/-- A goal that is closed makes the row shorter. -/
theorem length_close_lt (h : Due 1 row) : (close row).length < row.length := by
  fun_induction close row with
  | case1 x y z rest hproves ih =>
    have hkept : x.kept.length ≤ 2 := by cases x <;> simp [kept]
    have hrest := length_close_le rest
    simp only [List.length_append, List.length_cons]
    omega
  | case2 x y z rest hproves ih =>
    rcases due_cons_iff.1 h with ⟨f, hsaid, hstack⟩ | hdue
    · exact absurd (proves_of_stack hsaid hstack) hproves
    · simpa using ih hdue
  | case3 row hshort => exact absurd h (not_due_of_short hshort)

end Role

/-- What an item of this kind counts for when goals are closed. -/
def ItemKind.role : ItemKind → Role
  | .empty _ => .gap
  | .line f .goal _ => .goal f
  | .line f (.byRule _ _) _ => .derived f
  | .line f _ _ => .premise f
  | _ => .other

namespace Document

variable {d e : Document} {id box : ItemId} {f : Formula} {V : List Meaning → Formula → Prop}

/-- What an item counts for when goals are closed. -/
def role (d : Document) (id : ItemId) : Role := ((d.core? id).map ItemKind.role).getD .other

/-- What stands in a box, item after item. -/
def roles (d : Document) (box : ItemId) : List Role := (d.children box).map d.role

/-- Items that agree apart from links and numbers have the same role. -/
theorem role_congr {i j : ItemId} (h : e.core? i = d.core? j) : e.role i = d.role j := by
  rw [role, role, h]

/-- The roles in a box depend on its items only. -/
theorem roles_congr (hkids : e.children = d.children) (hcore : ∀ j, e.core? j = d.core? j)
    (box : ItemId) : e.roles box = d.roles box := by
  rw [roles, roles, hkids]
  exact List.map_congr_left fun j _ => role_congr (hcore j)

/-- The gaps are the empty lines. -/
theorem role_eq_gap_iff : d.role id = .gap ↔ d.isEmptyLine id = true := by
  rw [role, isEmptyLine_eq_core]
  rcases d.core? id with _ | (⟨_, _ | _ | _ | _, _⟩ | _ | _ | _) <;> simp [ItemKind.role]

/-- The goals are the goals of the document. -/
theorem role_eq_goal_iff : d.role id = .goal f ↔ d.line? id = some (f, .goal) := by
  rw [role, line?_eq_core]
  rcases d.core? id with _ | (⟨_, _ | _ | _ | _, _⟩ | _ | _ | _) <;> simp [ItemKind.role]

/-- The premises are the lines that are given or assumed. -/
theorem role_eq_premise_iff :
    d.role id = .premise f ↔ ∃ just, d.line? id = some (f, just) ∧ just.isPremise = true := by
  rw [role, line?_eq_core]
  rcases d.core? id with _ | (⟨_, _ | _ | _ | _, _⟩ | _ | _ | _) <;>
    simp [ItemKind.role, Justification.isPremise]

/-- The derived lines are those that a rule justifies. -/
theorem role_eq_derived_iff :
    d.role id = .derived f ↔ ∃ rule cites, d.line? id = some (f, .byRule rule cites) := by
  rw [role, line?_eq_core]
  rcases d.core? id with _ | (⟨_, _ | _ | _ | _, _⟩ | _ | _ | _) <;> simp [ItemKind.role]

/-- A line with a formula says it unless it is a goal. -/
theorem says_role_iff :
    (d.role id).Says f ↔ ∃ just, d.line? id = some (f, just) ∧ just.isGoal = false := by
  rw [Role.Says, role_eq_premise_iff, role_eq_derived_iff]
  rcases d.line? id with _ | ⟨g, _ | _ | _ | _⟩ <;>
    simp [Justification.isPremise, Justification.isGoal]

/-- There is a goal among the roles of a box if there is one in the box. -/
theorem exists_goal_mem_roles_iff :
    (∃ f, .goal f ∈ d.roles box) ↔ ∃ id ∈ d.children box, d.isGoal id = true := by
  simp only [roles, List.mem_map, role_eq_goal_iff]
  constructor
  · rintro ⟨f, id, hid, hline⟩
    exact ⟨id, hid, by simp [isGoal, hline, Justification.isGoal]⟩
  · rintro ⟨id, hid, hgoal⟩
    obtain ⟨f, hline⟩ := exists_line?_of_isGoal hgoal
    exact ⟨f, id, hid, hline⟩

/-- A line, an empty line and a goal with the formula of the line stand right below each other. -/
def Closable (d : Document) (box : ItemId) : Prop :=
  ∃ x gap goal f just, [x, gap, goal] <:+: d.children box ∧ d.line? x = some (f, just) ∧
    just.isGoal = false ∧ d.isEmptyLine gap = true ∧ d.line? goal = some (f, .goal)

/-- A goal can be closed exactly if one is due. -/
theorem closable_iff_due : d.Closable box ↔ Role.Due 1 (d.roles box) := by
  constructor
  · rintro ⟨x, gap, goal, f, just, hwindow, hx, hjust, hgap, hgoal⟩
    refine ⟨d.role x, f, says_role_iff.2 ⟨just, hx, hjust⟩, ?_⟩
    have hrow := hwindow.map d.role
    rwa [List.map_cons, List.map_cons, List.map_cons, role_eq_gap_iff.2 hgap,
      role_eq_goal_iff.2 hgoal] at hrow
  · rintro ⟨_, f, hsaid, hwindow⟩
    obtain ⟨ids, hids, hroles⟩ := List.infix_map_iff.1 hwindow
    obtain ⟨x, gap, goal, rfl⟩ : ∃ x gap goal, ids = [x, gap, goal] :=
      List.length_eq_three.1 (by simpa [Role.stack] using (congrArg List.length hroles).symm)
    simp only [Role.stack, List.map_cons, List.map_nil, List.cons.injEq, and_true] at hroles
    obtain ⟨rfl, hgap, hgoal⟩ := hroles
    obtain ⟨just, hx, hjust⟩ := says_role_iff.1 hsaid
    exact ⟨x, gap, goal, f, just, hids, hx, hjust, role_eq_gap_iff.1 hgap.symm,
      role_eq_goal_iff.1 hgoal.symm⟩

/-! ### Rows and moves -/

/-- Marks make no difference to roles. -/
theorem Marked.role_eq (m : Marked d e box) (j : ItemId) : e.role j = d.role j := by
  obtain hsame | ⟨data, hd, he⟩ := m.core?_cases j
  · exact role_congr hsame
  · rw [role, role, hd, he]
    rfl

/-- Dropping a goal makes no difference to roles. -/
theorem DroppedGoal.role_eq {us ys : List ItemId} {x goal : ItemId}
    (g : DroppedGoal d e box us x goal ys) (j : ItemId) : e.role j = d.role j := by
  rw [role, role, g.core]
  rcases d.core? j with _ | (⟨_, _ | _ | _ | _, _⟩ | _ | _ | _) <;> rfl

/-- A move at a box changes nothing in the roles of what stands elsewhere. -/
theorem Move.role_eq (h : Move d e box) (hid : id ∉ d.children box) : e.role id = d.role id := by
  cases h with
  | @tick mid us ys x gap goal f just dropped _ _ _ ticked _ =>
    have hne : id ≠ goal := by
      rintro rfl
      exact hid (by simp [dropped.before])
    rw [role_congr (ticked.core?_of_ne hne), role_congr (dropped.core id)]
  | merge dropped _ merged _ => rw [merged.role_eq, role_congr (dropped.core id)]
  | vacate _ dropped _ => exact role_congr (dropped.core id)
  | mark marked _ => exact marked.role_eq id
  | relabel _ _ core _ => exact role_congr (core id)

/-- Moves at other boxes leave the roles in a box as they are. -/
theorem Moves.roles_eq {inside : ItemId → Prop} (h : Moves inside d e)
    (htick : ∀ f, V [.formula f] f) (hd : Coherent V d) {b : ItemId} (hb : ¬ inside b) :
    e.roles b = d.roles b := by
  induction h with
  | refl => rfl
  | @tail mid e hsteps hstep ih =>
    obtain ⟨box, hbox, hmove⟩ := hstep
    have hlinked := (coherent hsteps htick hd).linked
    have hne : b ≠ box := by
      rintro rfl
      exact hb hbox
    rw [← ih, roles, roles, (hmove.sameAt hlinked hne).children]
    refine List.map_congr_left fun j hj => hmove.role_eq fun hj' => ?_
    exact hne (hlinked.linkedBy.box_unique hj hj')

end Document

end NaturalDeduction
