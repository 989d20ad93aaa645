import NaturalDeduction.Rule
import NaturalDeduction.Signature

/-!
# The proof document

A proof in the making is a table of items.  An item is a line, an empty line, a line that introduces
constants, or a box; boxes hold items in turn.  Each item names its box, its neighbours and, if it
is a box, its first item.  Item 0 is the outermost box.  Items are never taken out of the table:
unlinking an item leaves it where it is, so its number in the table stays valid.

The operations here add items, link them into the chain of a box and unlink them.  An operation that
is asked for something the table does not allow reports a `Fault` and changes nothing.

The small steps they are made of, `kind?`, `next?`, `modify`, `setPrev`, `setNext` and the like, report
nothing: of an item that the table does not have they know nothing, and they leave the table as it is.
This hides no mistake.  An item that an operation is given is looked up first, which faults if there is
none; the others are met by following links, and the links of a document that is linked as it should be
lead to items of the table only (`LinkedBy.link_lt_size`).
-/

set_option autoImplicit false

namespace NaturalDeduction

/-- The place of an item in the table. -/
abbrev ItemId := Nat

/-- Why a line is there. -/
inductive Justification where
  | given
  | assumption
  /-- The line is still to be proved. -/
  | goal
  /-- The line follows by a rule from the cited lines and boxes. -/
  | byRule (rule : Rule) (cites : List ItemId)
deriving DecidableEq

namespace Justification

/-- Whether the line is still to be proved. -/
def isGoal : Justification → Bool
  | .goal => true
  | _ => false

/-- Whether the line is taken for granted. -/
def isPremise : Justification → Bool
  | .given | .assumption => true
  | _ => false

/-- Cites `new` wherever `old` was cited. -/
def redirect (old new : ItemId) : Justification → Justification
  | .byRule rule cites => .byRule rule (cites.map fun cite => if cite = old then new else cite)
  | just => just

end Justification

/-- What a box knows about itself. -/
structure BoxData where
  /-- The first item inside. -/
  head : Option ItemId := none
  /-- Whether nothing inside is left to prove. -/
  complete : Bool := false
  /-- Whether the box is shown flush against the next one. -/
  adjacent : Bool := false
  /-- The Skolem constants the box introduces. -/
  skolems : NameSet := ∅
deriving DecidableEq

/-- What an item is.  All but boxes carry a line number. -/
inductive ItemKind where
  | line (formula : Formula) (just : Justification) (number : Nat)
  | empty (number : Nat)
  | constants (names : List String) (number : Nat)
  | box (data : BoxData)
deriving DecidableEq

namespace ItemKind

/-- The line number. -/
def number? : ItemKind → Option Nat
  | .line _ _ number | .empty number | .constants _ number => some number
  | .box _ => none

/-- Gives a line another number. -/
def withNumber (number : Nat) : ItemKind → ItemKind
  | .line formula just _ => .line formula just number
  | .empty _ => .empty number
  | .constants names _ => .constants names number
  | .box data => .box data

/-- Changes what a box knows about itself. -/
def updateBox (f : BoxData → BoxData) : ItemKind → ItemKind
  | .box data => .box (f data)
  | kind => kind

/-- Changes why a line is there. -/
def updateJust (f : Justification → Justification) : ItemKind → ItemKind
  | .line formula just number => .line formula (f just) number
  | kind => kind

end ItemKind

/-- An item of the table with its links. -/
structure Item where
  /-- The box the item stands in. -/
  parent : Option ItemId := none
  /-- The item before it in that box. -/
  prev : Option ItemId := none
  /-- The item after it in that box. -/
  next : Option ItemId := none
  /-- What the item is. -/
  kind : ItemKind
deriving DecidableEq

/-- A proof in the making: the table of items and what is known about names. -/
structure Document where
  items : Array Item
  signature : Signature
deriving DecidableEq

/-- An operation was asked for something the document does not allow. -/
inductive Fault where
  /-- The table has no such item. -/
  | noItem (id : ItemId)
  /-- The item is not a box. -/
  | notABox (id : ItemId)
  /-- The item is not a line with a formula. -/
  | notALine (id : ItemId)
  /-- The item already stands in a box. -/
  | alreadyLinked (id : ItemId)
  /-- The item stands in no box, so nothing can stand beside it or be removed. -/
  | notLinked (id : ItemId)
  /-- The box holds no lines. -/
  | emptyBox (id : ItemId)
  /-- No line has this number. -/
  | noLine (number : Nat)
  /-- A step names a Skolem constant that is not the next one. -/
  | unexpectedSkolem (named next : String)
  /-- A rule got an answer of another kind than it asked for. -/
  | unexpectedInput
  /-- A connective was to join formulas, and there were none. -/
  | nothingToJoin
deriving DecidableEq

namespace Document

/-- The outermost box. -/
def root : ItemId := 0

/-! ### Looking at items -/

/-- An item of the table. -/
def item (d : Document) (id : ItemId) : Except Fault Item :=
  match d.items[id]? with
  | some item => .ok item
  | none => .error (.noItem id)

/-- Asks a question about an item that the table must have. -/
def ask {α : Type} (d : Document) (id : ItemId) (query : Document → ItemId → α) :
    Except Fault α :=
  match d.items[id]? with
  | some _ => .ok (query d id)
  | none => .error (.noItem id)

/-- What an item is. -/
def kind? (d : Document) (id : ItemId) : Option ItemKind :=
  d.items[id]?.map Item.kind

/-- The box an item stands in. -/
def parent? (d : Document) (id : ItemId) : Option ItemId :=
  d.items[id]?.bind Item.parent

/-- The item after an item. -/
def next? (d : Document) (id : ItemId) : Option ItemId :=
  d.items[id]?.bind Item.next

/-- What a box knows about itself. -/
def box? (d : Document) (id : ItemId) : Option BoxData :=
  match d.kind? id with
  | some (.box data) => some data
  | _ => none

/-- Whether an item is a box. -/
def isBox (d : Document) (id : ItemId) : Bool :=
  (d.box? id).isSome

/-- The formula of a line and why it is there. -/
def line? (d : Document) (id : ItemId) : Option (Formula × Justification) :=
  match d.kind? id with
  | some (.line formula just _) => some (formula, just)
  | _ => none

/-- The formula of a line. -/
def formula? (d : Document) (id : ItemId) : Option Formula :=
  (d.line? id).map Prod.fst

/-- Whether an item is a line that is still to be proved. -/
def isGoal (d : Document) (id : ItemId) : Bool :=
  match d.line? id with
  | some (_, just) => just.isGoal
  | none => false

/-- Whether an item is an empty line. -/
def isEmptyLine (d : Document) (id : ItemId) : Bool :=
  match d.kind? id with
  | some (.empty _) => true
  | _ => false

/-- The number of a line; a box has none. -/
def number? (d : Document) (id : ItemId) : Option Nat :=
  (d.kind? id).bind ItemKind.number?

/-- Whether an item stands in the document. -/
def isLinked (d : Document) (id : ItemId) : Bool :=
  id == root || (d.parent? id).isSome

/-- Whether the whole proof is finished. -/
def isComplete (d : Document) : Bool :=
  match d.box? root with
  | some data => data.complete
  | none => false

/-! ### Chains -/

/-- The items met when following the links to the next item, for at most `bound` items. -/
def chainFrom (d : Document) : (bound : Nat) → Option ItemId → List ItemId
  | bound + 1, some id => id :: d.chainFrom bound (d.next? id)
  | _, _ => []

/-- The items of a box, in order.  No chain is longer than the table. -/
def children (d : Document) (id : ItemId) : List ItemId :=
  d.chainFrom d.items.size ((d.box? id).bind BoxData.head)

/-- The last item of a box. -/
def lastChild? (d : Document) (id : ItemId) : Option ItemId :=
  (d.children id).getLast?

/-- The boxes met when following the links to the box around, for at most `bound` boxes. -/
def boxesFrom (d : Document) : (bound : Nat) → Option ItemId → List ItemId
  | bound + 1, some id => id :: d.boxesFrom bound (d.parent? id)
  | _, _ => []

/-- The boxes around an item, innermost first. -/
def ancestors (d : Document) (id : ItemId) : List ItemId :=
  d.boxesFrom d.items.size (d.parent? id)

/-! ### Changing items -/

/-- Changes one item of the table. -/
def modify (d : Document) (id : ItemId) (f : Item → Item) : Document :=
  { d with items := d.items.modify id f }

/-- Changes what one item is, and leaves its links. -/
def modifyKind (d : Document) (id : ItemId) (f : ItemKind → ItemKind) : Document :=
  d.modify id fun item => { item with kind := f item.kind }

/-- Changes what a box knows about itself. -/
def updateBox (d : Document) (id : ItemId) (f : BoxData → BoxData) : Except Fault Document := do
  let item ← d.item id
  match item.kind with
  | .box _ => return d.modifyKind id (ItemKind.updateBox f)
  | _ => throw (.notABox id)

/-- Makes an item the first one of a box. -/
def setHead (d : Document) (id : ItemId) (head : Option ItemId) : Except Fault Document :=
  d.updateBox id fun data => { data with head }

/-- Gives a line another justification. -/
def setJust (d : Document) (id : ItemId) (just : Justification) : Except Fault Document := do
  let item ← d.item id
  match item.kind with
  | .line _ _ _ => return d.modifyKind id (ItemKind.updateJust fun _ => just)
  | _ => throw (.notALine id)

/-- Cites `new` wherever `old` was cited, in the whole table. -/
def redirect (d : Document) (old new : ItemId) : Document :=
  { d with
    items := d.items.map fun item =>
      { item with kind := item.kind.updateJust (Justification.redirect old new) } }

/-- Adds an item to the table that stands in no box. -/
def alloc (d : Document) (kind : ItemKind) : ItemId × Document :=
  (d.items.size, { d with items := d.items.push { kind } })

/-- Sets the links of an item. -/
def relink (d : Document) (id : ItemId) (parent prev next : Option ItemId) : Document :=
  d.modify id fun item => { item with parent, prev, next }

/-- Sets the link of an item to the one before it. -/
def setPrev (d : Document) (id : ItemId) (prev : Option ItemId) : Document :=
  d.modify id fun item => { item with prev }

/-- Sets the link of an item to the one after it. -/
def setNext (d : Document) (id : ItemId) (next : Option ItemId) : Document :=
  d.modify id fun item => { item with next }

/-- Links an item that stands in no box into a chain, just before `anchor`. -/
def linkBefore (d : Document) (anchor id : ItemId) : Except Fault Document := do
  let item ← d.item id
  if item.parent.isSome then
    throw (.alreadyLinked id)
  let place ← d.item anchor
  match place.parent with
  | none => throw (.notLinked anchor)
  | some parent =>
    let d := (d.relink id (some parent) place.prev (some anchor)).setPrev anchor (some id)
    match place.prev with
    | some prev => return d.setNext prev (some id)
    | none => d.setHead parent (some id)

/-- Links an item that stands in no box into a chain, just after `anchor`. -/
def linkAfter (d : Document) (anchor id : ItemId) : Except Fault Document := do
  let item ← d.item id
  if item.parent.isSome then
    throw (.alreadyLinked id)
  let place ← d.item anchor
  match place.parent with
  | none => throw (.notLinked anchor)
  | some parent =>
    let d := (d.relink id (some parent) (some anchor) place.next).setNext anchor (some id)
    match place.next with
    | some next => return d.setPrev next (some id)
    | none => return d

/-- Adds an item just before `anchor`. -/
def prepend (d : Document) (anchor : ItemId) (kind : ItemKind) :
    Except Fault (ItemId × Document) := do
  let (id, d) := d.alloc kind
  return (id, ← d.linkBefore anchor id)

/-- Adds an item just after `anchor`. -/
def append (d : Document) (anchor : ItemId) (kind : ItemKind) :
    Except Fault (ItemId × Document) := do
  let (id, d) := d.alloc kind
  return (id, ← d.linkAfter anchor id)

/-- Adds an item at the end of a box. -/
def pushChild (d : Document) (parent : ItemId) (kind : ItemKind) :
    Except Fault (ItemId × Document) := do
  let _ ← d.item parent
  match d.lastChild? parent with
  | some last => d.append last kind
  | none =>
    let (id, d) := d.alloc kind
    return (id, ← (d.relink id (some parent) none none).setHead parent (some id))

/-- Unlinks an item from its chain. -/
def delete (d : Document) (id : ItemId) : Except Fault Document := do
  let item ← d.item id
  match item.parent with
  | none => throw (.notLinked id)
  | some parent =>
    let d ← match item.prev with
      | some prev => pure (d.setNext prev item.next)
      | none => d.setHead parent item.next
    let d := match item.next with
      | some next => d.setPrev next item.prev
      | none => d
    return d.relink id none none none

/-- Unlinks several items. -/
def deleteAll (d : Document) : List ItemId → Except Fault Document
  | [] => .ok d
  | id :: ids => do (← d.delete id).deleteAll ids

/-! ### A new document -/

/-- The items of a new document: the given lines, an empty line and the goal. -/
def openingKinds (givens : List Formula) (goal : Formula) : List ItemKind :=
  givens.map (fun f => .line f .given 0) ++ [.empty 0, .line goal .goal 0]

/-- The document of a proof that has just begun: the givens, an empty line and the goal stand in
the outermost box one after the other. -/
def start (givens : List Formula) (goal : Formula) (signature : Signature) : Document :=
  let kinds := openingKinds givens goal
  let outermost : Item := { kind := .box { head := some 1 } }
  let rows := kinds.mapIdx fun i kind =>
    { parent := some root
      prev := if i = 0 then none else some i
      next := if i + 1 < kinds.length then some (i + 2) else none
      kind := kind.withNumber (i + 1) : Item }
  { items := (outermost :: rows).toArray, signature }

end Document
end NaturalDeduction
