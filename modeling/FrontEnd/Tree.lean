import FrontEnd.Failure

/-! Labelled trees and their two texts: on one line, and laid out over lines that are indented by
their depth. The layout is first a list of lines with depths, then a text. A layout is shown only if
none of its lines is indented too far. -/

namespace FrontEnd

inductive Tree where
  | null
  /-- A text, shown between double quotes. -/
  | str (text : String)
  /-- A text, shown as it is. -/
  | value (text : String)
  | list (items : List Tree)
  | node (tag : String) (fields : List (String × Tree))

namespace Tree

/-- What holds of a tree when it holds of its parts holds of every tree. -/
@[induction_eliminator]
theorem ind {motive : Tree → Prop} (null : motive null) (str : ∀ text, motive (str text))
    (value : ∀ text, motive (value text))
    (list : ∀ items, (∀ t ∈ items, motive t) → motive (list items))
    (node : ∀ tag fields, (∀ f ∈ fields, motive f.2) → motive (node tag fields)) :
    ∀ t, motive t :=
  @Tree.rec motive (fun ts => ∀ t ∈ ts, motive t) (fun fs => ∀ f ∈ fs, motive f.2)
    (fun f => motive f.2) null str value list node (by simp)
    (fun _ _ h hs => by simpa using ⟨h, hs⟩) (by simp)
    (fun f fs h hs => List.forall_mem_cons.2 ⟨h, hs⟩) (fun _ _ h => h)

def ofOption {α : Type} (f : α → Tree) : Option α → Tree
  | none => null
  | some a => f a

def tag? : Tree → Option String
  | node tag _ => some tag
  | _ => none

def isScalar : Tree → Bool
  | null => true
  | str _ => true
  | value _ => true
  | list _ => false
  | node _ _ => false

mutual

def inline : Tree → String
  | null => "null"
  | str text => "\"" ++ text ++ "\""
  | value text => text
  | list items => "[" ++ ", ".intercalate (inlineItems items) ++ "]"
  | node tag fields =>
    if fields.isEmpty then tag ++ " \x7b\x7d"
    else tag ++ " \x7b " ++ ", ".intercalate (inlineFields fields) ++ " \x7d"

def inlineItems : List Tree → List String
  | [] => []
  | t :: ts => inline t :: inlineItems ts

def inlineFields : List (String × Tree) → List String
  | [] => []
  | (name, t) :: fs => (name ++ " = " ++ inline t) :: inlineFields fs

end

structure Line where
  depth : Nat
  text : String
  deriving DecidableEq

namespace Line

/-- The number of blanks in front of the line: two for each level. -/
def blanks (l : Line) : Nat :=
  2 * l.depth

def render (l : Line) : String :=
  String.ofList (List.replicate l.blanks ' ') ++ l.text

def lead (text : String) : List Line → List Line
  | [] => []
  | l :: ls => ⟨l.depth, text ++ l.text⟩ :: ls

def trail (text : String) : List Line → List Line
  | [] => []
  | [l] => [⟨l.depth, l.text ++ text⟩]
  | l :: ls => l :: trail text ls

end Line

/-- Whether a node with these fields stays on one line: it has none, or a single scalar. -/
def fitsLine : List (String × Tree) → Bool
  | [] => true
  | [f] => f.2.isScalar
  | _ => false

mutual

/-- The lines of the tree at a depth. Every field of a node and every item of a list starts a line;
fields are separated by commas, items are ended by them. -/
def lines (depth : Nat) : Tree → List Line
  | node tag fields =>
    if fitsLine fields then [⟨depth, inline (node tag fields)⟩]
    else ⟨depth, tag ++ " \x7b"⟩ :: fieldLines (depth + 1) fields ++ [⟨depth, "\x7d"⟩]
  | list items =>
    if items.isEmpty then [⟨depth, "[]"⟩]
    else ⟨depth, "["⟩ :: itemLines (depth + 1) items ++ [⟨depth, "]"⟩]
  | null => [⟨depth, inline null⟩]
  | str text => [⟨depth, inline (str text)⟩]
  | value text => [⟨depth, inline (value text)⟩]

def itemLines (depth : Nat) : List Tree → List Line
  | [] => []
  | t :: ts => Line.trail "," (lines depth t) ++ itemLines depth ts

def fieldLines (depth : Nat) : List (String × Tree) → List Line
  | [] => []
  | (name, t) :: fs =>
    let ls := Line.lead (name ++ " = ") (lines depth t)
    (if fs.isEmpty then ls else Line.trail "," ls) ++ fieldLines depth fs

end

theorem inlineItems_eq_map (ts : List Tree) : inlineItems ts = ts.map inline := by
  induction ts with
  | nil => rfl
  | cons t ts ih => rw [inlineItems, ih, List.map_cons]

theorem inlineFields_eq_map (fs : List (String × Tree)) :
    inlineFields fs = fs.map fun f => f.1 ++ " = " ++ inline f.2 := by
  induction fs with
  | nil => rfl
  | cons f fs ih => rw [inlineFields, ih, List.map_cons]

theorem itemLines_eq_flatMap (depth : Nat) (ts : List Tree) :
    itemLines depth ts = ts.flatMap fun t => Line.trail "," (lines depth t) := by
  induction ts with
  | nil => rfl
  | cons t ts ih => rw [itemLines, ih, List.flatMap_cons]

def layout (indent : Nat) (t : Tree) : String :=
  "\n".intercalate ((lines indent t).map Line.render)

/-- The most blanks that a line may have in front: the largest word of 16 bits. -/
def maxBlanks : Nat := 65535

/-- The layout, for a tree none of whose lines is indented too far. -/
def checkedLayout (indent : Nat) (t : Tree) : Except Violation String :=
  if (lines indent t).all fun l => l.blanks ≤ maxBlanks then .ok (t.layout indent)
  else .error .indentTooWide

def render (t : Tree) : Option Nat → Except Violation String
  | none => .ok t.inline
  | some indent => t.checkedLayout indent

end Tree

end FrontEnd
