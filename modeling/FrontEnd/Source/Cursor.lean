import FrontEnd.Source.Location
import FrontEnd.Source.Position

/-! A cursor over a text. Its position is a byte offset that never lies inside a character; behind
the end of the text it stands where it was put, and there is nothing left to read. -/

namespace FrontEnd.Source

/-- A text and the byte offset of its current character. -/
structure Cursor where
  text : String
  position : Nat

namespace Cursor

def ofText (text : String) : Cursor := ⟨text, 0⟩

def rest (c : Cursor) : List Char :=
  (dropBytes? c.position c.text.toList).getD []

def current (c : Cursor) : Option Char :=
  c.rest.head?

def next (c : Cursor) : Option Char :=
  c.rest.tail.head?

def isAtEnd (c : Cursor) : Bool :=
  c.text.utf8ByteSize ≤ c.position

/-- Puts the cursor at a byte offset, which must not lie inside a character. -/
def setPosition (position : Nat) (c : Cursor) : Except Violation Cursor :=
  match dropBytes? position c.text.toList with
  | some _ => .ok { c with position }
  | none => .error .splitsCharacter

def advanceBy (count : Nat) (c : Cursor) : Except Violation Cursor := do
  c.setPosition (← stepForward count c.position)

def advance (c : Cursor) : Cursor :=
  match c.current with
  | some ch => { c with position := c.position + ch.utf8Size }
  | none => c

/-- The next `count` characters, or nothing if fewer remain. -/
def peek (count : Nat) (c : Cursor) : List Char :=
  if count ≤ c.rest.length then c.rest.take count else []

/-- The longest run of characters with the property, from the current one on. -/
def peekWhile (p : Char → Bool) (c : Cursor) : List Char :=
  c.rest.takeWhile p

def location (c : Cursor) : Except Violation Location :=
  match locate? c.text c.position with
  | some here => .ok here
  | none => .error .splitsCharacter

end Cursor

end FrontEnd.Source
