/-! How an operation can go wrong. An error is an answer about the input; a violation means that the
caller broke a precondition, and then nothing has changed. -/

namespace FrontEnd

/-- A precondition that the caller broke. -/
inductive Violation where
  /-- A byte offset inside the text that is not on a character boundary. -/
  | splitsCharacter
  /-- A buffer handed over for new tokens that already holds some. -/
  | bufferNotEmpty
  /-- An instruction offset past the end of its block. -/
  | pastBlockEnd
  /-- A position that is too large to be counted. -/
  | pastLastPosition
  /-- A line of a layout that would be indented too far. -/
  | indentTooWide
  deriving DecidableEq

inductive Failure (ε : Type) where
  | error (e : ε)
  | violation (v : Violation)
  deriving DecidableEq

end FrontEnd
