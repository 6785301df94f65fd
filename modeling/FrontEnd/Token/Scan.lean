import FrontEnd.Failure
import FrontEnd.Source.Location
import FrontEnd.Token.Basic
import FrontEnd.Token.Segment

/-! The tokens of a source. The source is cut into segments from its front on, up to its end or to
the first text that starts with no segment; each segment that is not layout or a comment is a token.
-/

namespace FrontEnd

namespace Segment

def kind? : Segment → Option TokenKind
  | blank _ => none
  | comment _ => none
  | word text =>
    match Keyword.ofText? (String.ofList text) with
    | some k => some (.keyword k)
    | none => some .name
  | number text => some (if text.contains '.' then .float else .int)
  | quoted _ => some .string
  | symbol s => some (.symbol s)

def token? (start : Nat) (s : Segment) : Option Token :=
  s.kind?.map fun kind =>
    match s with
    | quoted body => ⟨kind, String.ofList body, start + 1⟩
    | _ => ⟨kind, String.ofList s.chars, start⟩

/-- Cuts the text into segments, put behind `done` (which is in reverse), up to its end or to a
fault. -/
def splitFrom (done : List Segment) : List Char → List Segment × Option ScanFault
  | [] => (done.reverse, none)
  | c :: cs =>
    match _h : scan c cs with
    | .ok (s, rest) => splitFrom (s :: done) rest
    | .error fault => (done.reverse, some fault)
termination_by cs => cs.length
decreasing_by exact length_rest_of_scan _h

def split (cs : List Char) : List Segment × Option ScanFault :=
  splitFrom [] cs

def tokens (start : Nat) : List Segment → List Token
  | [] => []
  | s :: rest =>
    match s.token? start with
    | some t => t :: tokens (start + Source.width s.chars) rest
    | none => tokens (start + Source.width s.chars) rest

end Segment

/-- A source that is no sequence of tokens, and where that shows. -/
structure ScanError where
  reason : ScanReason
  character : Char
  /-- The byte offset of the character. -/
  position : Nat
  location : Source.Location
  deriving DecidableEq

namespace ScanError

def ofFault (front : List Char) (fault : ScanFault) : ScanError where
  reason := fault.reason
  character := fault.character
  position := Source.width (front ++ fault.lead)
  location := Source.Location.start.after (front ++ fault.lead)

def reasonText : ScanReason → String
  | .unexpectedCharacter => "unexpected character"
  | .malformedNumber => "malformed number literal"
  | .unterminatedString => "unterminated string literal"

def message (e : ScanError) : String :=
  e.location.text ++ ": " ++ reasonText e.reason ++ " (found " ++ Text.quoteChar e.character ++ ")"

end ScanError

/-- The tokens in front of the first fault of the source, and that fault. -/
def scanSource (src : String) : List Token × Option ScanError :=
  let (segments, fault?) := Segment.split src.toList
  (Segment.tokens 0 segments, fault?.map (.ofFault (segments.flatMap Segment.chars)))

def tokenize (src : String) : Except ScanError (List Token) :=
  match scanSource src with
  | (tokens, none) => .ok tokens
  | (_, some e) => .error e

/-- Puts the tokens of the source into a buffer, which must be empty. -/
def tokenizeInto (buffer : List Token) (src : String) :
    Except Violation (List Token × Option ScanError) :=
  if buffer.isEmpty then .ok (scanSource src) else .error .bufferNotEmpty

namespace Segment

/-- Segments already cut stay in front and change nothing behind them. -/
theorem splitFrom_eq (done : List Segment) (cs : List Char) :
    splitFrom done cs = (done.reverse ++ (split cs).1, (split cs).2) := by
  suffices ∀ a b : List Segment, (splitFrom (b ++ a) cs).1 = a.reverse ++ (splitFrom b cs).1 ∧
      (splitFrom (b ++ a) cs).2 = (splitFrom b cs).2 by
    obtain ⟨h1, h2⟩ := this done []
    exact Prod.ext h1 h2
  intro a b
  fun_induction splitFrom b cs with
  | case1 b => simp [splitFrom]
  | case2 b c cs s rest hs ih =>
    rw [splitFrom]
    split
    · next s' rest' hs' =>
      obtain ⟨rfl, rfl⟩ := by simpa [hs] using hs'
      exact ih
    · next e hs' => simp [hs] at hs'
  | case3 b c cs e hs =>
    rw [splitFrom]
    split
    · next s' rest' hs' => simp [hs] at hs'
    · next e' hs' =>
      obtain rfl := by simpa [hs] using hs'
      simp

/-- The segments of a text are the one at its front and those of the rest. -/
theorem split_cons_of_scan {c : Char} {cs rest : List Char} {s : Segment}
    (h : scan c cs = .ok (s, rest)) : split (c :: cs) = (s :: (split rest).1, (split rest).2) := by
  rw [split, splitFrom]
  split
  · next s' rest' hs =>
    obtain ⟨rfl, rfl⟩ := by simpa [h] using hs
    rw [splitFrom_eq]
    rfl
  · next e hs => simp [h] at hs

end Segment

end FrontEnd
