import FrontEnd.Text.Alphabetic
import FrontEnd.Text.Numeric
import FrontEnd.Token.Kind

/-! Segments: the pieces that a source is cut into, layout and comments among them. Each has a
written form, and the segment found at the front of a text is the front of that text in its written
form. -/

namespace FrontEnd

inductive Segment where
  | blank (c : Char)
  /-- A comment, given by what follows its two slashes. -/
  | comment (body : List Char)
  | word (text : List Char)
  | number (text : List Char)
  /-- A string literal, given by what stands between its quotes. -/
  | quoted (body : List Char)
  | symbol (s : Symbol)

inductive ScanReason where
  | unexpectedCharacter
  | malformedNumber
  | unterminatedString
  deriving DecidableEq

structure ScanFault where
  reason : ScanReason
  /-- What stands in front of the offending character. -/
  lead : List Char
  character : Char

namespace Segment

def chars : Segment → List Char
  | blank c => [c]
  | comment body => '/' :: '/' :: body
  | word text => text
  | number text => text
  | quoted body => '\x22' :: body ++ ['\x22']
  | symbol s => s.text.toList

def isLayout (c : Char) : Bool :=
  c = '\n' || c = '\r' || c = '\t' || c = ' '

def isWordStart (c : Char) : Bool :=
  c = '_' || Text.isAlphabetic c

def isWordPart (c : Char) : Bool :=
  c = '_' || Text.isAlphabetic c || Text.isNumeric c

def isNumberPart (c : Char) : Bool :=
  Text.isDigit c || c = '.'

/-- What stands before the closing quote, put behind `body` (which is in reverse), and the text
behind that quote. A backslash takes the character after it along, whatever it is. -/
def closeQuote? (body : List Char) : List Char → Option (List Char × List Char)
  | [] => none
  | c :: cs =>
    if c = '\x22' then some (body.reverse, cs)
    else if c = '\\' then
      match cs with
      | [] => none
      | d :: ds => closeQuote? (d :: c :: body) ds
    else closeQuote? (c :: body) cs

/-- A run of digits and dots is a number if it has at most one dot; a second one is at fault. -/
def ofRun (run rest : List Char) : Except ScanFault (Segment × List Char) :=
  match run.dropWhile (· != '.') with
  | [] => .ok (.number run, rest)
  | dot :: fraction =>
    match fraction.dropWhile (· != '.') with
    | [] => .ok (.number run, rest)
    | second :: _ =>
      .error ⟨.malformedNumber,
        run.takeWhile (· != '.') ++ dot :: fraction.takeWhile (· != '.'), second⟩

/-- The symbol at the front of `c :: cs`: the one of two characters wins. -/
def scanSymbol (c : Char) (cs : List Char) : Except ScanFault (Segment × List Char) :=
  match cs.head?.bind fun d => Symbol.compound? (String.ofList [c, d]) with
  | some s => .ok (.symbol s, cs.tail)
  | none =>
    match Symbol.single? (String.ofList [c]) with
    | some s => .ok (.symbol s, cs)
    | none => .error ⟨.unexpectedCharacter, [], c⟩

/-- The segment at the front of `c :: cs` and the text behind it. -/
def scan (c : Char) (cs : List Char) : Except ScanFault (Segment × List Char) :=
  if isLayout c then .ok (.blank c, cs)
  else if c = '/' ∧ cs.head? = some '/' then
    .ok (.comment (cs.tail.takeWhile (· != '\n')), cs.tail.dropWhile (· != '\n'))
  else if c = '\x22' then
    match closeQuote? [] cs with
    | some (body, rest) => .ok (.quoted body, rest)
    | none => .error ⟨.unterminatedString, [], c⟩
  else if isWordStart c then .ok (.word (c :: cs.takeWhile isWordPart), cs.dropWhile isWordPart)
  else if Text.isDigit c then ofRun (c :: cs.takeWhile isNumberPart) (cs.dropWhile isNumberPart)
  else scanSymbol c cs

/-- Nothing is lost between the opening quote and the text behind the closing one. -/
theorem closeQuote?_lossless {acc cs body rest : List Char}
    (h : closeQuote? acc cs = some (body, rest)) :
    acc.reverse ++ cs = body ++ '\x22' :: rest := by
  fun_induction closeQuote? acc cs with
  | case1 => simp at h
  | case2 acc cs =>
    obtain ⟨rfl, rfl⟩ := by simpa using h
    rfl
  | case3 => simp at h
  | case4 acc d ds hq ih => simpa using ih h
  | case5 acc c cs hq hb ih => simpa using ih h

/-- A number is written as its run. -/
theorem ofRun_eq_ok {run rest rest' : List Char} {s : Segment}
    (h : ofRun run rest = .ok (s, rest')) : s = .number run ∧ rest' = rest := by
  unfold ofRun at h
  split at h
  · simpa [eq_comm] using h
  · split at h
    · simpa [eq_comm] using h
    · simp at h

/-- A segment is written with the character that it starts with, and nothing is lost. -/
theorem exists_chars_of_scan {c : Char} {cs rest : List Char} {s : Segment}
    (h : scan c cs = .ok (s, rest)) : ∃ more, s.chars = c :: more ∧ more ++ rest = cs := by
  unfold scan at h
  split at h
  · obtain ⟨rfl, rfl⟩ := by simpa using h
    exact ⟨[], rfl, rfl⟩
  split at h
  · next hs =>
    obtain ⟨rfl, hd⟩ := hs
    obtain ⟨rfl, rfl⟩ := by simpa using h
    cases cs with
    | nil => simp at hd
    | cons d ds =>
      obtain rfl : d = '/' := by simpa using hd
      exact ⟨'/' :: ds.takeWhile (· != '\n'), rfl, by simp⟩
  split at h
  · next hq =>
    subst hq
    split at h
    · next hb =>
      obtain ⟨rfl, rfl⟩ := by simpa using h
      exact ⟨_, rfl, by simpa using (closeQuote?_lossless hb).symm⟩
    · simp at h
  split at h
  · obtain ⟨rfl, rfl⟩ := by simpa using h
    exact ⟨cs.takeWhile isWordPart, rfl, by simp⟩
  split at h
  · obtain ⟨rfl, rfl⟩ := ofRun_eq_ok h
    exact ⟨cs.takeWhile isNumberPart, rfl, by simp⟩
  unfold scanSymbol at h
  split at h
  · next s' hs =>
    obtain ⟨rfl, rfl⟩ := by simpa using h
    cases cs with
    | nil => simp at hs
    | cons d ds => exact ⟨[d], by simp [chars, Symbol.text_of_compound? hs], rfl⟩
  · split at h
    · next s' hs =>
      obtain ⟨rfl, rfl⟩ := by simpa using h
      exact ⟨[], by simp [chars, Symbol.text_of_single? hs], rfl⟩
    · simp at h

/-- The segment found at the front of a text, in its written form, is the front of that text. -/
theorem scan_lossless {c : Char} {cs rest : List Char} {s : Segment}
    (h : scan c cs = .ok (s, rest)) : s.chars ++ rest = c :: cs := by
  obtain ⟨more, hc, hr⟩ := exists_chars_of_scan h
  rw [hc, List.cons_append, hr]

/-- A segment takes at least one character. -/
theorem length_rest_of_scan {c : Char} {cs rest : List Char} {s : Segment}
    (h : scan c cs = .ok (s, rest)) : rest.length < (c :: cs).length := by
  obtain ⟨more, -, rfl⟩ := exists_chars_of_scan h
  simp only [List.length_cons, List.length_append]
  omega

end Segment

end FrontEnd
