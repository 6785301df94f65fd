import FrontEnd.Token.Scan

/-! When a text is a sequence of segments, said without the scanner. A segment has a form of its own
(`Proper`), it ends where the next character cannot belong to it (`EndsBefore`), and it stands for at
most one token (`Stands`). Blanks and comments stand for none, and a text that starts with no segment
is `Stuck`. -/

namespace FrontEnd.Segment

/-- What may stand between quotes: a backslash has a character behind it, and a quote stands only
there. -/
inductive Escaped : List Char → Prop
  | nil : Escaped []
  | pair (c : Char) {cs : List Char} : Escaped cs → Escaped ('\\' :: c :: cs)
  | plain {c : Char} {cs : List Char} :
      c ≠ '\x22' → c ≠ '\\' → Escaped cs → Escaped (c :: cs)

/-- A text that starts with one kind of character and goes on with another. -/
def Run (first part : Char → Bool) (text : List Char) : Prop :=
  ∃ c cs, text = c :: cs ∧ first c = true ∧ ∀ d ∈ cs, part d = true

def Proper : Segment → Prop
  | blank c => isLayout c = true
  | comment body => '\n' ∉ body
  | word text => Run isWordStart isWordPart text
  | number text => Run Text.isDigit isNumberPart text ∧ text.count '.' ≤ 1
  | quoted body => Escaped body
  | symbol _ => True

/-- The text behind does not go on with the segment, and the two do not fuse. -/
def EndsBefore (rest : List Char) : Segment → Prop
  | blank _ => True
  | comment _ => ∀ c ∈ rest.head?, c = '\n'
  | word _ => ∀ c ∈ rest.head?, isWordPart c = false
  | number _ => ∀ c ∈ rest.head?, isNumberPart c = false
  | quoted _ => True
  | symbol s => ∀ c ∈ rest.head?,
      (∀ k ∈ Symbol.compounds, k.text.toList ≠ s.text.toList ++ [c]) ∧ (s = .slash → c ≠ '/')

/-- Each segment has its form and ends before those behind it, the last ones before `tail`. -/
def Apart (tail : List Char) : List Segment → Prop
  | [] => True
  | s :: rest => s.Proper ∧ s.EndsBefore (rest.flatMap chars ++ tail) ∧ Apart tail rest

def IsLexeme : Segment → Prop
  | blank _ => False
  | comment _ => False
  | _ => True

/-- The token that a segment at a byte offset is. A word is a keyword if it is spelled like one, and
a number is an integer if it has no dot; the text of a string begins behind its quote. -/
inductive Stands (start : Nat) : Segment → Token → Prop
  | keyword (k : Keyword) : Stands start (.word k.text.toList) ⟨.keyword k, k.text, start⟩
  | name {text : List Char} : (∀ k : Keyword, k.text.toList ≠ text) →
      Stands start (.word text) ⟨.name, String.ofList text, start⟩
  | int {text : List Char} : '.' ∉ text →
      Stands start (.number text) ⟨.int, String.ofList text, start⟩
  | float {text : List Char} : '.' ∈ text →
      Stands start (.number text) ⟨.float, String.ofList text, start⟩
  | string (body : List Char) :
      Stands start (.quoted body) ⟨.string, String.ofList body, start + 1⟩
  | symbol (s : Symbol) : Stands start (.symbol s) ⟨.symbol s, s.text, start⟩

inductive Reads : Nat → List Segment → List Token → Prop
  | nil (start : Nat) : Reads start [] []
  | skip {start : Nat} {s : Segment} {rest : List Segment} {ts : List Token} :
      ¬ s.IsLexeme → Reads (start + Source.width s.chars) rest ts → Reads start (s :: rest) ts
  | take {start : Nat} {s : Segment} {t : Token} {rest : List Segment} {ts : List Token} :
      Stands start s t → Reads (start + Source.width s.chars) rest ts →
      Reads start (s :: rest) (t :: ts)

/-- No layout, quote, word or number starts with the character; a symbol may. -/
def isMark (c : Char) : Bool :=
  !isLayout c && c != '\x22' && !isWordStart c && !Text.isDigit c

/-- A text that starts with no segment, and its fault: a character that starts none, a quote that is
never closed, or a second dot behind digits. -/
inductive Stuck : ScanFault → List Char → Prop
  | stray {c : Char} {cs : List Char} :
      isMark c = true → (∀ k : Symbol, k.text.toList.head? ≠ some c) →
      Stuck ⟨.unexpectedCharacter, [], c⟩ (c :: cs)
  | unclosed {cs : List Char} : (∀ body rest, Escaped body → cs ≠ body ++ '\x22' :: rest) →
      Stuck ⟨.unterminatedString, [], '\x22'⟩ ('\x22' :: cs)
  | secondDot {whole fraction more : List Char} :
      Run Text.isDigit Text.isDigit whole → (∀ d ∈ fraction, Text.isDigit d = true) →
      Stuck ⟨.malformedNumber, whole ++ '.' :: fraction, '.'⟩
        (whole ++ '.' :: fraction ++ '.' :: more)

instance (first part : Char → Bool) : (text : List Char) → Decidable (Run first part text)
  | [] => .isFalse (by simp [Run])
  | c :: cs => decidable_of_iff (first c = true ∧ cs.all part = true) (by
    constructor
    · intro h
      exact ⟨c, cs, rfl, h.1, List.all_eq_true.1 h.2⟩
    · rintro ⟨_, _, ⟨⟩, hc, hcs⟩
      exact ⟨hc, List.all_eq_true.2 hcs⟩)

instance (rest : List Char) : (s : Segment) → Decidable (s.EndsBefore rest)
  | blank _ => .isTrue trivial
  | comment _ => Option.decidableForallMem rest.head?
  | word _ => Option.decidableForallMem rest.head?
  | number _ => Option.decidableForallMem rest.head?
  | quoted _ => .isTrue trivial
  | symbol _ => Option.decidableForallMem rest.head?

instance : (s : Segment) → Decidable s.IsLexeme
  | blank _ => .isFalse id
  | comment _ => .isFalse id
  | word _ => .isTrue trivial
  | number _ => .isTrue trivial
  | quoted _ => .isTrue trivial
  | symbol _ => .isTrue trivial

theorem endsBefore_nil (s : Segment) : s.EndsBefore [] := by
  cases s <;> simp [EndsBefore]

theorem chars_ne_nil_of_proper {s : Segment} (h : s.Proper) : s.chars ≠ [] := by
  cases s with
  | blank c => simp [chars]
  | comment body => simp [chars]
  | word text =>
    obtain ⟨c, cs, rfl, -⟩ := h
    simp [chars]
  | number text =>
    obtain ⟨⟨c, cs, rfl, -⟩, -⟩ := h
    simp [chars]
  | quoted body => simp [chars]
  | symbol s => cases s <;> decide

theorem token?_eq_none_of_not_isLexeme {s : Segment} (h : ¬ s.IsLexeme) (start : Nat) :
    s.token? start = none := by
  cases s with
  | blank c => rfl
  | comment body => rfl
  | _ => exact absurd trivial h

/-- A word stands for the keyword with its spelling, or else for a name. -/
theorem stands_word (start : Nat) (text : List Char) :
    ∃ t, (word text).token? start = some t ∧ Stands start (.word text) t := by
  cases hk : Keyword.ofText? (String.ofList text) with
  | some k =>
    have htext : k.text = String.ofList text := Keyword.ofText?_eq_some_iff.1 hk
    have hlist : k.text.toList = text := by rw [htext, String.toList_ofList]
    refine ⟨⟨.keyword k, String.ofList text, start⟩, by simp [token?, kind?, hk, chars], ?_⟩
    rw [← htext, ← hlist]
    exact .keyword k
  | none =>
    refine ⟨⟨.name, String.ofList text, start⟩, by simp [token?, kind?, hk, chars], .name ?_⟩
    intro k hlist
    have htext : k.text = String.ofList text := by rw [← hlist, String.ofList_toList]
    rw [Keyword.ofText?_eq_some_iff.2 htext] at hk
    cases hk

theorem stands_number (start : Nat) (text : List Char) :
    ∃ t, (number text).token? start = some t ∧ Stands start (.number text) t := by
  by_cases hdot : '.' ∈ text
  · exact ⟨_, by simp [token?, kind?, hdot, chars], .float hdot⟩
  · exact ⟨_, by simp [token?, kind?, hdot, chars], .int hdot⟩

/-- What the segment is, is its token. -/
theorem stands_of_isLexeme {s : Segment} (h : s.IsLexeme) (start : Nat) :
    ∃ t, s.token? start = some t ∧ Stands start s t := by
  cases s with
  | blank c => cases h
  | comment body => cases h
  | word text => exact stands_word start text
  | number text => exact stands_number start text
  | quoted body => exact ⟨_, rfl, .string body⟩
  | symbol s => exact ⟨_, by simp [token?, kind?, chars], .symbol s⟩

theorem reads_tokens (start : Nat) (segments : List Segment) :
    Reads start segments (tokens start segments) := by
  induction segments generalizing start with
  | nil => exact .nil start
  | cons s rest ih =>
    by_cases hs : s.IsLexeme
    · obtain ⟨t, ht, hst⟩ := stands_of_isLexeme hs start
      rw [tokens, ht]
      exact .take hst (ih _)
    · rw [tokens, token?_eq_none_of_not_isLexeme hs]
      exact .skip hs (ih _)

end FrontEnd.Segment
