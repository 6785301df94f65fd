import FrontEnd.Proofs.ByteCursor
import Mathlib.Data.List.TakeWhile

/-! Calls on a cursor, one after the other, refused ones among them. The invariant is that the position,
or the end where the position lies behind it, is between two characters of the source. So a cursor
that reads bytes answers as a list of characters does, read from the front: the list of those from
there on. -/

namespace FrontEnd.Source

inductive CursorCall where
  | current
  | next
  | isAtEnd
  | moveNext
  | advance
  | peek (count : Nat)
  | peekWhile (p : Char → Bool)
  | advanceBy (count : Nat)
  /-- Puts the cursor anywhere, but no further than positions are counted. -/
  | setPosition (position : Nat) (counted : position ≤ lastPosition)

inductive CursorAnswer where
  | char (ch : Option Char)
  | flag (b : Bool)
  | slice (bytes : ByteArray)
  | done

def CursorAnswer.ofChars (cs : List Char) : CursorAnswer :=
  .slice (String.ofList cs).toByteArray

namespace Cursor

/-- The answer of a call and where the cursor is then. A violation leaves it where it was. -/
def settle (c : Cursor) (outcome : Except Violation (CursorAnswer × Cursor)) :
    Except Violation CursorAnswer × Cursor :=
  match outcome with
  | .ok (a, c') => (.ok a, c')
  | .error v => (.error v, c)

def pass (run : List Char) (c : Cursor) : Cursor :=
  { c with position := c.position + width run }

def call (c : Cursor) : CursorCall → Except Violation CursorAnswer × Cursor
  | .current => (.ok (.char c.current), c)
  | .next => (.ok (.char c.next), c)
  | .isAtEnd => (.ok (.flag c.isAtEnd), c)
  | .moveNext => (.ok (.flag !c.advance.isAtEnd), c.advance)
  | .advance => (.ok (.char c.advance.current), c.advance)
  | .peek count => (.ok (.ofChars (c.peek count)), c)
  | .peekWhile p => (.ok (.ofChars (c.peekWhile p)), c)
  | .advanceBy count => c.settle do return (.done, ← c.advanceBy count)
  | .setPosition position _ => c.settle do return (.done, ← c.setPosition position)

end Cursor

def ByteCursor.call (c : Cursor) : CursorCall → Except Violation CursorAnswer × Cursor
  | .current => (.ok (.char (current c)), c)
  | .next => (.ok (.char (next c)), c)
  | .isAtEnd => (.ok (.flag c.isAtEnd), c)
  | .moveNext => c.settle do
    let (more, moved) ← moveNext c
    return (.flag more, moved)
  | .advance => c.settle do
    let (ch, moved) ← advance c
    return (.char ch, moved)
  | .peek count => c.settle do return (.slice (← peek count c), c)
  | .peekWhile p => c.settle do return (.slice (← peekWhile p c), c)
  | .advanceBy count => c.settle do return (.done, ← advanceBy count c)
  | .setPosition position _ => c.settle do return (.done, ← setPosition position c)

def runCalls (call : Cursor → CursorCall → Except Violation CursorAnswer × Cursor) :
    List CursorCall → Cursor → List (Except Violation CursorAnswer) × Cursor
  | [], c => ([], c)
  | r :: calls, c =>
    let (answer, c') := call c r
    let (answers, last) := runCalls call calls c'
    (answer :: answers, last)

/-- The characters `cs` are those of the source from the position on, or from the end if the position
lies behind it. -/
structure Ahead (src : String) (c : Cursor) (cs : List Char) : Prop where
  text : c.text = src
  counted : c.position ≤ lastPosition
  between : ∃ front, src.toList = front ++ cs ∧ min c.position src.utf8ByteSize = width front

structure IsLongestRun (p : Char → Bool) (run cs : List Char) : Prop where
  front : run <+: cs
  holds : ∀ ch ∈ run, p ch = true
  longest : ∀ other, other <+: cs → (∀ ch ∈ other, p ch = true) → other <+: run

/-- The calls on a cursor answer as the list `cs` does. What moves takes characters off its front; what
was peeked at can be skipped by the number of its bytes. A position is refused exactly if it lies
inside a character. -/
structure ReadsAs (src : String) (c : Cursor)
    (call : CursorCall → Except Violation CursorAnswer × Cursor) (cs : List Char) : Prop where
  current : call .current = (.ok (.char cs[0]?), c)
  next : call .next = (.ok (.char cs[1]?), c)
  isAtEnd : call .isAtEnd = (.ok (.flag cs.isEmpty), c)
  moveNext : call .moveNext = (.ok (.flag !cs.tail.isEmpty), c.pass (cs.take 1))
  advance : call .advance = (.ok (.char cs.tail.head?), c.pass (cs.take 1))
  peek : ∀ n, call (.peek n) = (.ok (.ofChars (if n ≤ cs.length then cs.take n else [])), c)
  peekWhile : ∀ p, ∃ run, IsLongestRun p run cs ∧ call (.peekWhile p) = (.ok (.ofChars run), c)
  /-- Skipping a slice, whichever call gave it, passes exactly its characters. -/
  skip : ∀ peeking bytes, (call peeking).1 = .ok (.slice bytes) → ∃ run, run <+: cs ∧
    bytes = (String.ofList run).toByteArray ∧ call (.advanceBy bytes.size) = (.ok .done, c.pass run)
  placed : ∀ p counted, IsBoundary src (min p src.utf8ByteSize) →
    call (.setPosition p counted) = (.ok .done, ⟨src, p⟩)
  refused : ∀ p counted, ¬ IsBoundary src (min p src.utf8ByteSize) →
    call (.setPosition p counted) = (.error .splitsCharacter, c)
  /-- Behind the passed characters the others are ahead. -/
  passed : ∀ run rest, cs = run ++ rest → Ahead src (c.pass run) rest

theorem isLongestRun_takeWhile (p : Char → Bool) (cs : List Char) :
    IsLongestRun p (cs.takeWhile p) cs where
  front := List.takeWhile_prefix p
  holds _ := List.mem_takeWhile_imp
  longest other hother hp := by
    obtain ⟨more, rfl⟩ := hother
    rw [List.takeWhile_append_of_pos hp]
    exact List.prefix_append other _

section Ahead

variable {src : String} {c : Cursor} {cs run rest : List Char}

theorem Ahead.isBoundary (h : Ahead src c cs) : IsBoundary src (min c.position src.utf8ByteSize) := by
  obtain ⟨front, hsrc, hmin⟩ := h.between
  exact ⟨front, cs, hsrc, hmin⟩

theorem Ahead.dropBytes? (h : Ahead src c cs) : dropBytes? c.position src.toList = some cs := by
  obtain ⟨front, hsrc, hmin⟩ := h.between
  rw [utf8ByteSize_eq_width] at hmin
  exact dropBytes?_eq_some_iff.2 ⟨front, hsrc, hmin⟩

theorem ahead_of_dropBytes? (hc : c.text = src) (hcount : c.position ≤ lastPosition)
    (h : Source.dropBytes? c.position src.toList = some cs) : Ahead src c cs where
  text := hc
  counted := hcount
  between := by
    rw [utf8ByteSize_eq_width]
    exact dropBytes?_eq_some_iff.1 h

theorem ahead_ofText (src : String) : Ahead src (.ofText src) src.toList :=
  ahead_of_dropBytes? rfl (Nat.zero_le _) (by rw [Cursor.ofText, Source.dropBytes?])

theorem Ahead.rest_eq (h : Ahead src c cs) : c.rest = cs := by
  rw [Cursor.rest, h.text, h.dropBytes?]
  rfl

theorem Ahead.isAtEnd (h : Ahead src c cs) : c.isAtEnd = cs.isEmpty := by
  obtain ⟨front, hsrc, hmin⟩ := h.between
  have hsize : src.utf8ByteSize = width front + width cs := by
    rw [utf8ByteSize_eq_width, hsrc, width_append]
  rw [Cursor.isAtEnd, h.text]
  cases cs with
  | nil =>
    rw [width] at hsize
    simp only [List.isEmpty_nil, decide_eq_true_eq]
    omega
  | cons ch cs =>
    have hch : 0 < ch.utf8Size := ch.utf8Size_pos
    rw [width] at hsize
    simp only [List.isEmpty_cons, decide_eq_false_iff_not]
    omega

theorem Ahead.advance_eq (h : Ahead src c cs) : c.advance = c.pass (cs.take 1) := by
  rw [Cursor.advance, Cursor.current, h.rest_eq]
  cases cs with
  | nil => rfl
  | cons ch cs => rfl

/-- A cursor that is put at the place of another one has the same characters ahead. -/
theorem Ahead.setPosition (h : Ahead src c cs) {c' : Cursor} (hc : c'.text = src) :
    c'.setPosition c.position = .ok c := by
  obtain ⟨text, position⟩ := c
  obtain rfl : text = src := h.text
  rw [Cursor.setPosition, hc, h.dropBytes?]

theorem exists_ahead_of_isBoundary {p : Nat} (hp : p ≤ lastPosition)
    (h : IsBoundary src (min p src.utf8ByteSize)) : ∃ cs, Ahead src ⟨src, p⟩ cs := by
  obtain ⟨front, back, hsrc, hmin⟩ := h
  exact ⟨back, rfl, hp, front, hsrc, hmin⟩

theorem setPosition_of_isBoundary (hc : c.text = src) {p : Nat} (hp : p ≤ lastPosition)
    (h : IsBoundary src (min p src.utf8ByteSize)) : c.setPosition p = .ok ⟨src, p⟩ := by
  obtain ⟨cs, hahead⟩ := exists_ahead_of_isBoundary hp h
  exact hahead.setPosition hc

theorem setPosition_of_not_isBoundary (hc : c.text = src) {p : Nat}
    (h : ¬ IsBoundary src (min p src.utf8ByteSize)) :
    c.setPosition p = .error .splitsCharacter := by
  rw [Cursor.setPosition, hc]
  cases hdrop : Source.dropBytes? p src.toList with
  | none => rfl
  | some back =>
    obtain ⟨front, hsrc, hmin⟩ := dropBytes?_eq_some_iff.1 hdrop
    rw [← utf8ByteSize_eq_width] at hmin
    exact absurd ⟨front, back, hsrc, hmin⟩ h

/-- Wherever it is to be put, a cursor has some characters ahead then. -/
theorem Ahead.exists_setPosition (h : Ahead src c cs) {p : Nat} (hp : p ≤ lastPosition) :
    ∃ cs', Ahead src (c.settle do return (.done, ← c.setPosition p)).2 cs' := by
  by_cases hb : IsBoundary src (min p src.utf8ByteSize)
  · rw [setPosition_of_isBoundary h.text hp hb]
    exact exists_ahead_of_isBoundary hp hb
  · rw [setPosition_of_not_isBoundary h.text hb]
    exact ⟨cs, h⟩

theorem settle_moved_ne (moved : Except Violation Cursor) (bytes : ByteArray) :
    (c.settle do return (.done, ← moved)).1 ≠ .ok (.slice bytes) := by
  cases moved with
  | ok c' => exact fun h => nomatch h
  | error v => exact fun h => nomatch h

/-- Only what was peeked at is a slice, and it holds the characters of some front. -/
theorem Ahead.exists_of_slice (h : Ahead src c cs) {r : CursorCall} {bytes : ByteArray}
    (hr : (c.call r).1 = .ok (.slice bytes)) :
    ∃ run, run <+: cs ∧ bytes = (String.ofList run).toByteArray := by
  cases r with
  | peek count =>
    cases hr
    rw [Cursor.peek, h.rest_eq]
    by_cases hle : count ≤ cs.length
    · exact ⟨cs.take count, List.take_prefix count cs, by rw [if_pos hle]⟩
    · exact ⟨[], List.nil_prefix, by rw [if_neg hle]⟩
  | peekWhile p =>
    cases hr
    rw [Cursor.peekWhile, h.rest_eq]
    exact ⟨cs.takeWhile p, List.takeWhile_prefix p, rfl⟩
  | advanceBy count => exact absurd hr (settle_moved_ne _ bytes)
  | setPosition position counted => exact absurd hr (settle_moved_ne _ bytes)
  | _ => cases hr

variable (hsrc : src.utf8ByteSize ≤ lastPosition)
include hsrc

/-- Behind the end there is nothing ahead that could be passed, so the position stays counted. -/
theorem Ahead.pass (h : Ahead src c (run ++ rest)) : Ahead src (c.pass run) rest := by
  obtain ⟨front, happ, hmin⟩ := h.between
  have hsize : src.utf8ByteSize = width front + (width run + width rest) := by
    rw [utf8ByteSize_eq_width, happ, width_append, width_append]
  have hcount := h.counted
  refine ⟨h.text, ?_, front ++ run, by rw [happ, List.append_assoc], ?_⟩
  · rw [Cursor.pass]
    dsimp only
    omega
  · rw [Cursor.pass, width_append]
    dsimp only
    omega

theorem Ahead.advanceBy (h : Ahead src c (run ++ rest)) :
    c.advanceBy (width run) = .ok (c.pass run) := by
  have hpass := h.pass hsrc
  have hstep : stepForward (width run) c.position = .ok (c.position + width run) :=
    stepForward_eq_ok_iff.2 ⟨rfl, hpass.counted⟩
  rw [Cursor.advanceBy, hstep]
  exact hpass.setPosition h.text

theorem Ahead.advance (h : Ahead src c cs) : Ahead src c.advance cs.tail := by
  rw [h.advance_eq, ← List.drop_one]
  rw [← List.take_append_drop 1 cs] at h
  exact h.pass hsrc

/-- Whatever is called, a cursor has some characters ahead then. -/
theorem Ahead.exists_call (h : Ahead src c cs) (r : CursorCall) :
    ∃ cs', Ahead src (c.call r).2 cs' := by
  cases r with
  | moveNext => exact ⟨cs.tail, h.advance hsrc⟩
  | advance => exact ⟨cs.tail, h.advance hsrc⟩
  | setPosition position counted => exact h.exists_setPosition counted
  | advanceBy count =>
    rw [Cursor.call, Cursor.advanceBy]
    cases hstep : stepForward count c.position with
    | error v => exact ⟨cs, h⟩
    | ok target =>
      obtain ⟨rfl, hle⟩ := stepForward_eq_ok_iff.1 hstep
      exact h.exists_setPosition hle
  | _ => exact ⟨cs, h⟩

/-- The cursor answers as the list of the characters ahead does. -/
theorem Ahead.readsAs (h : Ahead src c cs) : ReadsAs src c c.call cs where
  current := by rw [Cursor.call, Cursor.current, h.rest_eq, List.head?_eq_getElem?]
  next := by rw [Cursor.call, Cursor.next, h.rest_eq, List.head?_eq_getElem?, List.getElem?_tail]
  isAtEnd := by rw [Cursor.call, h.isAtEnd]
  moveNext := by rw [Cursor.call, (h.advance hsrc).isAtEnd, h.advance_eq]
  advance := by rw [Cursor.call, Cursor.current, (h.advance hsrc).rest_eq, h.advance_eq]
  peek n := by rw [Cursor.call, Cursor.peek, h.rest_eq]
  peekWhile p :=
    ⟨_, isLongestRun_takeWhile p cs, by rw [Cursor.call, Cursor.peekWhile, h.rest_eq]⟩
  skip peeking bytes hp := by
    obtain ⟨run, ⟨rest, rfl⟩, rfl⟩ := h.exists_of_slice hp
    refine ⟨run, List.prefix_append run rest, rfl, ?_⟩
    rw [String.size_toByteArray, utf8ByteSize_ofList, Cursor.call, h.advanceBy hsrc]
    rfl
  placed p counted hp := by
    rw [Cursor.call, setPosition_of_isBoundary h.text counted hp]
    rfl
  refused p counted hp := by
    rw [Cursor.call, setPosition_of_not_isBoundary h.text hp]
    rfl
  passed run rest happ := Ahead.pass hsrc (happ ▸ h)

/-- After any calls some characters are ahead. -/
theorem Ahead.exists_runCalls (h : Ahead src c cs) (calls : List CursorCall) :
    ∃ cs', Ahead src (runCalls Cursor.call calls c).2 cs' := by
  induction calls generalizing c cs with
  | nil => exact ⟨cs, h⟩
  | cons r calls ih =>
    obtain ⟨cs', hcall⟩ := h.exists_call hsrc r
    exact ih hcall

end Ahead

section Agreement

variable {c : Cursor}

/-- Reading bytes and reading characters give the same answers, and leave the cursor at the same
place. -/
theorem call_eq_of_fits (hc : c.text.utf8ByteSize ≤ lastPosition) : ByteCursor.call c = c.call := by
  funext r
  cases r with
  | current => rw [ByteCursor.call, ByteCursor.current_eq, Cursor.call]
  | next => rw [ByteCursor.call, ByteCursor.next_eq, Cursor.call]
  | isAtEnd => rfl
  | moveNext =>
    rw [ByteCursor.call, ByteCursor.moveNext_eq hc]
    rfl
  | advance =>
    rw [ByteCursor.call, ByteCursor.advance_eq hc]
    rfl
  | peek count =>
    rw [ByteCursor.call, ByteCursor.peek_eq]
    rfl
  | peekWhile p =>
    rw [ByteCursor.call, ByteCursor.peekWhile_eq]
    rfl
  | advanceBy count => rw [ByteCursor.call, ByteCursor.advanceBy_eq, Cursor.call]
  | setPosition position counted => rw [ByteCursor.call, ByteCursor.setPosition_eq, Cursor.call]

theorem runCalls_eq {src : String} (hsrc : src.utf8ByteSize ≤ lastPosition) {cs : List Char}
    (h : Ahead src c cs) (calls : List CursorCall) :
    runCalls ByteCursor.call calls c = runCalls Cursor.call calls c := by
  induction calls generalizing c cs with
  | nil => rfl
  | cons r calls ih =>
    obtain ⟨cs', hcall⟩ := h.exists_call hsrc r
    rw [runCalls, runCalls, call_eq_of_fits (h.text.symm ▸ hsrc)]
    dsimp only
    rw [ih hcall]

end Agreement

/-- A cursor that reads bytes gives the answers of one that reads characters to any calls one after
the other, refused ones among them, and is at the same place after them. There the position, or the
end if it lies behind that, is between two characters; and both cursors answer as the list of the
characters from there on. A text in memory never has more bytes than positions are counted. -/
theorem bytes_simulate_characters (src : String) (hsrc : src.utf8ByteSize ≤ lastPosition)
    (calls : List CursorCall) :
    runCalls ByteCursor.call calls (.ofText src) = runCalls Cursor.call calls (.ofText src) ∧
    ∃ c cs, (runCalls ByteCursor.call calls (.ofText src)).2 = c ∧
      IsBoundary src (min c.position src.utf8ByteSize) ∧ Ahead src c cs ∧
      ReadsAs src c (ByteCursor.call c) cs ∧ ReadsAs src c c.call cs := by
  have hstart := ahead_ofText src
  have hrun := runCalls_eq hsrc hstart calls
  obtain ⟨cs, hahead⟩ := hstart.exists_runCalls hsrc calls
  refine ⟨hrun, _, cs, rfl, ?_⟩
  rw [hrun, call_eq_of_fits (hahead.text.symm ▸ hsrc)]
  exact ⟨hahead.isBoundary, hahead, hahead.readsAs hsrc, hahead.readsAs hsrc⟩

def greekWord : String := "λx 1"

/-- A skipped word, a position inside its first character, one behind the end, and so many bytes more
that no position is left. -/
def unevenCalls : List CursorCall :=
  [.peekWhile (· != ' '), .advanceBy 3, .setPosition 1 (by decide), .setPosition 40 (by decide),
    .peek 1, .advanceBy lastPosition, .setPosition 2 (by decide), .moveNext]

theorem bytes_simulate_characters_unevenCalls :
    greekWord.utf8ByteSize ≤ lastPosition ∧
    (runCalls ByteCursor.call unevenCalls (.ofText greekWord)).1 =
      [.ok (.slice "λx".toByteArray), .ok .done, .error .splitsCharacter, .ok .done,
        .ok (.slice .empty), .error .pastLastPosition, .ok .done, .ok (.flag true)] ∧
    ReadsAs greekWord ⟨greekWord, 3⟩ (ByteCursor.call ⟨greekWord, 3⟩) [' ', '1'] := by
  have hfits : greekWord.utf8ByteSize ≤ lastPosition := by decide
  have hanswers : (runCalls Cursor.call unevenCalls (.ofText greekWord)).1 =
      [.ok (.slice "λx".toByteArray), .ok .done, .error .splitsCharacter, .ok .done,
        .ok (.slice .empty), .error .pastLastPosition, .ok .done, .ok (.flag true)] := by rfl
  have hposition : (runCalls Cursor.call unevenCalls (.ofText greekWord)).2.position = 3 := by rfl
  obtain ⟨hrun, c, cs, hlast, -, hahead, hreads, -⟩ :=
    bytes_simulate_characters greekWord hfits unevenCalls
  obtain rfl : c = ⟨greekWord, 3⟩ := by
    rw [← hposition, ← hrun, hlast, ← hahead.text]
  obtain rfl : cs = [' ', '1'] := by
    rw [← hahead.rest_eq]
    rfl
  exact ⟨hfits, (congrArg Prod.fst hrun).trans hanswers, hreads⟩

end FrontEnd.Source
