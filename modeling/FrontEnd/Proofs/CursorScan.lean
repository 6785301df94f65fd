import FrontEnd.Proofs.TokenCover
import FrontEnd.Source.Cursor

/-! Scanning with a cursor. Here every step goes from one byte offset to another and cuts texts out
between two of them, and an offset that is not on a character boundary within the source is a
violation. The invariant is that the cursor stands behind the characters that are passed; so there is
never a violation, and the tokens and the fault are those of the source. -/

namespace FrontEnd

namespace Source.Cursor

def moveTo (position : Nat) (c : Cursor) : Except Violation Cursor :=
  if position ≤ c.text.utf8ByteSize then c.setPosition position else .error .pastLastPosition

def moveBy (count : Nat) (c : Cursor) : Except Violation Cursor :=
  c.moveTo (c.position + count)

def moveNext (c : Cursor) : Except Violation Cursor :=
  match c.current with
  | some ch => c.moveBy ch.utf8Size
  | none => .ok c

/-- The characters between two byte offsets, both on character boundaries within the text. -/
def slice (start stop : Nat) (c : Cursor) : Except Violation (List Char) := do
  let front ← c.moveTo start
  let back ← c.moveTo stop
  if start ≤ stop then .ok (front.rest.take (front.rest.length - back.rest.length))
  else .error .pastLastPosition

end Source.Cursor

open FrontEnd.Source FrontEnd.Segment

inductive ScanStep where
  | moved (c : Cursor) (token : Option Token)
  | stuck (e : ScanError)

namespace CursorScan

def fault (reason : ScanReason) (c : Cursor) : Except Violation ScanStep := do
  let here ← c.location
  return .stuck ⟨reason, c.current.getD '\x00', c.position, here⟩

def produce (kind : TokenKind) (run : List Char) (c : Cursor) : Except Violation ScanStep := do
  let text ← c.slice c.position (c.position + width run)
  return .moved (← c.moveBy (width run)) (some ⟨kind, String.ofList text, c.position⟩)

def comment (c : Cursor) : Except Violation ScanStep := do
  return .moved (← c.moveBy (width (c.peekWhile (· != '\n')))) none

def word (c : Cursor) : Except Violation ScanStep :=
  let run := c.peekWhile isWordPart
  match Keyword.ofText? (String.ofList run) with
  | some k => produce (.keyword k) run c
  | none => produce .name run c

def dots (offset : Nat) : List Char → List Nat
  | [] => []
  | c :: cs =>
    if c = '.' then offset :: dots (offset + c.utf8Size) cs else dots (offset + c.utf8Size) cs

def number (c : Cursor) : Except Violation ScanStep :=
  let run := c.peekWhile isNumberPart
  match dots 0 run with
  | [] => produce .int run c
  | [_] => produce .float run c
  | _ :: second :: _ => do fault .malformedNumber (← c.moveBy second)

/-- The cursor at the closing quote. Each round passes a character, and a backslash another one. -/
def closing : Nat → Cursor → Except Violation (Option Cursor)
  | 0, _ => .ok none
  | n + 1, c =>
    match c.current with
    | none => .ok none
    | some ch =>
      if ch = '\x22' then .ok (some c)
      else if ch = '\\' then do closing n (← (← c.moveNext).moveNext)
      else do closing n (← c.moveNext)

def string (c : Cursor) : Except Violation ScanStep := do
  let start ← c.moveNext
  match ← closing start.rest.length start with
  | none => fault .unterminatedString (← start.moveTo c.position)
  | some close =>
    let text ← close.slice start.position close.position
    return .moved (← close.moveNext) (some ⟨.string, String.ofList text, start.position⟩)

def symbol (ch : Char) (c : Cursor) : Except Violation ScanStep :=
  match Symbol.compound? (String.ofList (c.peek 2)) with
  | some s => produce (.symbol s) (c.peek 2) c
  | none =>
    match Symbol.single? (String.ofList [ch]) with
    | some s => produce (.symbol s) (c.peek 1) c
    | none => fault .unexpectedCharacter c

def step (ch : Char) (c : Cursor) : Except Violation ScanStep :=
  if isLayout ch then do return .moved (← c.moveNext) none
  else if ch = '/' ∧ c.next = some '/' then comment c
  else if ch = '\x22' then string c
  else if isWordStart ch then word c
  else if Text.isDigit ch then number c
  else symbol ch c

def run : Nat → Cursor → List Token → Except Violation (List Token × Option ScanError)
  | 0, _, done => .ok (done.reverse, none)
  | n + 1, c, done =>
    match c.current with
    | none => .ok (done.reverse, none)
    | some ch => do
      match ← step ch c with
      | .moved c' token => run n c' (token.toList ++ done)
      | .stuck e => return (done.reverse, some e)

/-- Puts the tokens of the source into a buffer, which must be empty. -/
def scanInto (buffer : List Token) (src : String) :
    Except Violation (List Token × Option ScanError) :=
  if buffer.isEmpty then run src.toList.length (.ofText src) [] else .error .bufferNotEmpty

theorem ok_bind {α β : Type} (a : α) (f : α → Except Violation β) : (.ok a >>= f) = f a :=
  rfl

section Behind

def behind (src : String) (front : List Char) : Cursor :=
  ⟨src, width front⟩

variable {src : String} {front rest run : List Char}

theorem position_behind : (behind src front).position = width front :=
  rfl

theorem rest_behind (h : src.toList = front ++ rest) : (behind src front).rest = rest := by
  rw [Cursor.rest, behind, h, dropBytes?_width]
  rfl

theorem current_behind (h : src.toList = front ++ rest) :
    (behind src front).current = rest.head? := by
  rw [Cursor.current, rest_behind h]

theorem next_behind (h : src.toList = front ++ rest) :
    (behind src front).next = rest.tail.head? := by
  rw [Cursor.next, rest_behind h]

theorem peekWhile_behind (h : src.toList = front ++ rest) (p : Char → Bool) :
    (behind src front).peekWhile p = rest.takeWhile p := by
  rw [Cursor.peekWhile, rest_behind h]

theorem location_behind (h : src.toList = front ++ rest) :
    (behind src front).location = .ok (Location.start.after front) := by
  rw [Cursor.location, behind, locate?, h, locateFrom?_width]

/-- Wherever a cursor is, it can be put behind the first characters of the source. -/
theorem moveTo_behind (h : src.toList = front ++ rest) {c : Cursor} (hc : c.text = src) :
    c.moveTo (width front) = .ok (behind src front) := by
  obtain ⟨text, position⟩ := c
  subst hc
  have hle : width front ≤ text.utf8ByteSize := by
    rw [utf8ByteSize_eq_width, h, width_append]
    omega
  rw [Cursor.moveTo, if_pos hle, Cursor.setPosition]
  simp only [h, dropBytes?_width]
  rfl

theorem moveBy_behind (h : src.toList = front ++ run ++ rest) :
    (behind src front).moveBy (width run) = .ok (behind src (front ++ run)) := by
  rw [Cursor.moveBy, behind, ← width_append]
  exact moveTo_behind h rfl

theorem moveNext_behind {ch : Char} (h : src.toList = front ++ ch :: rest) :
    (behind src front).moveNext = .ok (behind src (front ++ [ch])) := by
  have hone : src.toList = front ++ [ch] ++ rest := by simp [h]
  rw [Cursor.moveNext, current_behind h]
  exact moveBy_behind hone

/-- What stands between two places is cut out. -/
theorem slice_behind (h : src.toList = front ++ run ++ rest) {c : Cursor} (hc : c.text = src) :
    c.slice (width front) (width (front ++ run)) = .ok run := by
  have hfront : src.toList = front ++ (run ++ rest) := by rw [h, List.append_assoc]
  rw [Cursor.slice, moveTo_behind hfront hc, moveTo_behind h hc]
  simp [rest_behind hfront, rest_behind h, bind, Except.bind]

end Behind

section Steps

variable {src : String} {front cs rest run : List Char} {ch : Char}

/-- What the segment at the front of the rest, or the fault there, comes to. -/
def outcome (src : String) (front : List Char) : Except ScanFault (Segment × List Char) → ScanStep
  | .ok (s, _) => .moved (behind src (front ++ s.chars)) (s.token? (width front))
  | .error fault => .stuck (.ofFault front fault)

theorem fault_behind (reason : ScanReason) {lead : List Char}
    (h : src.toList = front ++ lead ++ ch :: rest) :
    fault reason (behind src (front ++ lead)) = .ok (.stuck (.ofFault front ⟨reason, lead, ch⟩)) := by
  rw [fault, location_behind h, current_behind h]
  rfl

theorem produce_behind (kind : TokenKind) (h : src.toList = front ++ run ++ rest) :
    produce kind run (behind src front) =
      .ok (.moved (behind src (front ++ run)) (some ⟨kind, String.ofList run, width front⟩)) := by
  have hslice : (behind src front).slice (behind src front).position
      ((behind src front).position + width run) = .ok run :=
    width_append front run ▸ slice_behind h rfl
  rw [produce, hslice, moveBy_behind h]
  rfl

theorem comment_behind (h : src.toList = front ++ '/' :: '/' :: cs) :
    comment (behind src front) = .ok (outcome src front (scan '/' ('/' :: cs))) := by
  have hrun : ('/' :: '/' :: cs).takeWhile (· != '\n') = '/' :: '/' :: cs.takeWhile (· != '\n') := by
    simp
  have hsplit : src.toList =
      front ++ ('/' :: '/' :: cs.takeWhile (· != '\n')) ++ cs.dropWhile (· != '\n') := by
    simp [h]
  rw [comment, peekWhile_behind h, hrun, moveBy_behind hsplit, scan_comment]
  rfl

theorem isWordPart_of_isWordStart (h : isWordStart ch = true) : isWordPart ch = true := by
  rw [isWordStart] at h
  rw [isWordPart, h, Bool.true_or]

theorem word_behind (h : src.toList = front ++ ch :: cs) (hch : isWordStart ch = true) :
    word (behind src front) = .ok (outcome src front (scan ch cs)) := by
  have hsplit : src.toList = front ++ (ch :: cs.takeWhile isWordPart) ++ cs.dropWhile isWordPart := by
    simp [h]
  rw [word, peekWhile_behind h, List.takeWhile_cons_of_pos (isWordPart_of_isWordStart hch),
    scan_word hch]
  cases hk : Keyword.ofText? (String.ofList (ch :: cs.takeWhile isWordPart)) with
  | some k =>
    simp only [produce_behind _ hsplit, hk, outcome, token?, kind?, chars, Option.map_some]
  | none =>
    simp only [produce_behind _ hsplit, hk, outcome, token?, kind?, chars, Option.map_some]

/-- Characters that are no dots are skipped. -/
theorem dots_append {run : List Char} (h : '.' ∉ run) (offset : Nat) (more : List Char) :
    dots offset (run ++ more) = dots (offset + width run) more := by
  induction run generalizing offset with
  | nil => rfl
  | cons c run ih =>
    rw [List.mem_cons, not_or] at h
    rw [List.cons_append, dots, if_neg (Ne.symm h.1), ih h.2, width, Nat.add_assoc]

theorem dots_eq_nil {run : List Char} (h : '.' ∉ run) (offset : Nat) : dots offset run = [] := by
  simpa [dots] using dots_append h offset []

/-- The first dot of a run that has one. -/
theorem dots_cons {run : List Char} (h : '.' ∉ run) (offset : Nat) (more : List Char) :
    dots offset (run ++ '.' :: more) =
      (offset + width run) :: dots (offset + width (run ++ ['.'])) more := by
  rw [dots_append h, dots, if_pos rfl, width_append, ← Nat.add_assoc]
  rfl

theorem number_behind (h : src.toList = front ++ ch :: cs) (hch : Text.isDigit ch = true) :
    number (behind src front) = .ok (outcome src front (scan ch cs)) := by
  have hpart : isNumberPart ch = true := by rw [isNumberPart, hch, Bool.true_or]
  have hsplit : src.toList =
      front ++ (ch :: cs.takeWhile isNumberPart) ++ cs.dropWhile isNumberPart := by simp [h]
  rw [number, peekWhile_behind h, List.takeWhile_cons_of_pos hpart, scan_digit hch]
  generalize ch :: cs.takeWhile isNumberPart = run at hsplit ⊢
  generalize cs.dropWhile isNumberPart = rest at hsplit ⊢
  by_cases hdot : '.' ∈ run
  · obtain ⟨whole, back, rfl, hw⟩ := List.eq_append_cons_of_mem hdot
    rw [dots_cons hw]
    by_cases hsecond : '.' ∈ back
    · obtain ⟨fraction, more, rfl, hf⟩ := List.eq_append_cons_of_mem hsecond
      have hrun : ofRun (whole ++ '.' :: (fraction ++ '.' :: more)) rest =
          .error ⟨.malformedNumber, whole ++ '.' :: fraction, '.'⟩ := by
        simp only [ofRun, split_at_dot hw, split_at_dot hf]
      have hlead : src.toList = front ++ (whole ++ '.' :: fraction) ++ '.' :: (more ++ rest) := by
        simp [hsplit]
      have hat : 0 + width (whole ++ ['.']) + width fraction = width (whole ++ '.' :: fraction) := by
        rw [Nat.zero_add, ← width_append]
        simp
      rw [dots_cons hf, hat, hrun]
      dsimp only
      rw [moveBy_behind hlead]
      exact fault_behind _ hlead
    · have hrun : ofRun (whole ++ '.' :: back) rest = .ok (.number (whole ++ '.' :: back), rest) := by
        simp only [ofRun, split_at_dot hw, dropWhile_dot_eq_nil hsecond]
      rw [dots_eq_nil hsecond, hrun]
      dsimp only
      rw [produce_behind _ hsplit]
      simp [outcome, token?, kind?, chars]
  · have hrun : ofRun run rest = .ok (.number run, rest) := by
      simp only [ofRun, dropWhile_dot_eq_nil hdot]
    rw [dots_eq_nil hdot, hrun]
    dsimp only
    rw [produce_behind _ hsplit]
    simp [outcome, token?, kind?, chars, hdot]

/-- The closing quote is found where the characters between the quotes end. -/
theorem closing_behind {n : Nat} {body : List Char}
    (h : src.toList = front ++ body.reverse ++ rest) (hn : rest.length ≤ n) :
    closing n (behind src (front ++ body.reverse)) =
      .ok ((closeQuote? body rest).map fun p => behind src (front ++ p.1)) := by
  induction n generalizing body rest with
  | zero =>
    obtain rfl := List.length_eq_zero_iff.1 (Nat.le_zero.1 hn)
    rfl
  | succ n ih =>
    rw [closing, current_behind h]
    cases rest with
    | nil => rfl
    | cons c cs =>
      have hnext := moveNext_behind h
      have hone : src.toList = front ++ (c :: body).reverse ++ cs := by simp [h]
      rw [List.append_assoc, ← List.reverse_cons] at hnext
      dsimp only [List.head?_cons]
      unfold closeQuote?
      by_cases hq : c = '\x22'
      · rw [if_pos hq, if_pos hq]
        rfl
      rw [if_neg hq, if_neg hq, hnext]
      by_cases hb : c = '\\'
      · rw [if_pos hb, if_pos hb]
        cases cs with
        | nil =>
          -- Nothing is behind the backslash, and at the end there is nowhere to move to.
          have hstay : (behind src (front ++ (c :: body).reverse)).moveNext =
              .ok (behind src (front ++ (c :: body).reverse)) := by
            rw [Cursor.moveNext, current_behind hone]
            rfl
          rw [ok_bind, hstay]
          exact ih hone (Nat.zero_le n)
        | cons d ds =>
          have hsecond := moveNext_behind hone
          have htwo : src.toList = front ++ (d :: c :: body).reverse ++ ds := by simp [h]
          rw [List.append_assoc, ← List.reverse_cons] at hsecond
          rw [ok_bind, hsecond]
          exact ih htwo (Nat.le_of_succ_le (Nat.le_of_succ_le_succ hn))
      · rw [if_neg hb, if_neg hb]
        exact ih hone (Nat.le_of_succ_le_succ hn)

theorem string_behind (h : src.toList = front ++ '\x22' :: cs) :
    string (behind src front) = .ok (outcome src front (scan '\x22' cs)) := by
  have hone : src.toList = front ++ ['\x22'] ++ cs := by simp [h]
  have hclosing := @closing_behind src (front ++ ['\x22']) cs cs.length [] (by simpa using hone)
    (Nat.le_refl _)
  rw [List.reverse_nil, List.append_nil] at hclosing
  rw [string, moveNext_behind h, ok_bind, rest_behind hone, hclosing, ok_bind]
  cases hquote : closeQuote? [] cs with
  | none =>
    have hfault : fault .unterminatedString (behind src (front ++ [])) = .ok (.stuck
        (.ofFault front ⟨.unterminatedString, [], '\x22'⟩)) := fault_behind _ (by simpa using h)
    rw [List.append_nil] at hfault
    rw [scan_quote_open hquote]
    dsimp only [Option.map_none]
    rw [position_behind, moveTo_behind h rfl, ok_bind]
    exact hfault
  | some p =>
    obtain ⟨body, rest⟩ := p
    have hcs : cs = body ++ '\x22' :: rest := closeQuote?_lossless hquote
    have hbody : src.toList = front ++ ['\x22'] ++ body ++ '\x22' :: rest := by simp [h, hcs]
    have hslice := slice_behind hbody (c := behind src (front ++ ['\x22'] ++ body)) rfl
    rw [scan_quote_closed hquote]
    dsimp only [Option.map_some]
    have hsize : '\x22'.utf8Size = 1 := by decide
    rw [position_behind, position_behind, hslice, ok_bind, moveNext_behind hbody, ok_bind]
    simp [outcome, token?, kind?, chars, width, hsize, pure, Except.pure]

theorem produce_symbol {k : Symbol} (hk : k.text = String.ofList run)
    (h : src.toList = front ++ run ++ rest) :
    produce (.symbol k) run (behind src front) = .ok (outcome src front (.ok (.symbol k, rest))) := by
  rw [produce_behind _ h]
  simp [outcome, token?, kind?, chars, hk]

/-- The symbol of two characters is looked up the same way: fewer characters are none. -/
theorem compound?_peek (h : src.toList = front ++ ch :: cs) :
    Symbol.compound? (String.ofList ((behind src front).peek 2)) =
      cs.head?.bind fun d => Symbol.compound? (String.ofList [ch, d]) := by
  rw [Cursor.peek, rest_behind h]
  cases cs with
  | nil =>
    have hnone : Symbol.compound? "" = none := by decide
    simpa using hnone
  | cons d ds => simp

theorem symbol_behind (h : src.toList = front ++ ch :: cs) :
    symbol ch (behind src front) = .ok (outcome src front (scanSymbol ch cs)) := by
  rw [symbol, scanSymbol, compound?_peek h]
  cases hpair : cs.head?.bind fun d => Symbol.compound? (String.ofList [ch, d]) with
  | some k =>
    cases cs with
    | nil => cases hpair
    | cons d ds =>
      have hpeek : (behind src front).peek 2 = [ch, d] := by simp [Cursor.peek, rest_behind h]
      dsimp only
      rw [hpeek]
      exact produce_symbol (Symbol.text_of_compound? hpair) (by simp [h])
  | none =>
    have hpeek : (behind src front).peek 1 = [ch] := by simp [Cursor.peek, rest_behind h]
    cases hsingle : Symbol.single? (String.ofList [ch]) with
    | some k =>
      dsimp only
      rw [hpeek]
      exact produce_symbol (Symbol.text_of_single? hsingle) (by simp [h])
    | none =>
      have hfault : fault .unexpectedCharacter (behind src (front ++ [])) = .ok (.stuck
          (.ofFault front ⟨.unexpectedCharacter, [], ch⟩)) := fault_behind _ (by simpa using h)
      rw [List.append_nil] at hfault
      exact hfault

/-- One step does what the segment at the front of the rest says. -/
theorem step_behind (h : src.toList = front ++ ch :: cs) :
    step ch (behind src front) = .ok (outcome src front (scan ch cs)) := by
  rw [step, next_behind h]
  by_cases hl : isLayout ch = true
  · rw [if_pos hl, moveNext_behind h, scan_blank hl]
    rfl
  rw [if_neg hl]
  by_cases hc : ch = '/' ∧ cs.head? = some '/'
  · obtain ⟨rfl, hslash⟩ := hc
    cases cs with
    | nil => cases hslash
    | cons d ds =>
      obtain rfl : d = '/' := by simpa using hslash
      rw [if_pos ⟨rfl, rfl⟩]
      exact comment_behind h
  rw [List.tail_cons, if_neg hc]
  by_cases hq : ch = '\x22'
  · subst hq
    rw [if_pos rfl]
    exact string_behind h
  rw [if_neg hq]
  by_cases hw : isWordStart ch = true
  · rw [if_pos hw]
    exact word_behind h hw
  rw [if_neg hw]
  by_cases hd : Text.isDigit ch = true
  · rw [if_pos hd]
    exact number_behind h hd
  rw [if_neg hd, scan, if_neg hl, if_neg hc, if_neg hq, if_neg hw, if_neg hd]
  exact symbol_behind h

/-- All steps together give the tokens of the rest, up to its end or to its fault. -/
theorem run_behind {n : Nat} (h : src.toList = front ++ rest) (hn : rest.length ≤ n)
    (done : List Token) :
    CursorScan.run n (behind src front) done =
      .ok (done.reverse ++ tokens (width front) (split rest).1,
        (split rest).2.map (.ofFault (front ++ (split rest).1.flatMap chars))) := by
  induction n generalizing front rest done with
  | zero =>
    obtain rfl := List.length_eq_zero_iff.1 (Nat.le_zero.1 hn)
    simp [CursorScan.run, split_nil, tokens]
  | succ n ih =>
    rw [CursorScan.run, current_behind h]
    cases rest with
    | nil => simp [split_nil, tokens]
    | cons ch cs =>
      dsimp only [List.head?_cons]
      rw [step_behind h, ok_bind]
      cases hscan : scan ch cs with
      | ok p =>
        obtain ⟨s, rest⟩ := p
        have hrest : src.toList = front ++ s.chars ++ rest := by
          rw [h, ← scan_lossless hscan, List.append_assoc]
        have hlen : rest.length ≤ n :=
          Nat.le_of_lt_succ ((length_rest_of_scan hscan).trans_le hn)
        rw [outcome, split_cons_of_scan hscan]
        dsimp only
        rw [ih hrest hlen, tokens]
        cases s.token? (width front) with
        | none => simp
        | some t => simp
      | error fault =>
        rw [outcome, split_cons_of_error hscan]
        simp [tokens, pure, Except.pure]

end Steps

/-- Whatever the buffer is, scanning with a cursor has the outcome of the source: no offset on the
way is a violation. -/
theorem scanInto_eq (buffer : List Token) (src : String) :
    scanInto buffer src = tokenizeInto buffer src := by
  have hrun : CursorScan.run src.toList.length (.ofText src) [] = .ok (scanSource src) := by
    have h := @run_behind src [] src.toList src.toList.length rfl (Nat.le_refl _) []
    simpa [behind, width, scanSource, Cursor.ofText] using h
  rw [scanInto, tokenizeInto, hrun]

end CursorScan

end FrontEnd
