import FrontEnd.Source.Cursor

/-! A cursor that reads bytes. It decodes characters from where it stands, and cuts the bytes between
two offsets, each of which has to be on a boundary. Wherever it stands, inside a character and behind
the end too, it decodes the characters that the cursor of the library has in front of it; so the two
have the same outcomes. -/

namespace FrontEnd.Source

theorem exists_front_of_dropBytes? {n : Nat} {cs rest : List Char}
    (h : dropBytes? n cs = some rest) :
    ∃ front, cs = front ++ rest ∧ min n (width cs) = width front := by
  induction n, cs using dropBytes?.induct with
  | case1 cs =>
    rw [dropBytes?] at h
    cases h
    exact ⟨[], rfl, Nat.zero_min _⟩
  | case2 n =>
    rw [dropBytes?] at h
    cases h
    exact ⟨[], rfl, Nat.min_zero _⟩
  | case3 n c cs hc ih =>
    rw [dropBytes?, if_pos hc] at h
    obtain ⟨front, rfl, hfront⟩ := ih h
    refine ⟨c :: front, rfl, ?_⟩
    rw [width, width]
    omega
  | case4 n c cs hc =>
    rw [dropBytes?, if_neg hc] at h
    cases h

theorem dropBytes?_append {n : Nat} {front rest : List Char}
    (h : min n (width (front ++ rest)) = width front) : dropBytes? n (front ++ rest) = some rest := by
  induction front generalizing n with
  | nil =>
    rcases n with - | n
    · rw [dropBytes?]
      rfl
    · cases rest with
      | nil => rfl
      | cons c rest =>
        have hc : 0 < c.utf8Size := c.utf8Size_pos
        rw [List.nil_append, width, width] at h
        omega
  | cons c front ih =>
    have hc : 0 < c.utf8Size := c.utf8Size_pos
    rw [List.cons_append, width, width] at h
    obtain ⟨m, rfl⟩ : ∃ m, n = m + 1 := ⟨n - 1, by omega⟩
    rw [List.cons_append, dropBytes?, if_pos (by omega)]
    exact ih (by omega)

/-- Dropping bytes leaves the characters behind some front: behind the end it is the whole text, and
else it takes exactly the dropped bytes. -/
theorem dropBytes?_eq_some_iff {n : Nat} {cs rest : List Char} :
    dropBytes? n cs = some rest ↔
      ∃ front, cs = front ++ rest ∧ min n (width cs) = width front := by
  constructor
  · exact exists_front_of_dropBytes?
  · rintro ⟨front, rfl, h⟩
    exact dropBytes?_append h

theorem dropBytes?_of_width_le {n : Nat} {cs : List Char} (h : width cs ≤ n) :
    dropBytes? n cs = some [] :=
  dropBytes?_eq_some_iff.2 ⟨cs, (List.append_nil cs).symm, Nat.min_eq_right h⟩

section Bytes

theorem size_utf8Encode (cs : List Char) : cs.utf8Encode.size = width cs := by
  rw [← String.toByteArray_ofList, String.size_toByteArray, utf8ByteSize_ofList]

variable {front back : List Char}

theorem extract_front : (front ++ back).utf8Encode.extract 0 (width front) = front.utf8Encode := by
  rw [List.utf8Encode_append]
  exact ByteArray.extract_append_eq_left (size_utf8Encode front).symm

theorem extract_back :
    (front ++ back).utf8Encode.extract (width front) (front ++ back).utf8Encode.size =
      back.utf8Encode := by
  rw [List.utf8Encode_append]
  exact ByteArray.extract_append_eq_right (size_utf8Encode front).symm ByteArray.size_append

/-- Whether an offset is at the first byte of a character, or at the end. -/
def onBoundary (bytes : ByteArray) (offset : Nat) : Bool :=
  if h : offset < bytes.size then decide bytes[offset].IsUTF8FirstByte else offset = bytes.size

/-- The first bytes of characters are where the text in front of them ends. -/
theorem onBoundary_iff {cs : List Char} {offset : Nat} :
    onBoundary cs.utf8Encode offset = true ↔
      ∃ front back, cs = front ++ back ∧ offset = width front := by
  have hvalid : onBoundary cs.utf8Encode offset = true ↔
      String.Pos.Raw.IsValid (String.ofList cs) ⟨offset⟩ := by
    rw [← String.Pos.Raw.isValid_eq_true_iff, String.Pos.Raw.isValid]
    simp only [String.Pos.Raw.lt_iff, String.Pos.Raw.ext_iff]
    rfl
  rw [hvalid, String.Pos.Raw.isValid_ofList]
  simp only [utf8ByteSize_ofList]
  constructor
  · rintro ⟨i, hi⟩
    exact ⟨cs.take i, cs.drop i, (List.take_append_drop i cs).symm, hi⟩
  · rintro ⟨front, back, rfl, hoffset⟩
    exact ⟨front.length, by rw [List.take_left]; exact hoffset⟩

theorem onBoundary_width : onBoundary (front ++ back).utf8Encode (width front) = true :=
  onBoundary_iff.2 ⟨front, back, rfl, rfl⟩

/-- The characters of the bytes from an offset on, each with the offset of its first byte. -/
def charIndices (bytes : ByteArray) (offset : Nat) : List (Nat × Char) :=
  match _h : bytes.utf8DecodeChar? offset with
  | some ch => (offset, ch) :: charIndices bytes (offset + ch.utf8Size)
  | none => []
termination_by bytes.size - offset
decreasing_by
  have hlt : offset < bytes.size := ByteArray.lt_size_of_isSome_utf8DecodeChar? (by rw [_h]; rfl)
  have hch : 0 < ch.utf8Size := ch.utf8Size_pos
  omega

def withOffsets (offset : Nat) : List Char → List (Nat × Char)
  | [] => []
  | ch :: cs => (offset, ch) :: withOffsets (offset + ch.utf8Size) cs

theorem utf8DecodeChar?_cons {ch : Char} :
    (front ++ ch :: back).utf8Encode.utf8DecodeChar? (width front) = some ch := by
  rw [ByteArray.utf8DecodeChar?_eq_utf8DecodeChar?_extract, extract_back]
  exact List.utf8DecodeChar?_utf8Encode_cons

theorem utf8DecodeChar?_end : front.utf8Encode.utf8DecodeChar? (width front) = none := by
  rw [Option.eq_none_iff_forall_ne_some]
  intro ch h
  have hlt : width front < front.utf8Encode.size :=
    ByteArray.lt_size_of_isSome_utf8DecodeChar? (by rw [h]; rfl)
  rw [size_utf8Encode] at hlt
  exact Nat.lt_irrefl _ hlt

/-- Decoding from where a character starts gives this one and all behind it. -/
theorem charIndices_append (front back : List Char) :
    charIndices (front ++ back).utf8Encode (width front) = withOffsets (width front) back := by
  -- The decoded character joins those in front, so the bytes stay the same ones.
  induction back generalizing front with
  | nil =>
    rw [List.append_nil, charIndices, utf8DecodeChar?_end]
    rfl
  | cons ch back ih =>
    have hwidth : width front + ch.utf8Size = width (front ++ [ch]) := by
      rw [width_append, width, width, Nat.add_zero]
    have hnext := ih (front ++ [ch])
    rw [List.append_assoc] at hnext
    rw [charIndices, utf8DecodeChar?_cons]
    dsimp only
    rw [withOffsets, hwidth]
    exact congrArg _ hnext

theorem charIndices_utf8Encode (cs : List Char) :
    charIndices cs.utf8Encode 0 = withOffsets 0 cs :=
  charIndices_append [] cs

theorem map_snd_withOffsets (offset : Nat) (cs : List Char) :
    (withOffsets offset cs).map Prod.snd = cs := by
  induction cs generalizing offset with
  | nil => rfl
  | cons ch cs ih => rw [withOffsets, List.map_cons, ih]

theorem getElem?_withOffsets (offset : Nat) (cs : List Char) (k : Nat) :
    (withOffsets offset cs)[k]? = cs[k]?.map fun ch => (offset + width (cs.take k), ch) := by
  induction cs generalizing offset k with
  | nil => rfl
  | cons ch cs ih =>
    cases k with
    | zero => rfl
    | succ k => simp only [withOffsets, List.getElem?_cons_succ, ih, List.take_succ_cons, width,
        Nat.add_assoc]

/-- The first character without the property stands behind the longest run of those that have it. -/
theorem find?_withOffsets (offset : Nat) (cs : List Char) (p : Char → Bool) :
    (withOffsets offset cs).find? (fun x => !p x.2) =
      (cs.dropWhile p).head?.map fun ch => (offset + width (cs.takeWhile p), ch) := by
  induction cs generalizing offset with
  | nil => rfl
  | cons ch cs ih =>
    rw [withOffsets, List.find?_cons]
    cases hp : p ch with
    | false => simp [hp, width]
    | true => simp [hp, ih, width, Nat.add_assoc]

end Bytes

namespace ByteCursor

/-- The bytes from the position on. Inside a character and behind the end there are none. -/
def rest (c : Cursor) : ByteArray :=
  let bytes := c.text.toByteArray
  if onBoundary bytes c.position then bytes.extract c.position bytes.size else .empty

/-- The bytes in front of an offset, which has to be on a boundary. -/
def cut (stop : Nat) (bytes : ByteArray) : Except Violation ByteArray :=
  if onBoundary bytes stop then .ok (bytes.extract 0 stop) else .error .splitsCharacter

def chars (c : Cursor) : List Char :=
  (charIndices (rest c) 0).map Prod.snd

def current (c : Cursor) : Option Char :=
  (chars c)[0]?

def next (c : Cursor) : Option Char :=
  (chars c)[1]?

/-- Puts the cursor at an offset. Only one within the text has to be on a boundary. -/
def setPosition (position : Nat) (c : Cursor) : Except Violation Cursor :=
  if onBoundary c.text.toByteArray (min position c.text.utf8ByteSize) then .ok { c with position }
  else .error .splitsCharacter

def advanceBy (count : Nat) (c : Cursor) : Except Violation Cursor := do
  setPosition (← stepForward count c.position) c

def moveNext (c : Cursor) : Except Violation (Bool × Cursor) := do
  let moved ← match current c with
    | some ch => do pure { c with position := ← stepForward ch.utf8Size c.position }
    | none => pure c
  return (!moved.isAtEnd, moved)

def advance (c : Cursor) : Except Violation (Option Char × Cursor) := do
  let (_, moved) ← moveNext c
  return (current moved, moved)

/-- The bytes of the next `count` characters: those in front of the one behind them, all if there is
none behind them, and no bytes if there are fewer characters. -/
def peek (count : Nat) (c : Cursor) : Except Violation ByteArray :=
  match (charIndices (rest c) 0)[count]? with
  | some (stop, _) => cut stop (rest c)
  | none => .ok (if (chars c).length = count then rest c else .empty)

/-- The bytes in front of the first character without the property. -/
def peekWhile (p : Char → Bool) (c : Cursor) : Except Violation ByteArray :=
  match (charIndices (rest c) 0).find? fun x => !p x.2 with
  | some (stop, _) => cut stop (rest c)
  | none => .ok (rest c)

theorem cut_append (front back : List Char) :
    cut (width front) (front ++ back).utf8Encode = .ok front.utf8Encode := by
  rw [cut, onBoundary_width, if_pos rfl, extract_front]

section Agreement

variable (c : Cursor)

theorem toByteArray_text : c.text.toByteArray = c.text.toList.utf8Encode :=
  String.utf8Encode_toList.symm

/-- The bytes from the position on are those of the characters from there on. -/
theorem rest_eq : rest c = c.rest.utf8Encode := by
  rw [rest, Cursor.rest, toByteArray_text]
  by_cases hon : onBoundary c.text.toList.utf8Encode c.position = true
  · obtain ⟨front, back, htext, hpos⟩ := onBoundary_iff.1 hon
    rw [if_pos hon, hpos, htext, extract_back, dropBytes?_width]
    rfl
  · rw [if_neg hon]
    cases hdrop : dropBytes? c.position c.text.toList with
    | none => rfl
    | some back =>
      obtain ⟨front, htext, hmin⟩ := dropBytes?_eq_some_iff.1 hdrop
      -- Characters begin at the boundaries, so the position is behind the end.
      have hend : width c.text.toList ≤ c.position :=
        Nat.le_of_not_lt fun hlt => hon (onBoundary_iff.2 ⟨front, back, htext, by omega⟩)
      rw [dropBytes?_of_width_le hend] at hdrop
      cases hdrop
      rfl

theorem chars_eq : chars c = c.rest := by
  rw [chars, rest_eq, charIndices_utf8Encode, map_snd_withOffsets]

theorem current_eq : current c = c.current := by
  rw [current, chars_eq, Cursor.current, List.head?_eq_getElem?]

theorem next_eq : next c = c.next := by
  rw [next, chars_eq, Cursor.next, List.head?_eq_getElem?, List.getElem?_tail]

theorem peek_eq (count : Nat) : peek count c = .ok (c.peek count).utf8Encode := by
  rw [peek, Cursor.peek, chars_eq, rest_eq, charIndices_utf8Encode, getElem?_withOffsets]
  cases hat : c.rest[count]? with
  | some ch =>
    obtain ⟨hlt, -⟩ := List.getElem?_eq_some_iff.1 hat
    dsimp only [Option.map_some]
    rw [if_pos (Nat.le_of_lt hlt), Nat.zero_add]
    have hcut := cut_append (c.rest.take count) (c.rest.drop count)
    rwa [List.take_append_drop] at hcut
  | none =>
    have hle : c.rest.length ≤ count := List.getElem?_eq_none_iff.1 hat
    dsimp only [Option.map_none]
    by_cases heq : c.rest.length = count
    · rw [if_pos heq, if_pos (Nat.le_of_eq heq.symm), ← heq, List.take_length]
    · rw [if_neg heq, if_neg (by omega)]
      rfl

theorem peekWhile_eq (p : Char → Bool) : peekWhile p c = .ok (c.peekWhile p).utf8Encode := by
  rw [peekWhile, Cursor.peekWhile, rest_eq, charIndices_utf8Encode, find?_withOffsets]
  cases hhead : (c.rest.dropWhile p).head? with
  | some ch =>
    dsimp only [Option.map_some]
    have hcut := cut_append (c.rest.takeWhile p) (c.rest.dropWhile p)
    rwa [List.takeWhile_append_dropWhile, ← Nat.zero_add (width _)] at hcut
  | none =>
    have hall := List.takeWhile_append_dropWhile (p := p) (l := c.rest)
    rw [List.head?_eq_none_iff.1 hhead, List.append_nil] at hall
    rw [hall]
    rfl

theorem setPosition_eq (position : Nat) : setPosition position c = c.setPosition position := by
  rw [setPosition, Cursor.setPosition, toByteArray_text, utf8ByteSize_eq_width]
  cases hdrop : dropBytes? position c.text.toList with
  | some back =>
    obtain ⟨front, htext, hmin⟩ := dropBytes?_eq_some_iff.1 hdrop
    rw [hmin, htext, onBoundary_width, if_pos rfl]
  | none =>
    have hoff : ¬ onBoundary c.text.toList.utf8Encode (min position (width c.text.toList)) = true := by
      intro hon
      obtain ⟨front, back, htext, hmin⟩ := onBoundary_iff.1 hon
      rw [dropBytes?_eq_some_iff.2 ⟨front, htext, hmin⟩] at hdrop
      cases hdrop
    rw [if_neg hoff]

theorem advanceBy_eq (count : Nat) : advanceBy count c = c.advanceBy count := by
  rw [advanceBy, Cursor.advanceBy]
  exact bind_congr fun position => setPosition_eq c position

variable {c}

/-- The current character ends within the text. -/
theorem position_add_le {ch : Char} (h : c.current = some ch) :
    c.position + ch.utf8Size ≤ c.text.utf8ByteSize := by
  rw [Cursor.current, Cursor.rest] at h
  cases hdrop : dropBytes? c.position c.text.toList with
  | none =>
    rw [hdrop] at h
    cases h
  | some back =>
    rw [hdrop] at h
    obtain ⟨cs, rfl⟩ : ∃ cs, back = ch :: cs := List.head?_eq_some_iff.1 h
    obtain ⟨front, htext, hmin⟩ := dropBytes?_eq_some_iff.1 hdrop
    have hch : 0 < ch.utf8Size := ch.utf8Size_pos
    rw [htext, width_append, width] at hmin
    rw [utf8ByteSize_eq_width, htext, width_append, width]
    omega

variable (hc : c.text.utf8ByteSize ≤ lastPosition)
include hc

theorem moveNext_eq : moveNext c = .ok (!c.advance.isAtEnd, c.advance) := by
  rw [moveNext, current_eq, Cursor.advance]
  cases hch : c.current with
  | none => rfl
  | some ch =>
    have hstep : stepForward ch.utf8Size c.position = .ok (c.position + ch.utf8Size) :=
      stepForward_eq_ok_iff.2 ⟨rfl, Nat.le_trans (position_add_le hch) hc⟩
    dsimp only
    rw [hstep]
    rfl

theorem advance_eq : advance c = .ok (c.advance.current, c.advance) := by
  rw [advance, moveNext_eq hc, ← current_eq]
  rfl

end Agreement

end ByteCursor

end FrontEnd.Source
