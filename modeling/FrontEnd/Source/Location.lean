/-! Byte offsets, lines and columns of a text. Offsets count the bytes of the UTF-8 form, lines and
columns count from one, and a column counts characters. -/

namespace FrontEnd.Source

def width : List Char → Nat
  | [] => 0
  | c :: cs => c.utf8Size + width cs

@[simp]
theorem width_append (xs ys : List Char) : width (xs ++ ys) = width xs + width ys := by
  induction xs with
  | nil => simp [width]
  | cons c cs ih => simp [width, ih, Nat.add_assoc]

/-- The bytes of a text are those of its characters. -/
theorem utf8ByteSize_ofList (cs : List Char) : (String.ofList cs).utf8ByteSize = width cs := by
  induction cs with
  | nil => rfl
  | cons c cs ih =>
    rw [show c :: cs = [c] ++ cs from rfl, String.ofList_append, String.utf8ByteSize_append, ih,
      width_append]
    simp [width]

theorem utf8ByteSize_eq_width (s : String) : s.utf8ByteSize = width s.toList := by
  rw [← utf8ByteSize_ofList, String.ofList_toList]

/-- The characters from a byte offset on: none past the end, and no answer inside a character. -/
def dropBytes? : Nat → List Char → Option (List Char)
  | 0, cs => some cs
  | _ + 1, [] => some []
  | n + 1, c :: cs => if c.utf8Size ≤ n + 1 then dropBytes? (n + 1 - c.utf8Size) cs else none

/-- Dropping the bytes of the characters in front leaves exactly those behind. -/
@[simp]
theorem dropBytes?_width (xs ys : List Char) : dropBytes? (width xs) (xs ++ ys) = some ys := by
  induction xs with
  | nil => rw [width, dropBytes?]; rfl
  | cons c cs ih =>
    have hc : 0 < c.utf8Size := c.utf8Size_pos
    obtain ⟨n, hn⟩ : ∃ n, width (c :: cs) = n + 1 :=
      ⟨c.utf8Size + width cs - 1, by rw [width]; omega⟩
    rw [hn, List.cons_append, dropBytes?, ← hn, if_pos (by rw [width]; omega)]
    rw [show width (c :: cs) - c.utf8Size = width cs by rw [width]; omega, ih]

structure Location where
  line : Nat
  column : Nat
  deriving DecidableEq

namespace Location

def start : Location := ⟨1, 1⟩

/-- The place behind a character: a line feed starts a line. -/
def step (here : Location) (c : Char) : Location :=
  if c = '\n' then ⟨here.line + 1, 1⟩ else ⟨here.line, here.column + 1⟩

def after (here : Location) (cs : List Char) : Location :=
  cs.foldl step here

def text (here : Location) : String :=
  toString here.line ++ ":" ++ toString here.column

end Location

/-- The place that lies `n` bytes behind `here`. Past the end it is the end; inside a character
there is none. -/
def locateFrom? (here : Location) : Nat → List Char → Option Location
  | 0, _ => some here
  | _ + 1, [] => some here
  | n + 1, c :: cs =>
    if c.utf8Size ≤ n + 1 then locateFrom? (here.step c) (n + 1 - c.utf8Size) cs else none

def locate? (src : String) (offset : Nat) : Option Location :=
  locateFrom? .start offset src.toList

/-- The place of a character is found by counting what stands in front of it. -/
theorem locateFrom?_width (here : Location) (xs ys : List Char) :
    locateFrom? here (width xs) (xs ++ ys) = some (here.after xs) := by
  induction xs generalizing here with
  | nil => rw [width, locateFrom?]; rfl
  | cons c cs ih =>
    have hc : 0 < c.utf8Size := c.utf8Size_pos
    obtain ⟨n, hn⟩ : ∃ n, width (c :: cs) = n + 1 :=
      ⟨c.utf8Size + width cs - 1, by rw [width]; omega⟩
    rw [hn, List.cons_append, locateFrom?, ← hn, if_pos (by rw [width]; omega)]
    rw [show width (c :: cs) - c.utf8Size = width cs by rw [width]; omega, ih]
    rfl

/-- The offset lies between two characters of the source, or at one of its ends. -/
def IsBoundary (src : String) (offset : Nat) : Prop :=
  ∃ front back, src.toList = front ++ back ∧ offset = width front

theorem isBoundary_utf8ByteSize (src : String) : IsBoundary src src.utf8ByteSize :=
  ⟨src.toList, [], by simp, utf8ByteSize_eq_width src⟩

theorem IsBoundary.locate? {src : String} {offset : Nat} (h : IsBoundary src offset) :
    ∃ here, locate? src offset = some here := by
  obtain ⟨front, back, hs, rfl⟩ := h
  exact ⟨_, by rw [Source.locate?, hs, locateFrom?_width]⟩

end FrontEnd.Source
