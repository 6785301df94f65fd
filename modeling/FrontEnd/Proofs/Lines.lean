import FrontEnd.Proofs.TokenRoundTrip

/-! Sources line by line. A line feed ends whatever stands in front of it, and nothing is carried over
to the next line. So the tokens of a source are those in front of a line feed and those behind it,
and a fault behind it is the fault of the rest, so many bytes and lines further on. -/

namespace FrontEnd

namespace Source.Location

theorem after_append (here : Location) (xs ys : List Char) :
    here.after (xs ++ ys) = (here.after xs).after ys := by
  simp only [after, List.foldl_append]

theorem after_cons (here : Location) (c : Char) (cs : List Char) :
    here.after (c :: cs) = (here.step c).after cs := rfl

theorem line_after (here : Location) (cs : List Char) :
    (here.after cs).line = here.line + cs.count '\n' := by
  induction cs generalizing here with
  | nil => rfl
  | cons c cs ih =>
    rw [after_cons, ih]
    by_cases hc : c = '\n'
    · subst hc
      rw [List.count_cons_self, Nat.add_comm _ 1, ← Nat.add_assoc]
      rfl
    · rw [List.count_cons_of_ne hc, step, if_neg hc]

/-- The same column, so many lines further on. -/
def below (lines : Nat) (here : Location) : Location :=
  ⟨here.line + lines, here.column⟩

theorem after_below (lines : Nat) (here : Location) (cs : List Char) :
    (here.below lines).after cs = (here.after cs).below lines := by
  induction cs generalizing here with
  | nil => rfl
  | cons c cs ih =>
    have hstep : (here.below lines).step c = (here.step c).below lines := by
      unfold step below
      split
      · rw [Nat.add_right_comm]
      · rfl
    rw [after_cons, hstep, ih, after_cons]

/-- Behind a line feed a text is counted from the first column on, like a text of its own. -/
theorem start_after_lineFeed (xs ys : List Char) :
    start.after (xs ++ '\n' :: ys) = (start.after ys).below (1 + xs.count '\n') := by
  have hline : (start.after xs).step '\n' = start.below (1 + xs.count '\n') := by
    rw [step, if_pos rfl, line_after, below]
    simp only [start, mk.injEq, and_true]
    omega
  rw [after_append, after_cons, hline, after_below]

end Source.Location

open FrontEnd.Source

def Token.behind (bytes : Nat) (t : Token) : Token :=
  { t with begin := t.begin + bytes }

def ScanError.behind (bytes lines : Nat) (e : ScanError) : ScanError :=
  { e with position := e.position + bytes, location := e.location.below lines }

namespace Segment

theorem token?_add (bytes start : Nat) (s : Segment) :
    s.token? (start + bytes) = (s.token? start).map (Token.behind bytes) := by
  unfold token?
  rw [Option.map_map]
  congr 1
  funext kind
  cases s with
  | quoted body => simp [Token.behind, Nat.add_right_comm]
  | _ => rfl

theorem tokens_add (bytes start : Nat) (segments : List Segment) :
    tokens (start + bytes) segments = (tokens start segments).map (Token.behind bytes) := by
  induction segments generalizing start with
  | nil => rfl
  | cons s rest ih =>
    rw [tokens, tokens, token?_add, Nat.add_right_comm, ih]
    cases s.token? start <;> rfl

/-- No segment goes on with a line feed. -/
theorem endsBefore_lineFeed (s : Segment) (cs : List Char) : s.EndsBefore ('\n' :: cs) := by
  cases s with
  | blank c => trivial
  | comment body =>
    rintro c ⟨⟩
    rfl
  | word text =>
    rintro c ⟨⟩
    decide
  | number text =>
    rintro c ⟨⟩
    decide
  | quoted body => trivial
  | symbol s =>
    rintro c ⟨⟩
    refine ⟨fun k hk hks => ?_, fun _ => by decide⟩
    have hlast : ∀ k ∈ Symbol.compounds, k.text.toList.getLast? ≠ some '\n' := by decide
    exact hlast k hk (by rw [hks, List.getLast?_concat])

theorem split_lineFeed (cs : List Char) :
    split ('\n' :: cs) = (.blank '\n' :: (split cs).1, (split cs).2) :=
  split_cons_of_scan (scan_blank rfl)

end Segment

theorem scanSource_of_tokenize {src : String} {ts : List Token} (h : tokenize src = .ok ts) :
    scanSource src = (ts, none) := by
  unfold tokenize at h
  split at h
  · next hscan =>
    cases h
    exact hscan
  · cases h

/-- Two texts with a line feed between them, of which the first one has no fault. -/
theorem scanSource_lineFeed {a : String} {ta : List Token} (ha : scanSource a = (ta, none))
    (b : String) :
    scanSource (a ++ "\n" ++ b) =
      (ta ++ (scanSource b).1.map (Token.behind (a.utf8ByteSize + 1)),
        (scanSource b).2.map (.behind (a.utf8ByteSize + 1) (1 + a.toList.count '\n'))) := by
  obtain ⟨segments, rest, hchars, hapart, ⟨rfl, hscan⟩ | ⟨fault, -, hscan⟩⟩ :=
    Segment.scanSource_cases a
  swap
  · cases hscan.symm.trans ha
  obtain rfl : Segment.tokens 0 segments = ta := congrArg Prod.fst (hscan.symm.trans ha)
  rw [List.append_nil] at hchars
  have hsrc : (a ++ "\n" ++ b).toList = segments.flatMap Segment.chars ++ '\n' :: b.toList := by
    simp [hchars]
  have hwidth : width (a.toList ++ ['\n']) = a.utf8ByteSize + 1 := by
    rw [width_append, utf8ByteSize_eq_width]
    rfl
  rw [Segment.scanSource_of_apart hsrc (hapart.before fun s _ => s.endsBefore_lineFeed _),
    Segment.split_lineFeed, scanSource_eq b, Prod.mk.injEq]
  constructor
  · rw [Segment.tokens_append, ← hchars, ← Segment.tokens_add, ← hwidth, width_append,
      Nat.add_left_comm, Nat.zero_add]
    rfl
  · rw [Option.map_map, List.flatMap_append, List.flatMap_cons, ← hchars]
    congr 1
    funext fault
    simp only [Function.comp_apply, ScanError.ofFault, ScanError.behind, ScanError.mk.injEq,
      true_and]
    constructor
    · simp only [← hwidth, width_append, Segment.chars]
      omega
    · simp only [List.append_assoc, Segment.chars, List.singleton_append]
      exact Location.start_after_lineFeed _ _

/-- A source whose first lines have the tokens `ta` has these and then the tokens of the rest, so many
bytes further on. If the rest has a fault, so has the whole, with all tokens in front of it: the
fault is as many bytes further on, and as many lines as there are line feeds. All else about it is
the same. -/
theorem tokenizeInto_lines {a : String} {ta : List Token} (ha : tokenize a = .ok ta) (b : String) :
    (∀ tb, tokenize b = .ok tb →
      tokenizeInto [] (a ++ "\n" ++ b) =
        .ok (ta ++ tb.map (Token.behind (a.utf8ByteSize + 1)), none)) ∧
    ∀ tb e, tokenizeInto [] b = .ok (tb, some e) →
      tokenizeInto [] (a ++ "\n" ++ b) =
        .ok (ta ++ tb.map (Token.behind (a.utf8ByteSize + 1)),
          some (e.behind (a.utf8ByteSize + 1) (1 + a.toList.count '\n'))) := by
  have hscan := scanSource_lineFeed (scanSource_of_tokenize ha) b
  refine ⟨fun tb hb => ?_, fun tb e hb => ?_⟩
  · rw [scanSource_of_tokenize hb] at hscan
    exact congrArg Except.ok hscan
  · rw [show scanSource b = (tb, some e) from Except.ok.inj hb] at hscan
    exact congrArg Except.ok hscan

/-- The tokens of the two lines `é` and `x<`. -/
def twoLines : List Token :=
  [⟨.name, "é", 0⟩, ⟨.name, "x", 3⟩, ⟨.symbol .less, "<", 4⟩]

/-- Behind a line feed `=` does not go on with `<`. In the third line a number has a second dot. -/
theorem tokenizeInto_lines_twoLines :
    tokenize "é\nx<" = .ok twoLines ∧
    tokenizeInto [] "é\nx<\n=1" =
      .ok (twoLines ++ [⟨.symbol .assign, "=", 6⟩, ⟨.int, "1", 7⟩], none) ∧
    tokenizeInto [] "é\nx<\n= 1.2.3" =
      .ok (twoLines ++ [⟨.symbol .assign, "=", 6⟩],
        some ⟨.malformedNumber, '.', 11, ⟨3, 6⟩⟩) := by
  have ha : tokenize "é\nx<" = .ok twoLines := by decide +kernel
  have hb : tokenize "=1" = .ok [⟨.symbol .assign, "=", 0⟩, ⟨.int, "1", 1⟩] := by decide +kernel
  have hfault : tokenizeInto [] "= 1.2.3" =
      .ok ([⟨.symbol .assign, "=", 0⟩], some ⟨.malformedNumber, '.', 5, ⟨1, 6⟩⟩) := by
    decide +kernel
  exact ⟨ha, (tokenizeInto_lines ha "=1").1 _ hb, (tokenizeInto_lines ha "= 1.2.3").2 _ _ hfault⟩

end FrontEnd
