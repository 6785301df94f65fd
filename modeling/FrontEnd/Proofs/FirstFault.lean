import FrontEnd.Proofs.TokenRoundTrip

/-! Where a fault shows. The text in front of it is without a fault and has the tokens that were found.
A stray character and a second dot are at fault whatever stands behind them. A quote is at fault
because of all that stands behind it: no quote there closes the string. -/

namespace FrontEnd

open FrontEnd.Source

namespace Segment

def backslashes (cs : List Char) : Nat :=
  (cs.reverse.takeWhile (· = '\\')).length

theorem backslashes_le (cs : List Char) : backslashes cs ≤ cs.length := by
  have h := (List.takeWhile_prefix (fun c => decide (c = '\\')) (l := cs.reverse)).length_le
  rwa [List.length_reverse] at h

theorem backslashes_cons (c : Char) (cs : List Char) :
    backslashes (c :: cs) =
      backslashes cs + if backslashes cs = cs.length ∧ c = '\\' then 1 else 0 := by
  have hall : backslashes cs = cs.length ↔
      (cs.reverse.takeWhile (· = '\\')).length = cs.reverse.length := by
    rw [backslashes, List.length_reverse]
  rw [backslashes, List.reverse_cons, List.takeWhile_append]
  by_cases h : backslashes cs = cs.length
  · rw [if_pos (hall.1 h)]
    by_cases hc : c = '\\' <;> simp [h, hc]
  · rw [if_neg fun h' => h (hall.2 h'), if_neg fun h' => h h'.1]
    rfl

/-- A backslash and the character that it takes along do not matter to what follows them. -/
theorem backslashes_pair_mod (d : Char) (cs : List Char) :
    backslashes ('\\' :: d :: cs) % 2 = backslashes cs % 2 := by
  have hle := backslashes_le cs
  rw [backslashes_cons, backslashes_cons, List.length_cons]
  by_cases hd : backslashes cs = cs.length ∧ d = '\\'
  · rw [if_pos hd, if_pos ⟨by omega, rfl⟩]
    omega
  · rw [if_neg hd, if_neg (by omega)]
    rfl

/-- In a string that is not closed every quote stands behind an odd number of backslashes. -/
theorem odd_backslashes_of_unclosed (rest : List Char) : (inner : List Char) →
    (∀ body rest', Escaped body → inner ++ '\x22' :: rest ≠ body ++ '\x22' :: rest') →
    backslashes inner % 2 = 1
  | [], h => absurd rfl (h [] rest .nil)
  | [c], h => by
    by_cases hc : c = '\\'
    · subst hc
      decide
    · by_cases hq : c = '\x22'
      · subst hq
        exact absurd rfl (h [] _ .nil)
      · exact absurd rfl (h [c] rest (.plain hq hc .nil))
  | c :: d :: inner, h => by
    by_cases hc : c = '\\'
    · subst hc
      rw [backslashes_pair_mod]
      refine odd_backslashes_of_unclosed rest inner fun body rest' he heq => ?_
      exact h ('\\' :: d :: body) rest' (.pair d he) (by simp [heq])
    · by_cases hq : c = '\x22'
      · subst hq
        exact absurd rfl (h [] _ .nil)
      · rw [backslashes_cons, if_neg fun h => hc h.2, Nat.add_zero]
        refine odd_backslashes_of_unclosed rest (d :: inner) fun body rest' he heq => ?_
        exact h (c :: body) rest' (.plain hq hc he) (by simp [← heq])

theorem split_stray {c : Char} (hm : isMark c = true)
    (hc : ∀ k : Symbol, k.text.toList.head? ≠ some c) (cs : List Char) :
    split (c :: cs) = ([], some ⟨.unexpectedCharacter, [], c⟩) := by
  have hslash : c ≠ '/' := by
    rintro rfl
    exact hc .slash rfl
  have hpair : (cs.head?.bind fun d => Symbol.compound? (String.ofList [c, d])) = none := by
    refine Option.bind_eq_none_iff.2 fun d _ => compound?_eq_none_iff.2 fun k _ hk => hc k ?_
    rw [hk, List.head?_cons]
  have hsingle : Symbol.single? (String.ofList [c]) = none := by
    cases hk : Symbol.single? (String.ofList [c]) with
    | none => rfl
    | some k => exact absurd (by rw [Symbol.text_of_single? hk]; simp) (hc k)
  refine split_cons_of_error ?_
  rw [scan_mark hm fun h => absurd h hslash, scanSymbol, hpair, hsingle]

theorem isNumberPart_of_isDigit {c : Char} (h : Text.isDigit c = true) : isNumberPart c = true := by
  simp [isNumberPart, h]

theorem dot_not_mem {cs : List Char} (h : ∀ d ∈ cs, Text.isDigit d = true) : '.' ∉ cs :=
  fun hdot => absurd (h '.' hdot) (by decide)

/-- The number in front of a second dot. -/
theorem proper_number {whole fraction : List Char} (hw : Run Text.isDigit Text.isDigit whole)
    (hf : ∀ d ∈ fraction, Text.isDigit d = true) : (number (whole ++ '.' :: fraction)).Proper := by
  obtain ⟨c, ds, rfl, hc, hds⟩ := hw
  refine ⟨⟨c, _, rfl, hc, fun d hd => ?_⟩, ?_⟩
  · rcases List.mem_append.1 hd with hd | hd
    · exact isNumberPart_of_isDigit (hds d hd)
    · rcases List.mem_cons.1 hd with rfl | hd
      · decide
      · exact isNumberPart_of_isDigit (hf d hd)
  · have hwhole : '.' ∉ c :: ds := dot_not_mem (by simpa using ⟨hc, hds⟩)
    rw [List.count_append, List.count_eq_zero_of_not_mem hwhole, List.count_cons_self,
      List.count_eq_zero_of_not_mem (dot_not_mem hf)]

theorem split_secondDot {whole fraction : List Char} (hw : Run Text.isDigit Text.isDigit whole)
    (hf : ∀ d ∈ fraction, Text.isDigit d = true) (more : List Char) :
    split (whole ++ '.' :: fraction ++ '.' :: more) =
      ([], some ⟨.malformedNumber, whole ++ '.' :: fraction, '.'⟩) := by
  obtain ⟨⟨c, ds, hcs, hc, hds⟩, -⟩ := proper_number hw hf
  have hwhole : '.' ∉ whole := by
    obtain ⟨c, ds, rfl, hc, hds⟩ := hw
    exact dot_not_mem (by simpa using ⟨hc, hds⟩)
  have hrun : c :: (ds ++ '.' :: more).takeWhile isNumberPart =
      whole ++ '.' :: (fraction ++ '.' :: more.takeWhile isNumberPart) := by
    rw [List.takeWhile_append_of_pos hds, List.takeWhile_cons_of_pos (by decide),
      ← List.cons_append, ← hcs, List.append_assoc, List.cons_append]
  have hfront : whole ++ '.' :: fraction ++ '.' :: more = c :: (ds ++ '.' :: more) := by
    rw [hcs, List.cons_append]
  rw [hfront]
  refine split_cons_of_error ?_
  rw [scan_digit hc, hrun, ofRun]
  simp only [split_at_dot hwhole, split_at_dot (dot_not_mem hf)]

theorem Apart.concat {segments : List Segment} {s : Segment} (h : Apart s.chars segments)
    (hs : s.Proper) : Apart [] (segments ++ [s]) :=
  (apart_append segments [s]).2 ⟨by simpa using h, hs, endsBefore_nil s, trivial⟩

section Stuck

variable {fault : ScanFault} {rest : List Char}

theorem Stuck.exists_back (h : Stuck fault rest) :
    ∃ back, rest = fault.lead ++ fault.character :: back := by
  cases h with
  | stray => exact ⟨_, rfl⟩
  | unclosed => exact ⟨_, rfl⟩
  | secondDot => exact ⟨_, rfl⟩

/-- A fault that is no open string needs nothing behind its character. -/
theorem Stuck.split_eq (h : Stuck fault rest) (hr : fault.reason ≠ .unterminatedString)
    (more : List Char) : split (fault.lead ++ fault.character :: more) = ([], some fault) := by
  cases h with
  | stray hm hc => exact split_stray hm hc more
  | unclosed => exact absurd rfl hr
  | secondDot hw hf => exact split_secondDot hw hf more

/-- What a number had before its second dot is a number. Any other fault is at the front. -/
theorem Stuck.lead_cases (h : Stuck fault rest) :
    (fault.reason ≠ .malformedNumber ∧ fault.lead = []) ∨
      fault.reason = .malformedNumber ∧ (number fault.lead).Proper ∧ '.' ∈ fault.lead := by
  cases h with
  | stray => exact .inl ⟨nofun, rfl⟩
  | unclosed => exact .inl ⟨nofun, rfl⟩
  | secondDot hw hf => exact .inr ⟨rfl, proper_number hw hf, by simp⟩

/-- The segments in front of a fault stay apart if the text behind them starts alike. -/
theorem Apart.before_fault {segments : List Segment} (h : Apart rest segments)
    {back : List Char} (hrest : rest = fault.lead ++ fault.character :: back) (more : List Char) :
    Apart (fault.lead ++ fault.character :: more) segments := by
  refine h.before fun s hs => hs.congr ?_
  rw [hrest]
  cases fault.lead <;> rfl

end Stuck

end Segment

open Segment

section Fault

variable {segments : List Segment} {rest : List Char} {fault : ScanFault}

theorem tokenize_before_fault (ha : Apart rest segments) (hlead : fault.lead = []) :
    tokenize (String.ofList (segments.flatMap chars ++ fault.lead)) = .ok (tokens 0 segments) := by
  rw [hlead, List.append_nil]
  exact tokenize_of_apart (ha.before fun s _ => endsBefore_nil s)

/-- Cut in front of its second dot, a number is a token like any other. -/
theorem tokenize_before_secondDot (ha : Apart rest segments) {back : List Char}
    (hrest : rest = fault.lead ++ fault.character :: back) (hp : (number fault.lead).Proper)
    (hdot : '.' ∈ fault.lead) :
    tokenize (String.ofList (segments.flatMap chars ++ fault.lead)) =
      .ok (tokens 0 segments ++
        [⟨.float, String.ofList fault.lead, width (segments.flatMap chars)⟩]) := by
  have hapart : Apart (number fault.lead).chars segments := by
    obtain ⟨c, cs, hc⟩ := List.exists_cons_of_ne_nil (List.ne_nil_of_mem hdot)
    refine ha.before fun s hs => hs.congr ?_
    rw [hrest, hc]
    rfl
  have htokens : tokens 0 (segments ++ [number fault.lead]) = tokens 0 segments ++
      [⟨.float, String.ofList fault.lead, width (segments.flatMap chars)⟩] := by
    rw [tokens_append, Nat.zero_add]
    simp [tokens, token?, kind?, hdot, chars]
  rw [← htokens, ← tokenize_of_apart (hapart.concat hp)]
  simp [chars]

/-- Every source that goes the same way up to the fault and its character has the same fault. -/
theorem scanSource_of_faulty_start (ha : Apart rest segments) (hs : Stuck fault rest)
    (hr : fault.reason ≠ .unterminatedString) {src : String}
    (hsrc : segments.flatMap chars ++ fault.lead ++ [fault.character] <+: src.toList) :
    scanSource src = (tokens 0 segments, some (.ofFault (segments.flatMap chars) fault)) := by
  obtain ⟨more, hmore⟩ := hsrc
  obtain ⟨back, hrest⟩ := hs.exists_back
  have hsrc : src.toList = segments.flatMap chars ++ (fault.lead ++ fault.character :: more) := by
    simp [← hmore]
  rw [scanSource_of_apart hsrc (ha.before_fault hrest more), hs.split_eq hr more, List.append_nil]
  rfl

end Fault

/-- An error is at a character of the source, and located there. In front of it the source is without
a fault and has the tokens of the buffer; a number with a second dot is one more there, up to that
dot. A stray character or a second dot is the error of every source that goes the same way so far;
and behind an opening quote that is at fault, every quote is taken along by a backslash. -/
theorem fault_earliest {src : String} {buffer : List Token} {e : ScanError}
    (h : tokenizeInto [] src = .ok (buffer, some e)) :
    ∃ front back, src.toList = front ++ e.character :: back ∧ e.position = width front ∧
      locate? src e.position = some e.location ∧
      (e.reason = .unexpectedCharacter ∨ e.reason = .unterminatedString →
        tokenize (String.ofList front) = .ok buffer) ∧
      (e.reason = .malformedNumber → ∃ t : Token, t.kind = .float ∧ t.stop = e.position ∧
        tokenize (String.ofList front) = .ok (buffer ++ [t])) ∧
      (e.reason = .unexpectedCharacter ∨ e.reason = .malformedNumber →
        ∀ src' : String, front ++ [e.character] <+: src'.toList →
          tokenizeInto [] src' = .ok (buffer, some e)) ∧
      (e.reason = .unterminatedString → e.character = '\x22' ∧
        ∀ inner rest, back = inner ++ '\x22' :: rest → backslashes inner % 2 = 1) := by
  have h : scanSource src = (buffer, some e) := Except.ok.inj h
  obtain ⟨segments, rest, hsrc, ha, ⟨-, hscan⟩ | ⟨fault, hs, hscan⟩⟩ := scanSource_cases src
  · cases hscan.symm.trans h
  cases hscan.symm.trans h
  obtain ⟨back, hrest⟩ := hs.exists_back
  have hwhole : src.toList =
      (segments.flatMap chars ++ fault.lead) ++ fault.character :: back := by
    rw [hsrc, hrest, List.append_assoc]
  refine ⟨segments.flatMap chars ++ fault.lead, back, hwhole, rfl, ?_, fun hr => ?_, fun hr => ?_,
    fun hr src' hsrc' => ?_, fun hr => ?_⟩
  · rw [locate?, hwhole]
    exact locateFrom?_width .start _ _
  · obtain ⟨-, hlead⟩ | ⟨hbad, -⟩ := hs.lead_cases
    · exact tokenize_before_fault ha hlead
    · rcases hr with hr | hr <;> cases hbad.symm.trans hr
  · obtain ⟨hne, -⟩ | ⟨-, hp, hdot⟩ := hs.lead_cases
    · exact absurd hr hne
    · refine ⟨_, rfl, ?_, tokenize_before_secondDot ha hrest hp hdot⟩
      rw [Token.stop, utf8ByteSize_ofList]
      exact (width_append _ _).symm
  · have hr : fault.reason ≠ .unterminatedString := by
      intro hopen
      rcases hr with hr | hr <;> cases hr.symm.trans hopen
    exact congrArg Except.ok (scanSource_of_faulty_start ha hs hr hsrc')
  · cases hs with
    | stray => cases hr
    | secondDot => cases hr
    | unclosed hopen =>
      cases hrest
      refine ⟨rfl, fun inner after hback => ?_⟩
      refine odd_backslashes_of_unclosed after inner fun body rest' he heq => ?_
      exact hopen body rest' he (hback.trans heq)

/-- A beginning of a text is given by its width. -/
theorem eq_of_width_eq {front front' back back' : List Char}
    (h : front ++ back = front' ++ back') (hw : width front = width front') : front = front' := by
  have hback := dropBytes?_width front back
  rw [h, hw, dropBytes?_width] at hback
  cases hback
  exact List.append_cancel_right h

/-- A stray character behind a word, a number with three parts, and a string whose only quote is taken
along by a backslash. -/
theorem fault_earliest_threeWays :
    (tokenizeInto [] "é $1" = .ok ([⟨.name, "é", 0⟩], some ⟨.unexpectedCharacter, '$', 3, ⟨1, 3⟩⟩) ∧
      tokenize "é " = .ok [⟨.name, "é", 0⟩] ∧
      tokenizeInto [] "é $$" =
        .ok ([⟨.name, "é", 0⟩], some ⟨.unexpectedCharacter, '$', 3, ⟨1, 3⟩⟩)) ∧
    (tokenizeInto [] "1.2.3" = .ok ([], some ⟨.malformedNumber, '.', 3, ⟨1, 4⟩⟩) ∧
      ∃ t : Token, t.kind = .float ∧ t.stop = 3 ∧ tokenize "1.2" = .ok [t]) ∧
    tokenizeInto [] "(\"\\\"" =
        .ok ([⟨.symbol .openParen, "(", 0⟩], some ⟨.unterminatedString, '\x22', 1, ⟨1, 2⟩⟩) ∧
      tokenize "(" = .ok [⟨.symbol .openParen, "(", 0⟩] := by
  have hstray : tokenizeInto [] "é $1" =
      .ok ([⟨.name, "é", 0⟩], some ⟨.unexpectedCharacter, '$', 3, ⟨1, 3⟩⟩) := by decide +kernel
  have hdots : tokenizeInto [] "1.2.3" = .ok ([], some ⟨.malformedNumber, '.', 3, ⟨1, 4⟩⟩) := by
    decide +kernel
  have hopen : tokenizeInto [] "(\"\\\"" =
      .ok ([⟨.symbol .openParen, "(", 0⟩], some ⟨.unterminatedString, '\x22', 1, ⟨1, 2⟩⟩) := by
    decide +kernel
  obtain ⟨front, back, hsrc, hpos, -, hbefore, -, hafter, -⟩ := fault_earliest hstray
  obtain rfl := eq_of_width_eq (show ['é', ' '] ++ ['$', '1'] = _ from hsrc) hpos
  obtain ⟨front, back, hsrc, hpos, -, -, hnumber, -⟩ := fault_earliest hdots
  obtain rfl := eq_of_width_eq (show ['1', '.', '2'] ++ ['.', '3'] = _ from hsrc) hpos
  obtain ⟨front, back, hsrc, hpos, -, hopened, -⟩ := fault_earliest hopen
  obtain rfl := eq_of_width_eq (show ['('] ++ ['\x22', '\\', '\x22'] = _ from hsrc) hpos
  exact ⟨⟨hstray, hbefore (.inl rfl), hafter (.inl rfl) "é $$" (by decide)⟩, ⟨hdots, hnumber rfl⟩,
    hopen, hopened (.inr rfl)⟩

end FrontEnd
