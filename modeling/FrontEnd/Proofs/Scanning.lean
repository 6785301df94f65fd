import FrontEnd.Proofs.Lexemes
import Mathlib.Data.List.TakeWhile

/-! The scanner finds a segment at the front of a text exactly if the text is that segment in its
written form, followed by a text before which it ends. Otherwise the text is stuck. -/

namespace FrontEnd.Segment

theorem takeWhile_run {p : Char → Bool} {run rest : List Char} (h : ∀ c ∈ run, p c = true)
    (hr : ∀ c ∈ rest.head?, p c = false) :
    (run ++ rest).takeWhile p = run ∧ (run ++ rest).dropWhile p = rest := by
  rw [List.takeWhile_append_of_pos h, List.dropWhile_append_of_pos h]
  cases rest with
  | nil => simp
  | cons c cs => simp [hr c rfl]

theorem not_of_mem_head?_dropWhile {p : Char → Bool} {cs : List Char} {c : Char}
    (h : c ∈ (cs.dropWhile p).head?) : p c = false := by
  have hd := List.head?_dropWhile_not p cs
  rw [Option.mem_def.1 h] at hd
  exact hd

theorem isAlphabetic_eq_false {c : Char} (h : c.toNat < 0x41) : Text.isAlphabetic c = false := by
  unfold Text.isAlphabetic Text.alphabeticRanges Text.inRanges
  rw [if_pos h]

theorem isDigit_iff {c : Char} : Text.isDigit c = true ↔ 48 ≤ c.toNat ∧ c.toNat ≤ 57 := by
  simp [Text.isDigit, Char.le_def, UInt32.le_iff_toNat_le]

theorem isWordStart_of_isDigit {c : Char} (h : Text.isDigit c = true) :
    isWordStart c = false := by
  have hc := isDigit_iff.1 h
  have hu : c ≠ '_' := by
    rintro rfl
    simp at hc
  simp [isWordStart, hu, isAlphabetic_eq_false (show c.toNat < 0x41 by omega)]

/-- A class of characters without these six opens no layout, comment or string. -/
theorem opens_no_trivia {p : Char → Bool} {c : Char}
    (hp : ['\n', '\r', '\t', ' ', '/', '\x22'].any p = false) (h : p c = true) :
    ¬ isLayout c = true ∧ c ≠ '/' ∧ c ≠ '\x22' := by
  have hne : ∀ d ∈ ['\n', '\r', '\t', ' ', '/', '\x22'], c ≠ d := by
    rintro d hd rfl
    exact List.any_eq_false.1 hp c hd h
  refine ⟨?_, hne '/' (by decide), hne '\x22' (by decide)⟩
  simp [isLayout, hne '\n', hne '\r', hne '\t', hne ' ']

/-- What the first characters of a text can announce, each excluding the others. -/
inductive Opening : Char → List Char → Prop
  | blank {c : Char} {cs : List Char} : isLayout c = true → Opening c cs
  | comment (cs : List Char) : Opening '/' ('/' :: cs)
  | quote (cs : List Char) : Opening '\x22' cs
  | word {c : Char} {cs : List Char} : isWordStart c = true → Opening c cs
  | digit {c : Char} {cs : List Char} : Text.isDigit c = true → Opening c cs
  | mark {c : Char} {cs : List Char} :
      isMark c = true → (c = '/' → cs.head? ≠ some '/') → Opening c cs

theorem opening (c : Char) (cs : List Char) : Opening c cs := by
  by_cases hl : isLayout c = true
  · exact .blank hl
  by_cases hq : c = '\x22'
  · subst hq
    exact .quote cs
  by_cases hw : isWordStart c = true
  · exact .word hw
  by_cases hd : Text.isDigit c = true
  · exact .digit hd
  have hm : isMark c = true := by simp [isMark, hl, hq, hw, hd]
  by_cases hs : c = '/' ∧ cs.head? = some '/'
  · obtain ⟨rfl, hs⟩ := hs
    obtain ⟨ds, rfl⟩ := List.head?_eq_some_iff.1 hs
    exact .comment ds
  · exact .mark hm fun hc h => hs ⟨hc, h⟩

section Branches

variable {c : Char} {cs : List Char}

theorem scan_blank (h : isLayout c = true) : scan c cs = .ok (.blank c, cs) := by
  rw [scan, if_pos h]

theorem scan_comment : scan '/' ('/' :: cs) =
    .ok (.comment (cs.takeWhile (· != '\n')), cs.dropWhile (· != '\n')) := by
  rw [scan, if_neg (by decide), if_pos ⟨rfl, rfl⟩, List.tail_cons]

theorem scan_quote_closed {body rest : List Char} (h : closeQuote? [] cs = some (body, rest)) :
    scan '\x22' cs = .ok (.quoted body, rest) := by
  rw [scan, if_neg (by decide), if_neg (by simp), if_pos rfl, h]

theorem scan_quote_open (h : closeQuote? [] cs = none) :
    scan '\x22' cs = .error ⟨.unterminatedString, [], '\x22'⟩ := by
  rw [scan, if_neg (by decide), if_neg (by simp), if_pos rfl, h]

theorem scan_word (h : isWordStart c = true) :
    scan c cs = .ok (.word (c :: cs.takeWhile isWordPart), cs.dropWhile isWordPart) := by
  obtain ⟨hl, hs, hq⟩ := opens_no_trivia (p := isWordStart) (by decide) h
  rw [scan, if_neg hl, if_neg (fun h => hs h.1), if_neg hq, if_pos h]

theorem scan_digit (h : Text.isDigit c = true) :
    scan c cs = ofRun (c :: cs.takeWhile isNumberPart) (cs.dropWhile isNumberPart) := by
  obtain ⟨hl, hs, hq⟩ := opens_no_trivia (p := Text.isDigit) (by decide) h
  have hw : ¬ isWordStart c = true := by simp [isWordStart_of_isDigit h]
  rw [scan, if_neg hl, if_neg (fun h => hs h.1), if_neg hq, if_neg hw, if_pos h]

theorem scan_mark (h : isMark c = true) (hs : c = '/' → cs.head? ≠ some '/') :
    scan c cs = scanSymbol c cs := by
  simp only [isMark, Bool.and_eq_true, Bool.not_eq_true', bne_iff_ne] at h
  obtain ⟨⟨⟨hl, hq⟩, hw⟩, hd⟩ := h
  rw [scan, if_neg (by simp [hl]), if_neg (fun h => hs h.1 h.2), if_neg hq, if_neg (by simp [hw]),
    if_neg (by simp [hd])]

end Branches

/-- The body up to the closing quote is escaped. -/
theorem escaped_of_closeQuote? {acc cs body rest : List Char}
    (h : closeQuote? acc cs = some (body, rest)) :
    ∃ inner, Escaped inner ∧ body = acc.reverse ++ inner ∧ cs = inner ++ '\x22' :: rest := by
  fun_induction closeQuote? acc cs with
  | case1 => cases h
  | case2 acc cs =>
    cases h
    exact ⟨[], .nil, by simp, rfl⟩
  | case3 => cases h
  | case4 acc d ds hq ih =>
    obtain ⟨inner, he, rfl, rfl⟩ := ih h
    exact ⟨_, .pair d he, by simp, rfl⟩
  | case5 acc c cs hq hb ih =>
    obtain ⟨inner, he, rfl, rfl⟩ := ih h
    exact ⟨_, .plain hq hb he, by simp, rfl⟩

theorem closeQuote?_of_escaped {inner : List Char} (h : Escaped inner) (acc rest : List Char) :
    closeQuote? acc (inner ++ '\x22' :: rest) = some (acc.reverse ++ inner, rest) := by
  induction h generalizing acc with
  | nil =>
    unfold closeQuote?
    simp
  | pair c _ ih =>
    rw [List.cons_append, List.cons_append, closeQuote?, if_neg (by decide), if_pos rfl, ih]
    simp
  | plain hq hb _ ih =>
    unfold closeQuote?
    simp [hq, hb, ih]

theorem closeQuote?_eq_some_iff {cs body rest : List Char} :
    closeQuote? [] cs = some (body, rest) ↔ Escaped body ∧ cs = body ++ '\x22' :: rest := by
  constructor
  · intro h
    obtain ⟨inner, he, rfl, rfl⟩ := escaped_of_closeQuote? h
    exact ⟨he, rfl⟩
  · rintro ⟨he, rfl⟩
    exact closeQuote?_of_escaped he [] rest

instance (body : List Char) : Decidable (Escaped body) :=
  decidable_of_iff (closeQuote? [] (body ++ ['\x22']) = some (body, []))
    (by simp [closeQuote?_eq_some_iff])

instance : (s : Segment) → Decidable s.Proper
  | blank c => inferInstanceAs (Decidable (isLayout c = true))
  | comment body => inferInstanceAs (Decidable ('\n' ∉ body))
  | word text => inferInstanceAs (Decidable (Run isWordStart isWordPart text))
  | number text =>
    inferInstanceAs (Decidable (Run Text.isDigit isNumberPart text ∧ text.count '.' ≤ 1))
  | quoted body => inferInstanceAs (Decidable (Escaped body))
  | symbol _ => .isTrue trivial

instance decidableApart (tail : List Char) :
    (segments : List Segment) → Decidable (Apart tail segments)
  | [] => .isTrue trivial
  | s :: rest =>
    have := decidableApart tail rest
    inferInstanceAs (Decidable (s.Proper ∧ s.EndsBefore (rest.flatMap chars ++ tail) ∧ _))

theorem split_at_dot {front : List Char} (h : '.' ∉ front) (back : List Char) :
    (front ++ '.' :: back).takeWhile (· != '.') = front ∧
      (front ++ '.' :: back).dropWhile (· != '.') = '.' :: back := by
  refine takeWhile_run (fun c hc => bne_iff_ne.2 ?_) (by simp)
  rintro rfl
  exact h hc

theorem dropWhile_dot_eq_nil {run : List Char} (h : '.' ∉ run) :
    run.dropWhile (· != '.') = [] := by
  refine List.dropWhile_eq_nil_iff.2 fun c hc => bne_iff_ne.2 ?_
  rintro rfl
  exact h hc

/-- A run has no dot, one dot, or a first and a second one. -/
theorem dots_cases (run : List Char) :
    (run.count '.' ≤ 1 ∧ ∀ rest, ofRun run rest = .ok (.number run, rest)) ∨
    ∃ whole fraction more, '.' ∉ whole ∧ '.' ∉ fraction ∧
      run = whole ++ '.' :: fraction ++ '.' :: more ∧
      ∀ rest, ofRun run rest = .error ⟨.malformedNumber, whole ++ '.' :: fraction, '.'⟩ := by
  by_cases h1 : '.' ∈ run
  · obtain ⟨whole, back, rfl, hw⟩ := List.eq_append_cons_of_mem h1
    by_cases h2 : '.' ∈ back
    · obtain ⟨fraction, more, rfl, hf⟩ := List.eq_append_cons_of_mem h2
      refine .inr ⟨whole, fraction, more, hw, hf, by simp, fun rest => ?_⟩
      simp only [ofRun, split_at_dot hw, split_at_dot hf]
    · refine .inl ⟨by simp [List.count_eq_zero_of_not_mem, hw, h2], fun rest => ?_⟩
      simp only [ofRun, split_at_dot hw, dropWhile_dot_eq_nil h2]
  · refine .inl ⟨by simp [List.count_eq_zero_of_not_mem, h1], fun rest => ?_⟩
    simp only [ofRun, dropWhile_dot_eq_nil h1]

theorem ofRun_eq_ok_iff {run rest rest' : List Char} {s : Segment} :
    ofRun run rest = .ok (s, rest') ↔ run.count '.' ≤ 1 ∧ s = .number run ∧ rest' = rest := by
  rcases dots_cases run with ⟨hc, hok⟩ | ⟨whole, fraction, more, -, -, rfl, herr⟩
  · simp [hok, hc, eq_comm]
  · have hc : ¬ (whole ++ '.' :: fraction ++ '.' :: more).count '.' ≤ 1 := by
      simp only [List.count_append, List.count_cons_self]
      omega
    rw [herr]
    constructor
    · intro h
      cases h
    · intro h
      exact absurd h.1 hc

section Symbols

theorem text_cases (k : Symbol) :
    (Symbol.single? k.text = some k ∧ ∃ c, k.text.toList = [c]) ∨
    (Symbol.compound? k.text = some k ∧ ∃ c d, k.text.toList = [c, d] ∧ c ≠ '/') := by
  cases k
  all_goals first
    | exact .inl ⟨by decide, _, rfl⟩
    | exact .inr ⟨by decide, _, _, rfl, by decide⟩

theorem length_text_of_mem_compounds : ∀ k ∈ Symbol.compounds, k.text.toList.length = 2 := by
  decide

theorem isMark_head_text (k : Symbol) : k.text.toList.head?.all isMark = true := by
  cases k <;> decide

/-- A symbol of two characters starts with one of a single character. -/
theorem exists_single_head (k : Symbol) :
    ∃ j ∈ Symbol.singles, k.text.toList.head? = j.text.toList.head? ∧
      j.text.toList.length = 1 := by
  cases k <;> decide

theorem text_eq_ofList {k : Symbol} {cs : List Char} (h : k.text.toList = cs) :
    k.text = String.ofList cs := by
  rw [← h, String.ofList_toList]

theorem compound?_eq_none_iff {c d : Char} : Symbol.compound? (String.ofList [c, d]) = none ↔
    ∀ k ∈ Symbol.compounds, k.text.toList ≠ [c, d] := by
  simp only [Symbol.compound?, List.find?_eq_none, decide_eq_true_eq]
  constructor
  · intro h k hk ht
    exact h k hk (text_eq_ofList ht)
  · intro h k hk ht
    exact h k hk (by rw [ht, String.toList_ofList])

variable {c : Char} {cs rest : List Char}

/-- The symbol of two characters wins, so the one that is found does not fuse with what follows. -/
theorem endsBefore_of_scanSymbol {s : Segment} (hslash : c = '/' → cs.head? ≠ some '/')
    (h : scanSymbol c cs = .ok (s, rest)) : s.Proper ∧ s.EndsBefore rest := by
  unfold scanSymbol at h
  split at h
  · next k hk =>
    cases h
    obtain ⟨d, hd, hk⟩ := Option.bind_eq_some_iff.1 hk
    have htext : k.text.toList = [c, d] := by
      rw [Symbol.text_of_compound? hk, String.toList_ofList]
    refine ⟨trivial, fun e he => ⟨fun j hj hje => ?_, ?_⟩⟩
    · have hlen := length_text_of_mem_compounds j hj
      rw [hje, htext] at hlen
      cases hlen
    · rintro rfl
      cases htext
  · next hnone =>
    split at h
    · next k hk =>
      cases h
      have htext : k.text.toList = [c] := by
        rw [Symbol.text_of_single? hk, String.toList_ofList]
      refine ⟨trivial, fun e he => ⟨?_, ?_⟩⟩
      · rw [htext]
        exact compound?_eq_none_iff.1 (Option.bind_eq_none_iff.1 hnone e he)
      · rintro rfl rfl
        cases htext
        exact hslash rfl he
    · cases h

/-- A symbol that ends before the rest is found. -/
theorem scan_symbol {k : Symbol} (hk : (symbol k).EndsBefore rest)
    (hcs : k.text.toList ++ rest = c :: cs) : scan c cs = .ok (.symbol k, rest) := by
  have hmark := isMark_head_text k
  rcases text_cases k with ⟨hfind, c', htext⟩ | ⟨hfind, c', d, htext, hslash⟩
  · rw [htext] at hcs hmark
    obtain ⟨rfl, rfl⟩ : c' = c ∧ rest = cs := by simpa using hcs
    rw [text_eq_ofList htext] at hfind
    have hnone : (rest.head?.bind fun d => Symbol.compound? (String.ofList [c', d])) = none := by
      refine Option.bind_eq_none_iff.2 fun d hd => compound?_eq_none_iff.2 fun j hj => ?_
      have := (hk d hd).1 j hj
      rwa [htext] at this
    rw [scan_mark (by simpa using hmark), scanSymbol, hnone, hfind]
    rintro rfl hd
    have hslash : k = .slash := by
      have : Symbol.single? (String.ofList ['/']) = some .slash := by decide
      rw [this] at hfind
      cases hfind
      rfl
    exact (hk '/' hd).2 hslash rfl
  · rw [htext] at hcs hmark
    obtain ⟨rfl, rfl⟩ : c' = c ∧ d :: rest = cs := by simpa using hcs
    rw [text_eq_ofList htext] at hfind
    rw [scan_mark (by simpa using hmark) (fun h => absurd h hslash), scanSymbol, List.head?_cons,
      Option.bind_some, hfind, List.tail_cons]

theorem stuck_of_scanSymbol {fault : ScanFault} (hmark : isMark c = true)
    (h : scanSymbol c cs = .error fault) : Stuck fault (c :: cs) := by
  unfold scanSymbol at h
  split at h
  · cases h
  · split at h
    · cases h
    · next hnone =>
      cases h
      refine .stray hmark fun k hk => ?_
      obtain ⟨j, hj, hhead, hlen⟩ := exists_single_head k
      obtain ⟨d, hd⟩ := List.length_eq_one_iff.1 hlen
      rw [hk, hd] at hhead
      cases hhead
      exact List.find?_eq_none.1 hnone j hj (by simpa using text_eq_ofList hd)

end Symbols

variable {c : Char} {cs rest : List Char} {s : Segment}

theorem proper_of_scan (h : scan c cs = .ok (s, rest)) : s.Proper ∧ s.EndsBefore rest := by
  cases opening c cs with
  | blank hl =>
    rw [scan_blank hl] at h
    cases h
    exact ⟨hl, trivial⟩
  | comment cs =>
    rw [scan_comment] at h
    cases h
    refine ⟨fun hn => ?_, fun c hc => ?_⟩
    · exact absurd (List.mem_takeWhile_imp hn) (by simp)
    · simpa using not_of_mem_head?_dropWhile hc
  | quote cs =>
    cases hq : closeQuote? [] cs with
    | none =>
      rw [scan_quote_open hq] at h
      cases h
    | some found =>
      rw [scan_quote_closed hq] at h
      cases h
      exact ⟨(closeQuote?_eq_some_iff.1 hq).1, trivial⟩
  | word hw =>
    rw [scan_word hw] at h
    cases h
    refine ⟨⟨c, _, rfl, hw, fun d hd => List.mem_takeWhile_imp hd⟩, fun c hc => ?_⟩
    exact not_of_mem_head?_dropWhile hc
  | digit hd =>
    rw [scan_digit hd, ofRun_eq_ok_iff] at h
    obtain ⟨hdots, rfl, rfl⟩ := h
    refine ⟨⟨⟨c, _, rfl, hd, fun d hd => List.mem_takeWhile_imp hd⟩, hdots⟩, fun c hc => ?_⟩
    exact not_of_mem_head?_dropWhile hc
  | mark hm hslash =>
    rw [scan_mark hm hslash] at h
    exact endsBefore_of_scanSymbol hslash h

theorem scan_of_proper (hp : s.Proper) (he : s.EndsBefore rest) (hcs : s.chars ++ rest = c :: cs) :
    scan c cs = .ok (s, rest) := by
  cases s with
  | blank c' =>
    obtain ⟨rfl, rfl⟩ : c' = c ∧ rest = cs := by simpa [chars] using hcs
    exact scan_blank hp
  | comment body =>
    obtain ⟨rfl, rfl⟩ : '/' = c ∧ '/' :: (body ++ rest) = cs := by simpa [chars] using hcs
    have hbody : ∀ d ∈ body, (d != '\n') = true := by
      intro d hd
      refine bne_iff_ne.2 ?_
      rintro rfl
      exact hp hd
    have hrest : ∀ d ∈ rest.head?, (d != '\n') = false := by
      intro d hd
      simp [he d hd]
    obtain ⟨ht, hd⟩ := takeWhile_run hbody hrest
    rw [scan_comment, ht, hd]
  | word text =>
    obtain ⟨c', ds, rfl, hstart, hpart⟩ := hp
    obtain ⟨rfl, rfl⟩ : c' = c ∧ ds ++ rest = cs := by simpa [chars] using hcs
    obtain ⟨ht, hd⟩ := takeWhile_run hpart he
    rw [scan_word hstart, ht, hd]
  | number text =>
    obtain ⟨⟨c', ds, rfl, hstart, hpart⟩, hdots⟩ := hp
    obtain ⟨rfl, rfl⟩ : c' = c ∧ ds ++ rest = cs := by simpa [chars] using hcs
    obtain ⟨ht, hd⟩ := takeWhile_run hpart he
    rw [scan_digit hstart, ht, hd, ofRun_eq_ok_iff]
    exact ⟨hdots, rfl, rfl⟩
  | quoted body =>
    obtain ⟨rfl, rfl⟩ : '\x22' = c ∧ body ++ '\x22' :: rest = cs := by simpa [chars] using hcs
    exact scan_quote_closed (closeQuote?_eq_some_iff.2 ⟨hp, rfl⟩)
  | symbol k => exact scan_symbol he hcs

/-- The scanner finds exactly the segment that the text starts with. -/
theorem scan_eq_ok_iff :
    scan c cs = .ok (s, rest) ↔ s.Proper ∧ s.EndsBefore rest ∧ s.chars ++ rest = c :: cs := by
  constructor
  · intro h
    obtain ⟨hp, he⟩ := proper_of_scan h
    exact ⟨hp, he, scan_lossless h⟩
  · rintro ⟨hp, he, hcs⟩
    exact scan_of_proper hp he hcs

/-- A second dot among digits makes the text stuck, and nothing before it does. -/
theorem stuck_of_ofRun {run : List Char} {fault : ScanFault}
    (hrun : Run Text.isDigit isNumberPart run) (h : ofRun run rest = .error fault) :
    Stuck fault (run ++ rest) := by
  rcases dots_cases run with ⟨-, hok⟩ | ⟨whole, fraction, more, hw, hf, rfl, herr⟩
  · rw [hok] at h
    cases h
  rw [herr] at h
  cases h
  obtain ⟨c, cs, hcs, hc, hparts⟩ := hrun
  have hdigit : ∀ d ∈ whole ++ '.' :: fraction ++ '.' :: more, d ≠ '.' → Text.isDigit d = true := by
    intro d hd hdot
    rw [hcs] at hd
    rcases List.mem_cons.1 hd with rfl | hd
    · exact hc
    · simpa [isNumberPart, hdot] using hparts d hd
  have hne : ∀ {l : List Char}, '.' ∉ l → ∀ d ∈ l, d ≠ '.' := by
    rintro l hl d hd rfl
    exact hl hd
  cases whole with
  | nil =>
    cases hcs
    exact absurd hc (by decide)
  | cons c' ds =>
    have hwhole : ∀ d ∈ c' :: ds, Text.isDigit d = true := fun d hd =>
      hdigit d (List.mem_append_left _ (List.mem_append_left _ hd)) (hne hw d hd)
    rw [List.append_assoc, List.cons_append]
    refine .secondDot ⟨c', ds, rfl, hwhole c' (by simp), fun d hd => hwhole d (by simp [hd])⟩ ?_
    exact fun d hd => hdigit d (by simp [hd]) (hne hf d hd)

theorem stuck_of_scan {fault : ScanFault} (h : scan c cs = .error fault) :
    Stuck fault (c :: cs) := by
  cases opening c cs with
  | blank hl =>
    rw [scan_blank hl] at h
    cases h
  | comment cs =>
    rw [scan_comment] at h
    cases h
  | quote cs =>
    cases hq : closeQuote? [] cs with
    | none =>
      rw [scan_quote_open hq] at h
      cases h
      refine .unclosed fun body rest he hcs => ?_
      rw [closeQuote?_eq_some_iff.2 ⟨he, hcs⟩] at hq
      cases hq
    | some found =>
      rw [scan_quote_closed hq] at h
      cases h
  | word hw =>
    rw [scan_word hw] at h
    cases h
  | digit hd =>
    rw [scan_digit hd] at h
    have hstuck := stuck_of_ofRun ⟨c, _, rfl, hd, fun d hd => List.mem_takeWhile_imp hd⟩ h
    rwa [List.cons_append, List.takeWhile_append_dropWhile] at hstuck
  | mark hm hslash =>
    rw [scan_mark hm hslash] at h
    exact stuck_of_scanSymbol hm h

end FrontEnd.Segment
