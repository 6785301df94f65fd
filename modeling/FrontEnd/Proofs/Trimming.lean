import FrontEnd.Proofs.Layout
import FrontEnd.Proofs.Lines
import FrontEnd.Shell
import Mathlib.Data.List.DropRight

/-! The shell shows the tokens of a line as it stands, and the tree of the line without the blanks
around it. A line with tokens starts with no other blanks than layout, and the blanks at its end are
layout or the end of a comment; so both have the same tokens, and the tree is that of the tokens
shown. -/

namespace FrontEnd

namespace Segment

open FrontEnd.Text

/-! ### Blanks among the other characters -/

/-- No blank is a letter or a numeral, and none is written with a mark of its own. -/
theorem blankRanges_apart : ∀ r ∈ blankRanges, (r.2 < 33 ∨ 127 ≤ r.1) ∧
    ∀ n ∈ List.range' r.1 (r.2 + 1 - r.1),
      inRanges n alphabeticRanges = false ∧ inRanges n numericRanges = false := by
  decide +kernel

section Characters

variable {c : Char}

theorem toNat_of_isBlank (h : isBlank c = true) : c.toNat < 33 ∨ 127 ≤ c.toNat := by
  obtain ⟨r, hr, hlo, hhi⟩ := exists_of_inRanges h
  obtain ⟨hlow | hhigh, -⟩ := blankRanges_apart r hr
  · exact .inl (hhi.trans_lt hlow)
  · exact .inr (hhigh.trans hlo)

theorem not_letter_of_isBlank (h : isBlank c = true) :
    isAlphabetic c = false ∧ isNumeric c = false := by
  obtain ⟨r, hr, hlo, hhi⟩ := exists_of_inRanges h
  refine (blankRanges_apart r hr).2 c.toNat (List.mem_range'_1.2 ⟨hlo, ?_⟩)
  omega

/-- No visible character of ASCII is blank. -/
theorem isBlank_eq_false (h : 33 ≤ c.toNat) (h' : c.toNat < 127) : isBlank c = false := by
  by_contra hblank
  have hc := toNat_of_isBlank (Bool.not_eq_false _ ▸ hblank)
  omega

theorem isBlank_of_isLayout (h : isLayout c = true) : isBlank c = true := by
  simp only [isLayout, Bool.or_eq_true, decide_eq_true_eq] at h
  obtain ((rfl | rfl) | rfl) | rfl := h <;> decide

theorem isBlank_of_isWordPart (h : isWordPart c = true) : isBlank c = false := by
  by_contra hblank
  obtain ⟨hletter, hnumeral⟩ := not_letter_of_isBlank (Bool.not_eq_false _ ▸ hblank)
  have hc : c = '_' := by simpa [isWordPart, hletter, hnumeral] using h
  rw [hc] at hblank
  exact hblank (by decide)

theorem isWordPart_of_isWordStart (h : isWordStart c = true) : isWordPart c = true := by
  simp only [isWordStart, Bool.or_eq_true] at h
  simp only [isWordPart, Bool.or_eq_true]
  exact .inl h

theorem isBlank_of_isNumberPart (h : isNumberPart c = true) : isBlank c = false := by
  simp only [isNumberPart, Bool.or_eq_true, decide_eq_true_eq] at h
  rcases h with h | rfl
  · obtain ⟨hlo, hhi⟩ := isDigit_iff.1 h
    exact isBlank_eq_false (by omega) (by omega)
  · decide

theorem isBlank_of_mem_symbol (k : Symbol) : ∀ c ∈ k.text.toList, isBlank c = false := by
  have hall : (k.text.toList.all fun c => !isBlank c) = true := by cases k <;> rfl
  simpa using hall

end Characters

/-! ### The blanks at the end -/

section Ends

variable {c : Char}

theorem trimEnd_concat_blank (h : isBlank c = true) (cs : List Char) :
    trimEnd (cs ++ [c]) = trimEnd cs :=
  List.rdropWhile_concat_pos isBlank cs c h

theorem trimEnd_concat (h : isBlank c = false) (cs : List Char) : trimEnd (cs ++ [c]) = cs ++ [c] :=
  List.rdropWhile_concat_neg isBlank cs c (by simp [h])

/-- What is in front of a character that is not blank stays. -/
theorem trimEnd_append_cons (h : isBlank c = false) (front back : List Char) :
    trimEnd (front ++ c :: back) = front ++ c :: trimEnd back := by
  induction back using List.reverseRecOn with
  | nil => exact trimEnd_concat h front
  | append_singleton back d ih =>
    rw [← List.cons_append, ← List.append_assoc]
    by_cases hd : isBlank d = true
    · rw [trimEnd_concat_blank hd, ih, trimEnd_concat_blank hd]
    · have hd : isBlank d = false := Bool.eq_false_iff.2 hd
      rw [trimEnd_concat hd, trimEnd_concat hd, List.append_assoc, List.cons_append]

end Ends

/-- A lexeme ends with a character that is not blank. -/
theorem exists_last_of_isLexeme {s : Segment} (hs : s.IsLexeme) (hp : s.Proper) :
    ∃ front c, s.chars = front ++ [c] ∧ isBlank c = false := by
  have hne := chars_ne_nil_of_proper hp
  refine ⟨s.chars.dropLast, s.chars.getLast hne, (List.dropLast_append_getLast hne).symm, ?_⟩
  have hmem : s.chars.getLast hne ∈ s.chars := List.getLast_mem hne
  cases s with
  | blank c => cases hs
  | comment body => cases hs
  | word text =>
    obtain ⟨c, cs, rfl, hc, hcs⟩ := hp
    refine isBlank_of_isWordPart ?_
    rcases List.mem_cons.1 hmem with h | h
    · rw [h]
      exact isWordPart_of_isWordStart hc
    · exact hcs _ h
  | number text =>
    obtain ⟨⟨c, cs, rfl, hc, hcs⟩, -⟩ := hp
    refine isBlank_of_isNumberPart ?_
    rcases List.mem_cons.1 hmem with h | h
    · rw [h]
      simp [isNumberPart, hc]
    · exact hcs _ h
  | quoted body =>
    have hlast : (quoted body).chars.getLast hne = '\x22' := by simp [chars]
    rw [hlast]
    decide
  | symbol k => exact isBlank_of_mem_symbol k _ hmem

/-- Without the blanks at its end a text has the same segments, but for the layout there and for the
end of a last comment. -/
theorem exists_trimEnd {segments : List Segment} (h : Apart [] segments) :
    ∃ kept, Apart [] kept ∧ kept.flatMap chars = trimEnd (segments.flatMap chars) ∧
      ∀ start, tokens start kept = tokens start segments := by
  induction segments using List.reverseRecOn with
  | nil => exact ⟨[], trivial, rfl, fun _ => rfl⟩
  | append_singleton segments s ih =>
    obtain ⟨hapart, hp, -⟩ := (apart_append segments [s]).1 h
    have hchars : (segments ++ [s]).flatMap chars = segments.flatMap chars ++ s.chars := by simp
    by_cases hs : s.IsLexeme
    · obtain ⟨front, c, hc, hblank⟩ := exists_last_of_isLexeme hs hp
      refine ⟨segments ++ [s], h, ?_, fun _ => rfl⟩
      rw [hchars, hc, ← List.append_assoc, trimEnd_concat hblank]
    · cases s with
      | blank c =>
        obtain ⟨kept, hkept, htext, htokens⟩ := ih (hapart.before fun s _ => endsBefore_nil s)
        refine ⟨kept, hkept, ?_, fun start => ?_⟩
        · rw [hchars, chars, trimEnd_concat_blank (isBlank_of_isLayout hp), htext]
        · rw [htokens, tokens_append]
          exact (List.append_nil _).symm
      | comment body =>
        have hbody : ∀ c ∈ trimEnd body, c ∈ body := fun c hc =>
          (List.rdropWhile_prefix isBlank body).subset hc
        refine ⟨segments ++ [comment (trimEnd body)], ?_, ?_, fun start => ?_⟩
        · refine (apart_append segments _).2 ⟨?_, fun hn => hp (hbody _ hn), endsBefore_nil _, trivial⟩
          exact hapart.before fun s hs => hs.congr rfl
        · have hslash : isBlank '/' = false := by decide
          have hcut := trimEnd_append_cons hslash (segments.flatMap chars ++ ['/']) body
          rw [hchars, chars]
          simpa [chars] using hcut.symm
        · rw [tokens_append, tokens_append]
          rfl
      | _ => exact absurd trivial hs

/-! ### The blanks at the start -/

/-- A segment that is no layout starts with a character that is not blank. -/
theorem exists_head_of_proper {s : Segment} (hp : s.Proper) (hs : ∀ c, s ≠ blank c) :
    ∃ c more, s.chars = c :: more ∧ isBlank c = false := by
  cases s with
  | blank c => exact absurd rfl (hs c)
  | comment body => exact ⟨'/', _, rfl, by decide⟩
  | word text =>
    obtain ⟨c, cs, rfl, hc, -⟩ := hp
    exact ⟨c, cs, rfl, isBlank_of_isWordPart (isWordPart_of_isWordStart hc)⟩
  | number text =>
    obtain ⟨⟨c, cs, rfl, hc, -⟩, -⟩ := hp
    exact ⟨c, cs, rfl, isBlank_of_isNumberPart (by simp [isNumberPart, hc])⟩
  | quoted body => exact ⟨'\x22', _, rfl, by decide⟩
  | symbol k =>
    obtain ⟨c, cs, hc⟩ := List.exists_cons_of_ne_nil (chars_ne_nil_of_proper hp)
    exact ⟨c, cs, hc, isBlank_of_mem_symbol k c (by rw [← chars, hc]; exact List.mem_cons_self)⟩

/-- The blanks at the start of a text are the layout that it starts with. -/
theorem exists_layout {tail : List Char} {segments : List Segment} (h : Apart tail segments) :
    ∃ layout rest, segments = layout ++ rest ∧ (∀ s ∈ layout, ¬ s.IsLexeme) ∧
      (∀ c ∈ layout.flatMap chars, isBlank c = true) ∧
      ∀ c ∈ (rest.flatMap chars).head?, isBlank c = false := by
  induction segments with
  | nil => exact ⟨[], [], rfl, by simp, by simp, by simp⟩
  | cons s rest ih =>
    obtain ⟨hp, -, hrest⟩ := h
    by_cases hs : ∃ c, s = blank c
    · obtain ⟨c, rfl⟩ := hs
      obtain ⟨layout, rest, rfl, hlexeme, hblank, hhead⟩ := ih hrest
      refine ⟨blank c :: layout, rest, rfl, List.forall_mem_cons.2 ⟨id, hlexeme⟩, ?_, hhead⟩
      rw [List.flatMap_cons]
      exact List.forall_mem_append.2
        ⟨List.forall_mem_singleton.2 (isBlank_of_isLayout hp), hblank⟩
    · obtain ⟨c, more, hc, hblank⟩ := exists_head_of_proper hp fun c h => hs ⟨c, h⟩
      refine ⟨[], s :: rest, rfl, by simp, by simp, ?_⟩
      simpa [hc] using hblank

theorem tokens_eq_nil {layout : List Segment} (h : ∀ s ∈ layout, ¬ s.IsLexeme) (start : Nat) :
    tokens start layout = [] := by
  induction layout generalizing start with
  | nil => rfl
  | cons s layout ih =>
    obtain ⟨hs, hrest⟩ := List.forall_mem_cons.1 h
    rw [tokens, token?_eq_none_of_not_isLexeme hs]
    exact ih hrest _

end Segment

open FrontEnd.Segment FrontEnd.Source

/-- The text without the blanks around it has the same tokens, each of them as many bytes further to
the front as the blanks at the start take. -/
theorem tokenize_trim {line : String} {ts : List Token} (h : tokenize line = .ok ts) :
    ∃ kept, tokenize (String.ofList (Text.trim line.toList)) = .ok kept ∧
      ts = kept.map (Token.behind (width (line.toList.takeWhile Text.isBlank))) := by
  obtain ⟨segments, rest, hline, hapart, hend⟩ := scanSource_cases line
  have hscan := scanSource_of_tokenize h
  rcases hend with ⟨rfl, htokens⟩ | ⟨fault, -, hfault⟩
  swap
  · cases hfault.symm.trans hscan
  obtain rfl : tokens 0 segments = ts := congrArg Prod.fst (htokens.symm.trans hscan)
  obtain ⟨layout, rest, rfl, hlexeme, hblank, hhead⟩ := exists_layout hapart
  obtain ⟨kept, hkept, htext, hsame⟩ := exists_trimEnd ((apart_append layout rest).1 hapart).2
  have hchars : line.toList = layout.flatMap chars ++ rest.flatMap chars := by
    rw [hline, List.append_nil, List.flatMap_append]
  obtain ⟨hlead, htrim⟩ := takeWhile_run hblank hhead
  refine ⟨tokens 0 kept, ?_, ?_⟩
  · rw [Text.trim, hchars, htrim, ← htext, tokenize_of_apart hkept]
  · rw [hchars, hlead, hsame, tokens_append, tokens_eq_nil hlexeme, tokens_add]
    rfl

open FrontEnd.Parse FrontEnd.Parser

/-- How a message names a token does not depend on where the token begins. -/
theorem ParseError.message_behind (bytes : Nat) (cause : Cause) (t? : Option Token)
    (here : Location) :
    message ⟨cause, t?.map (Token.behind bytes), here⟩ = message ⟨cause, t?, here⟩ := by
  cases t? <;> rfl

namespace Shell

def reading (line : List Char) : Reading :=
  if "namespace".toList.isPrefixOf line then .script
  else if line.getLast? = some ';' ∨ line.getLast? = some '\x7d' then .statements
  else .expr

def treeOf : (r : Reading) → r.Tree → FrontEnd.Tree
  | .expr => Program.Expr.toTree
  | .statements => Program.Statement.listTree
  | .script => Program.Script.toTree

theorem readTree_eq (line : List Char) :
    readTree line = ((reading line).read (String.ofList line)).map (treeOf (reading line)) := by
  unfold readTree
  by_cases hscript : "namespace".toList.isPrefixOf line
  · have hr : reading line = .script := if_pos hscript
    rw [hr, if_pos hscript]
    rfl
  · by_cases hend : line.getLast? = some ';' ∨ line.getLast? = some '\x7d'
    · have hr : reading line = .statements := by rw [reading, if_neg hscript, if_pos hend]
      rw [hr, if_neg hscript, if_pos hend]
      rfl
    · have hr : reading line = .expr := by rw [reading, if_neg hscript, if_neg hend]
      rw [hr, if_neg hscript, if_neg hend]
      rfl

/-- The reply that shows tokens and a tree. It ends with the tokens if the tree has no layout. -/
def treeReply (tokens : List Token) (t : FrontEnd.Tree) : Reply :=
  match t.checkedLayout 0 with
  | .ok text => ⟨Token.renderAll tokens ++ "\n" ++ (text ++ "\n"), none⟩
  | .error _ => ⟨Token.renderAll tokens ++ "\n", some broken⟩

def errorReply (tokens : List Token) (e : ParseError) : Reply :=
  ⟨Token.renderAll tokens ++ "\n" ++ ("error: " ++ e.message ++ "\n"), none⟩

section Answer

variable {line : String} {tokens : List Token}

theorem answer_of_tree {t : FrontEnd.Tree} (h : tokenize line = .ok tokens)
    (ht : readTree (Text.trim line.toList) = .ok t) : answer line = treeReply tokens t := by
  rw [answer, h]
  simp only [treeText, ht, treeReply]
  cases t.checkedLayout 0 <;> rfl

theorem answer_of_error {e : ParseError} (h : tokenize line = .ok tokens)
    (he : readTree (Text.trim line.toList) = .error (.error (.parse e))) :
    answer line = errorReply tokens e := by
  rw [answer, h]
  simp only [treeText, he, errorReply, SourceError.message]

end Answer

/-- A line that has tokens has them without the blanks around it as well, only further to the front.
The reply shows them, and then the tree that they are, or what is wrong at which of them; its place
is counted in the line without the blanks. -/
theorem answer_of_tokenize {line : String} {tokens : List Token} (h : tokenize line = .ok tokens) :
    ∃ kept, tokenize (String.ofList (Text.trim line.toList)) = .ok kept ∧
      tokens = kept.map (Token.behind (width (line.toList.takeWhile Text.isBlank))) ∧
      ((∃ tree rest,
          (reading (Text.trim line.toList)).parser maxLevels tokens = .ok tree rest ∧
          answer line = treeReply tokens (treeOf _ tree)) ∨
        ∃ cause i rest here,
          (reading (Text.trim line.toList)).parser maxLevels tokens =
            .error ⟨cause, tokens.drop i⟩ rest ∧
          locate? (String.ofList (Text.trim line.toList))
            (offsetAt (String.ofList (Text.trim line.toList)) kept i) = some here ∧
          answer line = errorReply tokens ⟨cause, tokens[i]?, here⟩) := by
  obtain ⟨kept, hkept, rfl⟩ := tokenize_trim h
  refine ⟨kept, hkept, rfl, ?_⟩
  generalize width (line.toList.takeWhile Text.isBlank) = bytes at h ⊢
  have hfaces : (kept.map (Token.behind bytes)).map face = kept.map face := by
    rw [List.map_map]
    rfl
  have hm := matching_reading hfaces (reading (Text.trim line.toList)) maxLevels
  have hread := readTree_eq (Text.trim line.toList)
  rw [Reading.read_eq] at hread
  generalize hp : (reading (Text.trim line.toList)).parser maxLevels kept = result,
    hq : (reading (Text.trim line.toList)).parser maxLevels (kept.map (Token.behind bytes)) =
      result' at hm
  cases hm with
  | ok tree _ =>
    rw [source_of_ok hkept hp] at hread
    exact .inl ⟨tree, _, rfl, answer_of_tree h hread⟩
  | error cause hsite _ =>
    obtain ⟨i, rfl, rfl⟩ := hsite
    obtain ⟨here, hl, hstop⟩ := source_of_error hkept hp
    rw [hstop] at hread
    refine .inr ⟨cause, i, _, here, rfl, hl, (answer_of_error h hread).trans ?_⟩
    rw [errorReply, errorReply, List.getElem?_map, ParseError.message_behind]

/-- An assignment, which is no expression. In front of it is layout, and the comment behind it ends
with a blank that is none. -/
def paddedLine : String := "\n\t x = y // é\u2003\n"

def paddedTokens : List Token :=
  [⟨.name, "x", 3⟩, ⟨.symbol .assign, "=", 5⟩, ⟨.name, "y", 7⟩]

theorem answer_of_tokenize_padded :
    tokenize paddedLine = .ok paddedTokens ∧
    String.ofList (Text.trim paddedLine.toList) = "x = y // é" ∧
    ∃ kept, tokenize "x = y // é" = .ok kept ∧ paddedTokens = kept.map (Token.behind 3) ∧
      ∃ cause i here, locate? "x = y // é" (offsetAt "x = y // é" kept i) = some here ∧
        answer paddedLine = errorReply paddedTokens ⟨cause, paddedTokens[i]?, here⟩ := by
  have ht : tokenize paddedLine = .ok paddedTokens := by decide +kernel
  have htrim : String.ofList (Text.trim paddedLine.toList) = "x = y // é" := by decide +kernel
  have hlead : width (paddedLine.toList.takeWhile Text.isBlank) = 3 := by decide +kernel
  have hreading : reading (Text.trim paddedLine.toList) = .expr := by decide +kernel
  obtain ⟨kept, hkept, hsame, hanswer⟩ := answer_of_tokenize ht
  rw [htrim] at hkept hanswer
  rw [hlead] at hsame
  rw [hreading] at hanswer
  refine ⟨ht, htrim, kept, hkept, hsame, ?_⟩
  rcases hanswer with ⟨tree, rest, hread, -⟩ | ⟨cause, i, rest, here, -, hl, hreply⟩
  · have hfault : Reading.parser .expr maxLevels paddedTokens =
        .error ⟨.unexpected none, paddedTokens.drop 1⟩ (paddedTokens.drop 1) := rfl
    cases hfault.symm.trans hread
  · exact ⟨cause, i, here, hl, hreply⟩

end Shell

end FrontEnd
