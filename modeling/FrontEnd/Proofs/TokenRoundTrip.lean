import FrontEnd.Proofs.TokenCover
import Mathlib.Data.List.Forall2

/-! Written segments are read back. Segments that do not run into each other are found again in the
text that they make up, and lexemes with a space between any two of them never run into each other.
-/

namespace FrontEnd.Segment

/-- The scanner cuts a text where its segments end, whatever stands behind the last one. -/
theorem split_of_apart {tail : List Char} {segments : List Segment} (h : Apart tail segments) :
    split (segments.flatMap chars ++ tail) = (segments ++ (split tail).1, (split tail).2) := by
  induction segments with
  | nil => simp
  | cons s rest ih =>
    obtain ⟨hp, he, hrest⟩ := h
    obtain ⟨c, cs, hc⟩ := List.exists_cons_of_ne_nil (chars_ne_nil_of_proper hp)
    have hscan : scan c (cs ++ (rest.flatMap chars ++ tail)) =
        .ok (s, rest.flatMap chars ++ tail) :=
      scan_eq_ok_iff.2 ⟨hp, he, by rw [hc, List.cons_append]⟩
    rw [List.flatMap_cons, List.append_assoc, hc, List.cons_append, split_cons_of_scan hscan,
      ih hrest, List.cons_append]

/-- The segments of a source, and its tokens by them. -/
theorem scanSource_cases (src : String) :
    ∃ segments rest, src.toList = segments.flatMap chars ++ rest ∧ Apart rest segments ∧
      (rest = [] ∧ scanSource src = (tokens 0 segments, none) ∨
        ∃ fault, Stuck fault rest ∧
          scanSource src = (tokens 0 segments, some (.ofFault (segments.flatMap chars) fault))) := by
  obtain ⟨rest, hsrc, hapart, hend⟩ := split_cover src.toList
  refine ⟨_, rest, hsrc, hapart, ?_⟩
  rw [scanSource_eq]
  obtain ⟨hnone, hrest⟩ | ⟨fault, hsome, hstuck⟩ := hend
  · exact .inl ⟨hrest, by rw [hnone]; rfl⟩
  · exact .inr ⟨fault, hstuck, by rw [hsome]; rfl⟩

/-- A source that starts with these segments is scanned behind them like a text of its own. -/
theorem scanSource_of_apart {src : String} {tail : List Char} {segments : List Segment}
    (hsrc : src.toList = segments.flatMap chars ++ tail) (h : Apart tail segments) :
    scanSource src = (tokens 0 (segments ++ (split tail).1),
      (split tail).2.map (.ofFault ((segments ++ (split tail).1).flatMap chars))) := by
  rw [scanSource_eq, hsrc, split_of_apart h]

theorem tokenize_of_apart {segments : List Segment} (h : Apart [] segments) :
    tokenize (String.ofList (segments.flatMap chars)) = .ok (tokens 0 segments) := by
  rw [tokenize, scanSource_of_apart (by simp) h, split_nil, List.append_nil]
  rfl

theorem EndsBefore.congr {s : Segment} {cs ds : List Char} (h : s.EndsBefore cs)
    (hhead : cs.head? = ds.head?) : s.EndsBefore ds := by
  cases s with
  | blank c => trivial
  | quoted body => trivial
  | _ =>
    unfold EndsBefore at h ⊢
    rwa [← hhead]

/-- What stands behind the segments is seen by the last of them only. -/
theorem Apart.before {tail tail' : List Char} {segments : List Segment} (h : Apart tail segments)
    (htail : ∀ s : Segment, s.EndsBefore tail → s.EndsBefore tail') : Apart tail' segments := by
  induction segments with
  | nil => trivial
  | cons s rest ih =>
    obtain ⟨hp, he, hrest⟩ := h
    refine ⟨hp, ?_, ih hrest⟩
    cases rest with
    | nil => exact htail s he
    | cons s' rest =>
      obtain ⟨c, cs, hc⟩ := List.exists_cons_of_ne_nil (chars_ne_nil_of_proper hrest.1)
      exact he.congr (by simp [hc])

/-- Segments in front of others end before what those are written as. -/
theorem apart_append {tail : List Char} (xs ys : List Segment) :
    Apart tail (xs ++ ys) ↔ Apart (ys.flatMap chars ++ tail) xs ∧ Apart tail ys := by
  induction xs with
  | nil => exact (and_iff_right trivial).symm
  | cons s xs ih =>
    rw [List.cons_append, Apart, Apart, ih, List.flatMap_append, List.append_assoc, and_assoc,
      and_assoc]

theorem tokens_append (start : Nat) (xs ys : List Segment) :
    tokens start (xs ++ ys) =
      tokens start xs ++ tokens (start + Source.width (xs.flatMap chars)) ys := by
  induction xs generalizing start with
  | nil => rfl
  | cons s rest ih =>
    rw [List.cons_append, tokens, tokens, ih, List.flatMap_cons, Source.width_append, Nat.add_assoc]
    cases s.token? start <;> rfl

/-- No lexeme goes on with a space. -/
theorem endsBefore_space {s : Segment} (h : s.IsLexeme) (cs : List Char) :
    s.EndsBefore (' ' :: cs) := by
  cases s with
  | blank c => cases h
  | comment body => cases h
  | word text =>
    rintro c ⟨⟩
    decide
  | number text =>
    rintro c ⟨⟩
    decide
  | quoted body => trivial
  | symbol s =>
    rintro c ⟨⟩
    refine ⟨fun k hk hks => ?_, fun _ => by decide⟩
    have hlast : ∀ k ∈ Symbol.compounds, k.text.toList.getLast? ≠ some ' ' := by decide
    exact hlast k hk (by rw [hks, List.getLast?_concat])

theorem apart_intersperse {lexemes : List Segment} (h : ∀ s ∈ lexemes, s.IsLexeme ∧ s.Proper) :
    Apart [] (lexemes.intersperse (.blank ' ')) := by
  induction lexemes with
  | nil => trivial
  | cons s rest ih =>
    obtain ⟨⟨hl, hp⟩, hrest⟩ := List.forall_mem_cons.1 h
    cases rest with
    | nil => exact ⟨hp, endsBefore_nil s, trivial⟩
    | cons s' rest =>
      rw [List.intersperse_cons_cons]
      have hspace : isLayout ' ' = true := by decide
      exact ⟨hp, endsBefore_space hl _, hspace, trivial, ih hrest⟩

theorem flatMap_chars_intersperse (lexemes : List Segment) :
    (lexemes.intersperse (.blank ' ')).flatMap chars = [' '].intercalate (lexemes.map chars) := by
  induction lexemes with
  | nil => rfl
  | cons s rest ih =>
    cases rest with
    | nil => simp
    | cons s' rest =>
      rw [List.intersperse_cons_cons, List.flatMap_cons, List.flatMap_cons, ih]
      simp [List.intercalate_cons_cons, chars]

theorem forall₂_of_reads_intersperse {lexemes : List Segment} {start : Nat} {ts : List Token}
    (h : ∀ s ∈ lexemes, s.IsLexeme) (hr : Reads start (lexemes.intersperse (.blank ' ')) ts) :
    List.Forall₂ (fun s t => ∃ offset, Stands offset s t) lexemes ts := by
  induction lexemes generalizing start ts with
  | nil =>
    cases hr
    exact .nil
  | cons s rest ih =>
    obtain ⟨hl, hrest⟩ := List.forall_mem_cons.1 h
    cases rest with
    | nil =>
      cases hr with
      | skip hs _ => exact absurd hl hs
      | take hst htail =>
        cases htail
        exact .cons ⟨start, hst⟩ .nil
    | cons s' rest =>
      rw [List.intersperse_cons_cons] at hr
      cases hr with
      | skip hs _ => exact absurd hl hs
      | take hst htail =>
        refine .cons ⟨start, hst⟩ ?_
        cases htail with
        | skip _ hr => exact ih hrest hr
        | take hblank _ => cases hblank

/-- A text made up of segments that do not run into each other is read back as the tokens that they
are. So is one of lexemes with a single space between any two: there is one token for each. -/
theorem tokenize_segments :
    (∀ segments : List Segment, Apart [] segments →
      ∃ ts, tokenize (String.ofList (segments.flatMap chars)) = .ok ts ∧ Reads 0 segments ts) ∧
    (∀ lexemes : List Segment, (∀ s ∈ lexemes, s.IsLexeme ∧ s.Proper) →
      ∃ ts, tokenize (String.ofList ([' '].intercalate (lexemes.map chars))) = .ok ts ∧
        Reads 0 (lexemes.intersperse (.blank ' ')) ts ∧
        List.Forall₂ (fun s t => ∃ offset, Stands offset s t) lexemes ts) := by
  refine ⟨fun segments h => ⟨_, tokenize_of_apart h, reads_tokens 0 segments⟩, fun lexemes h => ?_⟩
  have hreads := reads_tokens 0 (lexemes.intersperse (.blank ' '))
  refine ⟨_, ?_, hreads, forall₂_of_reads_intersperse (fun s hs => (h s hs).1) hreads⟩
  rw [← flatMap_chars_intersperse, tokenize_of_apart (apart_intersperse h)]

/-- The text `x1<=//c`, a line feed and `"\"é"4.5`. -/
def crowded : List Segment :=
  [.word ['x', '1'], .symbol .lessEqual, .comment ['c'], .blank '\n', .quoted ['\\', '\x22', 'é'],
    .number ['4', '.', '5']]

/-- The text `< <= <`, which would be read otherwise without its spaces. -/
def spaced : List Segment :=
  [.symbol .less, .symbol .lessEqual, .symbol .less]

theorem tokenize_crowded_spaced :
    (Apart [] crowded ∧ ∃ ts, tokenize (String.ofList (crowded.flatMap chars)) = .ok ts ∧
      Reads 0 crowded ts) ∧
    ∃ ts, tokenize "< <= <" = .ok ts ∧
      List.Forall₂ (fun s t => ∃ offset, Stands offset s t) spaced ts := by
  have hapart : Apart [] crowded := by decide
  have hproper : ∀ s ∈ spaced, s.IsLexeme ∧ s.Proper := by decide
  obtain ⟨ts, hts, -, hstands⟩ := tokenize_segments.2 spaced hproper
  exact ⟨⟨hapart, tokenize_segments.1 crowded hapart⟩, ts, hts, hstands⟩

end FrontEnd.Segment
