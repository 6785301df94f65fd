import FrontEnd.Proofs.Lines
import FrontEnd.Source.Cursor
import Mathlib.Data.List.DropRight

/-! Places identify offsets. Every character that is passed moves the place on, to the next column or
to a later line; so of two offsets between characters the later one has the later place. The place
counts the line feeds in front of the offset and the characters behind the last of them. -/

namespace FrontEnd.Source

namespace Location

/-- The order in which a reader comes to places: by lines, and in one line by columns. -/
def Before (here there : Location) : Prop :=
  here.line < there.line ∨ here.line = there.line ∧ here.column < there.column

theorem Before.trans {a b c : Location} (hab : a.Before b) (hbc : b.Before c) : a.Before c := by
  unfold Before at *
  omega

theorem Before.ne {a b : Location} (h : a.Before b) : a ≠ b := by
  rintro rfl
  unfold Before at h
  omega

theorem before_step (here : Location) (c : Char) : here.Before (here.step c) := by
  unfold Before step
  split
  · exact .inl (Nat.lt_succ_self _)
  · exact .inr ⟨rfl, Nat.lt_succ_self _⟩

theorem before_after (here : Location) {cs : List Char} (h : cs ≠ []) :
    here.Before (here.after cs) := by
  induction cs generalizing here with
  | nil => exact absurd rfl h
  | cons c cs ih =>
    rw [after_cons]
    rcases eq_or_ne cs [] with rfl | hcs
    · exact before_step here c
    · exact (before_step here c).trans (ih (here.step c) hcs)

/-- The place that the characters in front of it make: a line for each line feed, and a column for
each character behind the last one. -/
structure Counts (front : List Char) (here : Location) : Prop where
  line : here.line = front.count '\n' + 1
  column : here.column = (front.rtakeWhile (· != '\n')).length + 1

theorem column_start_after (front : List Char) :
    (start.after front).column = (front.rtakeWhile (· != '\n')).length + 1 := by
  -- The last character decides, so the induction takes characters off the end.
  induction front using List.reverseRecOn with
  | nil => rfl
  | append_singleton front c ih =>
    rw [after_append, after_cons, List.rtakeWhile_concat]
    unfold step
    by_cases hc : c = '\n'
    · rw [if_pos hc, if_neg (by simp [hc])]
      rfl
    · rw [if_neg hc, if_pos (by simp [hc]), List.length_append, List.length_singleton, ← ih]
      rfl

theorem counts_start_after (front : List Char) : Counts front (start.after front) where
  line := by rw [line_after, Nat.add_comm]; rfl
  column := column_start_after front

end Location

/-- From the end of the text on there is only the place of the end. -/
theorem locateFrom?_of_width_le (here : Location) {n : Nat} {cs : List Char} (h : width cs ≤ n) :
    locateFrom? here n cs = some (here.after cs) := by
  induction cs generalizing here n with
  | nil =>
    rcases n with - | n
    · rfl
    · rfl
  | cons c cs ih =>
    have hc : 0 < c.utf8Size := c.utf8Size_pos
    rw [width] at h
    obtain ⟨m, rfl⟩ : ∃ m, n = m + 1 := ⟨n - 1, by omega⟩
    rw [locateFrom?, if_pos (by omega), ih (here.step c) (by omega), Location.after_cons]

section Offsets

variable {src : String} {p q : Nat}

/-- Of two texts in front of offsets the one with fewer bytes is the front of the other. -/
theorem exists_between {front back front' back' : List Char} (h : front ++ back = front' ++ back')
    (hlt : width front < width front') : ∃ mid, mid ≠ [] ∧ front' = front ++ mid := by
  have hfront : front <+: front' ++ back' := ⟨back, h⟩
  rcases List.prefix_or_prefix_of_prefix hfront (List.prefix_append front' back') with
    ⟨mid, rfl⟩ | ⟨mid, rfl⟩
  · refine ⟨mid, ?_, rfl⟩
    rintro rfl
    simp at hlt
  · rw [width_append] at hlt
    omega

theorem locate?_of_front {front back : List Char} (h : src.toList = front ++ back) :
    locate? src (width front) = some (.after .start front) := by
  rw [locate?, h, locateFrom?_width]

theorem exists_locate?_lt (hp : IsBoundary src p) (hq : IsBoundary src q) (h : p < q) :
    ∃ here there, locate? src p = some here ∧ locate? src q = some there ∧ here.Before there := by
  obtain ⟨front, back, hsrc, rfl⟩ := hp
  obtain ⟨front', back', hsrc', rfl⟩ := hq
  obtain ⟨mid, hmid, rfl⟩ := exists_between (hsrc.symm.trans hsrc') h
  refine ⟨_, _, locate?_of_front hsrc, locate?_of_front hsrc', ?_⟩
  rw [Location.after_append]
  exact Location.before_after _ hmid

theorem locate?_of_end_le (h : src.utf8ByteSize ≤ p) :
    locate? src p = some (Location.start.after src.toList) := by
  rw [locate?, locateFrom?_of_width_le]
  rwa [← utf8ByteSize_eq_width]

end Offsets

end FrontEnd.Source

namespace FrontEnd

open FrontEnd.Source

def PlacedBefore (src : String) (t u : Token) : Prop :=
  ∃ here there, locate? src t.begin = some here ∧ locate? src u.begin = some there ∧
    here.Before there

theorem pairwise_placedBefore (src : String) :
    (scanSource src).1.Pairwise (PlacedBefore src) := by
  obtain ⟨segments, rest, hcover⟩ := exists_cover src
  have hb := hcover.isBoundary
  refine hcover.ordered.imp_of_mem fun ht hu hlt => ?_
  exact exists_locate?_lt (hb _ ht) (hb _ hu) hlt.1

/-- An offset between two characters of a source has the place that counts what is in front of it, and
a cursor there is at that place. A later offset has a later place, so no two have the same. From the
end on there is the place of the end; and the tokens have places that go up. -/
theorem places_increase (src : String) :
    (∀ p, IsBoundary src p → ∃ front back here, src.toList = front ++ back ∧ p = width front ∧
      locate? src p = some here ∧ Cursor.location ⟨src, p⟩ = .ok here ∧ here.Counts front) ∧
    (∀ p q, IsBoundary src p → IsBoundary src q → p < q →
      ∃ here there, locate? src p = some here ∧ locate? src q = some there ∧ here.Before there) ∧
    (∀ p q, IsBoundary src p → IsBoundary src q → locate? src p = locate? src q → p = q) ∧
    (∀ p, src.utf8ByteSize ≤ p → locate? src p = locate? src src.utf8ByteSize ∧
      Cursor.location ⟨src, p⟩ = Cursor.location ⟨src, src.utf8ByteSize⟩) ∧
    (scanSource src).1.Pairwise (PlacedBefore src) := by
  refine ⟨fun p hp => ?_, fun p q => exists_locate?_lt, fun p q hp hq heq => ?_, fun p hp => ?_,
    pairwise_placedBefore src⟩
  · obtain ⟨front, back, hsrc, rfl⟩ := hp
    have hl := locate?_of_front hsrc
    exact ⟨front, back, _, hsrc, rfl, hl, by rw [Cursor.location, hl],
      Location.counts_start_after front⟩
  · by_contra hne
    rcases Nat.lt_or_gt_of_ne hne with hlt | hlt
    · obtain ⟨here, there, hp, hq, hbefore⟩ := exists_locate?_lt hp hq hlt
      exact hbefore.ne (Option.some.inj (hp ▸ hq ▸ heq))
    · obtain ⟨here, there, hq, hp, hbefore⟩ := exists_locate?_lt hq hp hlt
      exact hbefore.ne (Option.some.inj (hp ▸ hq ▸ heq.symm))
  · have hend : locate? src p = locate? src src.utf8ByteSize := by
      rw [locate?_of_end_le hp, locate?_of_end_le (Nat.le_refl _)]
    exact ⟨hend, by rw [Cursor.location, Cursor.location, hend]⟩

/-- Four lines, one of them empty, with a character of two bytes in the last one. -/
def fourLines : String := "ab\ncd\n\nλx"

theorem places_increase_fourLines :
    IsBoundary fourLines 6 ∧ IsBoundary fourLines 9 ∧
    (∃ front back here, fourLines.toList = front ++ back ∧ 9 = width front ∧
      locate? fourLines 9 = some here ∧ Cursor.location ⟨fourLines, 9⟩ = .ok here ∧
      here.Counts front) ∧
    (∃ here there, locate? fourLines 6 = some here ∧ locate? fourLines 9 = some there ∧
      here.Before there) ∧
    locate? fourLines 6 ≠ locate? fourLines 9 ∧ locate? fourLines 100 = some ⟨4, 3⟩ := by
  have hline : IsBoundary fourLines 6 := ⟨"ab\ncd\n".toList, "\nλx".toList, by decide, by decide⟩
  have hlast : IsBoundary fourLines 9 := ⟨"ab\ncd\n\nλ".toList, ['x'], by decide, by decide⟩
  obtain ⟨hplace, hbefore, hsame, hend, -⟩ := places_increase fourLines
  have hpast : locate? fourLines 100 = locate? fourLines fourLines.utf8ByteSize :=
    (hend 100 (by decide)).1
  refine ⟨hline, hlast, hplace 9 hlast, hbefore 6 9 hline hlast (by decide), fun heq => ?_, ?_⟩
  · exact absurd (hsame 6 9 hline hlast heq) (by decide)
  · rw [hpast]
    decide

end FrontEnd
