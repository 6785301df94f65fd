import FrontEnd.Proofs.Scanning

/-! The tokens of a source, with the blanks and comments between them, are the source: up to its end,
or up to the first place where it is stuck. Nothing is lost, nothing is read twice, and each token
ends only where the next character cannot belong to it. -/

namespace FrontEnd

namespace Segment

/-- The text of the token stands in the characters at the place where the token begins, if they
start at a byte offset. -/
def Lies (start : Nat) (cs : List Char) (t : Token) : Prop :=
  ∃ front back, cs = front ++ t.text.toList ++ back ∧ t.begin = start + Source.width front

theorem Lies.append {start : Nat} {cs : List Char} {t : Token} (h : Lies start cs t)
    (rest : List Char) : Lies start (cs ++ rest) t := by
  obtain ⟨front, back, rfl, hb⟩ := h
  exact ⟨front, back ++ rest, by simp, hb⟩

theorem Lies.behind {start : Nat} {cs : List Char} {t : Token} (pre : List Char)
    (h : Lies (start + Source.width pre) cs t) : Lies start (pre ++ cs) t := by
  obtain ⟨front, back, rfl, hb⟩ := h
  refine ⟨pre ++ front, back, by simp, ?_⟩
  rw [hb, Source.width_append, Nat.add_assoc]

theorem Lies.start_le {start : Nat} {cs : List Char} {t : Token} (h : Lies start cs t) :
    start ≤ t.begin := by
  obtain ⟨front, back, -, hb⟩ := h
  omega

theorem Lies.stop_le {start : Nat} {cs : List Char} {t : Token} (h : Lies start cs t) :
    t.stop ≤ start + Source.width cs := by
  obtain ⟨front, back, rfl, hb⟩ := h
  rw [Token.stop, Source.utf8ByteSize_eq_width, hb]
  simp only [Source.width_append]
  omega

theorem width_pos {cs : List Char} (h : cs ≠ []) : 0 < Source.width cs := by
  cases cs with
  | nil => exact absurd rfl h
  | cons c cs => exact Nat.add_pos_left c.utf8Size_pos _

theorem Stands.lies {start : Nat} {s : Segment} {t : Token} (h : Stands start s t) :
    Lies start s.chars t := by
  cases h with
  | string body => exact ⟨['\x22'], ['\x22'], by simp [chars], rfl⟩
  | _ => exact ⟨[], [], by simp [chars], rfl⟩

/-- An empty string literal begins inside its segment too. -/
theorem Stands.begin_lt {start : Nat} {s : Segment} {t : Token} (h : Stands start s t)
    (hp : s.Proper) : t.begin < start + Source.width s.chars := by
  have hpos := width_pos (chars_ne_nil_of_proper hp)
  cases h with
  | string body =>
    have hq : '\x22'.utf8Size = 1 := by decide
    have : Source.width (quoted body).chars = 1 + (Source.width body + 1) := by
      simp [chars, Source.width, hq]
    simp only [this]
    omega
  | _ => exact Nat.lt_add_of_pos_right hpos

theorem Reads.lies {start : Nat} {segments : List Segment} {ts : List Token}
    (h : Reads start segments ts) : ∀ t ∈ ts, Lies start (segments.flatMap chars) t := by
  induction h with
  | nil => simp
  | @skip start s rest ts _ _ ih =>
    intro t ht
    rw [List.flatMap_cons]
    exact (ih t ht).behind s.chars
  | @take start s t rest ts hst _ ih =>
    intro u hu
    rw [List.flatMap_cons]
    rcases List.mem_cons.1 hu with rfl | hu
    · exact hst.lies.append _
    · exact (ih u hu).behind s.chars

theorem Reads.ordered {start : Nat} {segments : List Segment} {ts : List Token}
    (h : Reads start segments ts) (hp : ∀ s ∈ segments, s.Proper) :
    ts.Pairwise fun a b => a.begin < b.begin ∧ a.stop ≤ b.begin := by
  induction h with
  | nil => exact .nil
  | skip _ _ ih => exact ih fun s hs => hp s (List.mem_cons_of_mem _ hs)
  | @take start s t rest ts hst hrest ih =>
    refine List.pairwise_cons.2 ⟨fun u hu => ?_, ih fun s hs => hp s (List.mem_cons_of_mem _ hs)⟩
    have hu := (hrest.lies u hu).start_le
    have hbegin := hst.begin_lt (hp s List.mem_cons_self)
    have hstop := hst.lies.stop_le
    exact ⟨by omega, by omega⟩

theorem Apart.proper {tail : List Char} {segments : List Segment} (h : Apart tail segments) :
    ∀ s ∈ segments, s.Proper := by
  induction segments with
  | nil => simp
  | cons s rest ih =>
    obtain ⟨hp, -, hrest⟩ := h
    exact List.forall_mem_cons.2 ⟨hp, ih hrest⟩

@[simp]
theorem split_nil : split [] = ([], none) := by
  simp [split, splitFrom]

theorem split_cons_of_error {c : Char} {cs : List Char} {fault : ScanFault}
    (h : scan c cs = .error fault) : split (c :: cs) = ([], some fault) := by
  rw [split, splitFrom]
  split
  · next s rest hs => simp [h] at hs
  · next e hs =>
    obtain rfl : fault = e := by simpa [h] using hs
    rfl

/-- Where the scanner stops in a text, and why. -/
theorem split_cover (cs : List Char) :
    ∃ rest, cs = (split cs).1.flatMap chars ++ rest ∧ Apart rest (split cs).1 ∧
      ((split cs).2 = none ∧ rest = [] ∨ ∃ fault, (split cs).2 = some fault ∧ Stuck fault rest) := by
  -- Each segment takes at least a character, so the induction is on the length of what is left.
  induction hn : cs.length using Nat.strongRecOn generalizing cs with
  | ind n ih =>
    cases cs with
    | nil =>
      rw [split_nil]
      exact ⟨[], rfl, trivial, .inl ⟨rfl, rfl⟩⟩
    | cons c cs =>
      cases hs : scan c cs with
      | ok found =>
        obtain ⟨s, after⟩ := found
        obtain ⟨hp, he, hcs⟩ := scan_eq_ok_iff.1 hs
        obtain ⟨rest, hafter, hapart, hend⟩ := ih _ (hn ▸ length_rest_of_scan hs) after rfl
        rw [split_cons_of_scan hs]
        refine ⟨rest, ?_, ⟨hp, ?_, hapart⟩, hend⟩
        · rw [List.flatMap_cons, List.append_assoc, ← hafter, hcs]
        · rwa [← hafter]
      | error fault =>
        rw [split_cons_of_error hs]
        exact ⟨c :: cs, rfl, trivial, .inr ⟨fault, rfl, stuck_of_scan hs⟩⟩

end Segment

/-- How the segments in front of `rest` and the tokens that they are make up a source. -/
structure Cover (src : String) (segments : List Segment) (rest : List Char)
    (tokens : List Token) : Prop where
  whole : src.toList = segments.flatMap Segment.chars ++ rest
  apart : Segment.Apart rest segments
  reads : Segment.Reads 0 segments tokens
  inside : ∀ t ∈ tokens, ∃ front back, src.toList = front ++ t.text.toList ++ back ∧
    t.begin = Source.width front ∧ t.stop = Source.width (front ++ t.text.toList)
  ordered : tokens.Pairwise fun a b => a.begin < b.begin ∧ a.stop ≤ b.begin

theorem cover_of_reads {src : String} {segments : List Segment} {rest : List Char}
    {tokens : List Token} (hw : src.toList = segments.flatMap Segment.chars ++ rest)
    (ha : Segment.Apart rest segments) (hr : Segment.Reads 0 segments tokens) :
    Cover src segments rest tokens where
  whole := hw
  apart := ha
  reads := hr
  inside := by
    intro t ht
    obtain ⟨front, back, hsrc, hb⟩ := (hr.lies t ht).append rest
    rw [Nat.zero_add] at hb
    refine ⟨front, back, hw.trans hsrc, hb, ?_⟩
    rw [Token.stop, hb, Source.utf8ByteSize_eq_width, Source.width_append]
  ordered := hr.ordered ha.proper

theorem scanSource_eq (src : String) : scanSource src =
    (Segment.tokens 0 (Segment.split src.toList).1, (Segment.split src.toList).2.map
      (.ofFault ((Segment.split src.toList).1.flatMap Segment.chars))) := rfl

/-- The tokens of a source, also those in front of a fault, with what is between them. -/
theorem exists_cover (src : String) :
    ∃ segments rest, Cover src segments rest (scanSource src).1 := by
  obtain ⟨rest, hw, ha, -⟩ := Segment.split_cover src.toList
  exact ⟨_, rest, cover_of_reads hw ha (Segment.reads_tokens 0 _)⟩

theorem Cover.isBoundary {src : String} {segments : List Segment} {rest : List Char}
    {tokens : List Token} (h : Cover src segments rest tokens) :
    ∀ t ∈ tokens, Source.IsBoundary src t.begin := by
  intro t ht
  obtain ⟨front, back, hsrc, hb, -⟩ := h.inside t ht
  exact ⟨front, t.text.toList ++ back, by simpa using hsrc, hb⟩

/-- Every source is covered by its tokens and by what is between them, up to its end or up to the
first place where it is stuck; an error then says how. -/
theorem tokenizeInto_cover (src : String) :
    ∃ tokens err? segments rest, tokenizeInto [] src = .ok (tokens, err?) ∧
      Cover src segments rest tokens ∧
      (err? = none ∧ rest = [] ∨
        ∃ fault, err? = some (.ofFault (segments.flatMap Segment.chars) fault) ∧
          Segment.Stuck fault rest) := by
  obtain ⟨rest, hw, ha, hend⟩ := Segment.split_cover src.toList
  have hcover := cover_of_reads hw ha (Segment.reads_tokens 0 _)
  have hscan : tokenizeInto [] src = .ok (scanSource src) := rfl
  rw [scanSource_eq] at hscan
  rcases hend with ⟨hnone, hrest⟩ | ⟨fault, hsome, hstuck⟩
  · rw [hnone] at hscan
    exact ⟨_, none, _, rest, hscan, hcover, .inl ⟨rfl, hrest⟩⟩
  · rw [hsome] at hscan
    exact ⟨_, _, _, rest, hscan, hcover, .inr ⟨fault, rfl, hstuck⟩⟩

end FrontEnd
