import FrontEnd.Proofs.CursorScan
import FrontEnd.Proofs.Layout
import FrontEnd.Proofs.ScriptSoundness

/-! Reading a source breaks no precondition. The offsets that the scanner uses are those of characters,
and faults are located at tokens or at the end of the source. A type has no more stars than there are
in the source, so a source with few of them cannot make the counter of a type overflow. -/

namespace FrontEnd

open FrontEnd.Grammar FrontEnd.Parse FrontEnd.Parser FrontEnd.Segment FrontEnd.Source

/-- The byte offset where a fault is located: that of its token, or of the end of the source. -/
def Fault.offset (src : String) (fault : Fault) : Nat :=
  (fault.site.head?.map Token.begin).getD src.utf8ByteSize

def isStar (t : Token) : Bool :=
  t.kind = .symbol .star

theorem Segment.Reads.countP_isStar_le {start : Nat} {segments : List Segment} {ts : List Token}
    (h : Reads start segments ts) : ts.countP isStar ≤ (segments.flatMap chars).count '*' := by
  induction h with
  | nil => exact Nat.le_refl _
  | skip _ _ ih =>
    rw [List.flatMap_cons, List.count_append]
    omega
  | @take _ s t _ _ hst _ ih =>
    rw [List.flatMap_cons, List.count_append, List.countP_cons]
    by_cases ht : isStar t = true
    · rw [if_pos ht]
      have hstar : s.chars.count '*' = 1 := by
        have hk : t.kind = .symbol .star := by simpa [isStar] using ht
        cases hst with
        | symbol k =>
          cases hk
          decide
        | _ => cases hk
      omega
    · rw [if_neg ht]
      omega

theorem countP_isStar_le {src : String} {tokens : List Token} (h : tokenize src = .ok tokens) :
    tokens.countP isStar ≤ src.toList.count '*' := by
  obtain ⟨segments, hc⟩ := cover_of_tokenize h
  rw [hc.whole, List.append_nil]
  exact hc.reads.countP_isStar_le

/-- A type that is read has no more stars than there are among the tokens. -/
theorem pointerDepth_le {tokens ts us : List Token} (hs : ts <:+ tokens) {type : Program.TypeRef}
    (h : typeRef ts = .ok type us) : type.pointerDepth ≤ tokens.countP isStar := by
  obtain ⟨f, rfl, rfl, -⟩ := exists_typeForm h
  have hall : (f.stars.map Subtype.val).countP isStar = (f.stars.map Subtype.val).length := by
    refine List.countP_eq_length.2 fun t ht => ?_
    obtain ⟨star, -, rfl⟩ := List.mem_map.1 ht
    simp [isStar]
  rw [List.length_map] at hall
  have hle : (f.tokens ++ us).countP isStar ≤ tokens.countP isStar := hs.sublist.countP_le
  rw [TypeForm.tokens, List.cons_append, List.cons_append, List.countP_cons, List.countP_cons,
    List.countP_append, hall] at hle
  change f.stars.length ≤ _
  omega

theorem isBoundary_of_scanError {src : String} {e : ScanError} (h : tokenize src = .error e) :
    IsBoundary src e.position ∧ locate? src e.position = some e.location := by
  obtain ⟨rest, hw, -, hend⟩ := split_cover src.toList
  rw [tokenize, scanSource_eq] at h
  obtain ⟨hnone, -⟩ | ⟨fault, hsome, hstuck⟩ := hend
  · rw [hnone] at h
    cases h
  · rw [hsome] at h
    cases h
    obtain ⟨back, hrest⟩ : ∃ back, rest = fault.lead ++ back := by
      cases hstuck with
      | stray => exact ⟨_, rfl⟩
      | unclosed => exact ⟨_, rfl⟩
      | secondDot => exact ⟨_, rfl⟩
    rw [hrest, ← List.append_assoc] at hw
    have hhere := locateFrom?_width .start ((split src.toList).1.flatMap chars ++ fault.lead) back
    rw [← hw] at hhere
    exact ⟨⟨_, back, hw, rfl⟩, hhere⟩

/-- The fault of a reading is located at a token or at the end of the source. -/
theorem isBoundary_of_fault {src : String} {tokens rest : List Token} {r : Reading} {n : Nat}
    {fault : Fault} (ht : tokenize src = .ok tokens)
    (h : r.parser n tokens = .error fault rest) :
    IsBoundary src (fault.offset src) ∧ ∃ i, fault.site = tokens.drop i := by
  have hm := matching_reading (rfl : tokens.map face = tokens.map face) r n
  rw [h] at hm
  cases hm with
  | error cause hsite _ =>
    obtain ⟨i, rfl, -⟩ := hsite
    have hb := isBoundary_offsetAt (isBoundary_of_tokenize ht) i
    rw [offsetAt, ← List.head?_drop] at hb
    exact ⟨hb, i, rfl⟩

theorem read_cases (r : Reading) (src : String) :
    (∃ tree, r.read src = .ok tree) ∨ ∃ e, r.read src = .error (.error e) := by
  rw [Reading.read_eq]
  cases ht : tokenize src with
  | error e => exact .inr ⟨.scan e, by rw [source, ht]⟩
  | ok tokens =>
    cases hp : r.parser maxLevels tokens with
    | ok tree rest => exact .inl ⟨tree, source_of_ok ht hp⟩
    | error fault rest =>
      obtain ⟨cause, site⟩ := fault
      obtain ⟨-, i, rfl⟩ := isBoundary_of_fault ht hp
      obtain ⟨here, -, herror⟩ := source_of_error ht hp
      exact .inr ⟨_, herror⟩

/-- No precondition is broken: the scanner moves and cuts only at characters of the source, every
fault is located at one of them or at the end, and no type has so many stars that their number does
not fit a word of 32 bits. So every reading comes to a tree or to an error. -/
theorem never_violated (src : String) (hstars : src.toList.count '*' < UInt32.size) :
    CursorScan.scanInto [] src = .ok (scanSource src) ∧
    (∀ e, tokenize src = .error e →
      IsBoundary src e.position ∧ locate? src e.position = some e.location) ∧
    (∀ tokens, tokenize src = .ok tokens →
      (∀ (r : Reading) fault rest, r.parser maxLevels tokens = .error fault rest →
        IsBoundary src (fault.offset src)) ∧
      ∀ i type rest, typeRef (tokens.drop i) = .ok type rest → type.pointerDepth < UInt32.size) ∧
    ∀ r : Reading, (∃ tree, r.read src = .ok tree) ∨ ∃ e, r.read src = .error (.error e) := by
  refine ⟨CursorScan.scanInto_eq [] src, fun e h => isBoundary_of_scanError h, fun tokens ht => ?_,
    fun r => read_cases r src⟩
  refine ⟨fun r fault rest h => (isBoundary_of_fault ht h).1, fun i type rest h => ?_⟩
  calc type.pointerDepth
    _ ≤ tokens.countP isStar := pointerDepth_le (List.drop_suffix i tokens) h
    _ ≤ src.toList.count '*' := countP_isStar_le ht
    _ < UInt32.size := hstars

def declaredPointer : List Token :=
  [⟨.keyword .localKw, "local", 0⟩, ⟨.name, "p", 6⟩, ⟨.symbol .hash, "#", 8⟩, ⟨.name, "T", 9⟩,
    ⟨.symbol .star, "*", 10⟩, ⟨.symbol .closeParen, ")", 19⟩]

/-- The parenthesis is no statement's end. It stands behind a comment with a character of two bytes. -/
theorem never_violated_declaredPointer :
    "local p #T* // é\n )".toList.count '*' < UInt32.size ∧
    tokenize "local p #T* // é\n )" = .ok declaredPointer ∧
    (∃ fault rest, Reading.parser .statements maxLevels declaredPointer = .error fault rest ∧
      fault.offset "local p #T* // é\n )" = 19 ∧ IsBoundary "local p #T* // é\n )" 19) ∧
    ∃ type rest, typeRef (declaredPointer.drop 2) = .ok type rest ∧ type.pointerDepth = 1 ∧
      type.pointerDepth < UInt32.size := by
  have hstars : "local p #T* // é\n )".toList.count '*' < UInt32.size := by decide
  have ht : tokenize "local p #T* // é\n )" = .ok declaredPointer := by decide +kernel
  have hp : Reading.parser .statements maxLevels declaredPointer =
      .error ⟨.unexpected (some (.symbol .semicolon)), declaredPointer.drop 5⟩
        (declaredPointer.drop 5) := by rfl
  obtain ⟨-, -, hread, -⟩ := never_violated "local p #T* // é\n )" hstars
  obtain ⟨hfault, htype⟩ := hread declaredPointer ht
  exact ⟨hstars, ht, ⟨_, _, hp, rfl, hfault .statements _ _ hp⟩, ⟨"T", 1⟩, _, rfl, rfl, htype 2 _ _ rfl⟩

end FrontEnd
