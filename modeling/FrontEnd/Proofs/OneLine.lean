import FrontEnd.Proofs.JoinedLines

/-! The two texts of a tree say the same: the layout, with its lines put together again, is the text
on one line. A line starts with something else than a blank, so it can be found again in the text.
The layout is not shown if a line of it would be indented too far; how far that is depends on how
lists and nodes are nested. -/

namespace FrontEnd.Tree

/-- The lines of a text, each without the blanks it starts with, put together. -/
def oneLine (text : String) : String :=
  String.ofList (joinLines ((text.toList.splitOn '\n').map (·.dropWhile (· = ' '))))

/-- A line as it can be found again in a text: it starts with something else than a blank. -/
structure Flush (text : List Char) : Prop where
  newline_notMem : '\n' ∉ text
  ne_nil : text ≠ []
  head?_ne : text.head? ≠ some ' '

/-- All lines can be found again, or there is one only and it is empty. -/
def FlushLines (ls : List Line) : Prop :=
  (∀ l ∈ ls, Flush l.text.toList) ∨ ∃ depth, ls = [⟨depth, ""⟩]

theorem newline_notMem_intercalate {as : List String} (h : ∀ a ∈ as, '\n' ∉ a.toList) :
    '\n' ∉ (", ".intercalate as).toList := by
  induction as with
  | nil => decide
  | cons a as ih =>
    obtain ⟨hfirst, hrest⟩ := List.forall_mem_cons.1 h
    cases as with
    | nil => simpa using hfirst
    | cons b as =>
      rw [String.intercalate_cons_cons, String.toList_append, String.toList_append]
      simp only [List.mem_append, not_or]
      exact ⟨⟨hfirst, by decide⟩, ih hrest⟩

theorem IsWord.newline_notMem {text : List Char} (h : IsWord text) : '\n' ∉ text :=
  fun hmem => absurd (h.2 _ hmem) (by decide)

/-- No text in the tree goes over lines. -/
inductive Unbroken : Tree → Prop
  | null : Unbroken null
  | str {text : String} : '\n' ∉ text.toList → Unbroken (str text)
  | value {text : String} : '\n' ∉ text.toList → Unbroken (value text)
  | list {items : List Tree} : (∀ t ∈ items, Unbroken t) → Unbroken (list items)
  | node {tag : String} {fields : List (String × Tree)} : '\n' ∉ tag.toList →
      (∀ f ∈ fields, '\n' ∉ f.1.toList) → (∀ f ∈ fields, Unbroken f.2) → Unbroken (node tag fields)

theorem Foldable.unbroken {t : Tree} (h : t.Foldable) : t.Unbroken := by
  induction h with
  | null => exact .null
  | str htext => exact .str htext
  | value htext _ _ _ => exact .value htext
  | list _ ih => exact .list ih
  | node htag hnames _ ih =>
    exact .node htag.newline_notMem (fun f hf => (hnames f hf).newline_notMem) ih

theorem newline_notMem_inline {t : Tree} (h : t.Unbroken) : '\n' ∉ t.inline.toList := by
  induction h with
  | null => decide
  | str htext => simpa [inline] using htext
  | value htext => exact htext
  | list _ ih =>
    have hitems := newline_notMem_intercalate (List.forall_mem_map.2 ih)
    rw [← inlineItems_eq_map] at hitems
    simpa [inline] using hitems
  | @node tag fields htag hnames _ ih =>
    have hinner : '\n' ∉ (", ".intercalate (inlineFields fields)).toList := by
      rw [inlineFields_eq_map]
      refine newline_notMem_intercalate (List.forall_mem_map.2 fun f hf => ?_)
      simpa using ⟨hnames f hf, ih f hf⟩
    rw [inline]
    split
    · simpa using htag
    · rw [String.toList_append, String.toList_append, String.toList_append]
      simpa [-String.toList_intercalate] using ⟨htag, hinner⟩

section Flush

variable {text more : List Char} {ls : List Line}

theorem Flush.append (h : Flush text) (hmore : '\n' ∉ more) : Flush (text ++ more) where
  newline_notMem := by simpa using ⟨h.newline_notMem, hmore⟩
  ne_nil := List.append_ne_nil_of_left_ne_nil h.ne_nil more
  head?_ne := by
    rw [List.head?_append, List.head?_eq_some_head h.ne_nil, Option.some_or,
      ← List.head?_eq_some_head h.ne_nil]
    exact h.head?_ne

theorem IsWord.flush (h : IsWord text) : Flush text where
  newline_notMem := h.newline_notMem
  ne_nil := h.1
  head?_ne := by simpa using h.head?_ne (by decide) []

theorem flushLines_one {text : String} (hfeed : '\n' ∉ text.toList)
    (hhead : text.toList.head? ≠ some ' ') (depth : Nat) : FlushLines [⟨depth, text⟩] := by
  by_cases hempty : text = ""
  · rw [hempty]
    exact .inr ⟨depth, rfl⟩
  · refine .inl (List.forall_mem_singleton.2 ⟨hfeed, ?_, hhead⟩)
    simpa using hempty

theorem FlushLines.newline_notMem (h : FlushLines ls) : ∀ l ∈ ls, '\n' ∉ l.text.toList := by
  obtain h | ⟨depth, rfl⟩ := h
  · exact fun l hl => (h l hl).newline_notMem
  · simp

theorem FlushLines.head?_ne (h : FlushLines ls) : ∀ l ∈ ls, l.text.toList.head? ≠ some ' ' := by
  obtain h | ⟨depth, rfl⟩ := h
  · exact fun l hl => (h l hl).head?_ne
  · simp

/-- A comma behind the last line makes all lines ones that can be found again. -/
theorem FlushLines.comma (h : FlushLines ls) : ∀ l ∈ Line.trail "," ls, Flush l.text.toList := by
  obtain h | ⟨depth, rfl⟩ := h
  · induction ls with
    | nil => exact h
    | cons l ls ih =>
      obtain ⟨hfirst, hrest⟩ := List.forall_mem_cons.1 h
      cases ls with
      | nil =>
        rw [Line.trail, List.forall_mem_singleton, String.toList_append]
        exact hfirst.append (by decide)
      | cons l' ls => exact List.forall_mem_cons.2 ⟨hfirst, ih hrest⟩
  · rw [Line.trail, List.forall_mem_singleton]
    exact ⟨by simp, by simp, by simp⟩

/-- So does a name in front of the first line. -/
theorem FlushLines.lead {name : String} (h : FlushLines ls) (hname : IsWord name.toList) :
    ∀ l ∈ Line.lead (name ++ " = ") ls, Flush l.text.toList := by
  have hlead : Flush (name ++ " = ").toList := by
    rw [String.toList_append]
    exact hname.flush.append (by decide)
  cases ls with
  | nil => exact fun l hl => absurd hl List.not_mem_nil
  | cons l ls =>
    refine List.forall_mem_cons.2 ⟨?_, ?_⟩
    · rw [String.toList_append]
      exact hlead.append (h.newline_notMem l List.mem_cons_self)
    · obtain h | ⟨depth, h⟩ := h
      · exact (List.forall_mem_cons.1 h).2
      · cases h
        exact fun l hl => absurd hl List.not_mem_nil

end Flush

theorem flush_items {depth : Nat} {ts : List Tree} (h : ∀ t ∈ ts, FlushLines (lines depth t)) :
    ∀ l ∈ itemLines depth ts, Flush l.text.toList := by
  rw [itemLines_eq_flatMap]
  intro l hl
  obtain ⟨t, ht, hl⟩ := List.mem_flatMap.1 hl
  exact (h t ht).comma l hl

theorem flush_fields {depth : Nat} {fs : List (String × Tree)}
    (hnames : ∀ f ∈ fs, IsWord f.1.toList) (h : ∀ f ∈ fs, FlushLines (lines depth f.2)) :
    ∀ l ∈ fieldLines depth fs, Flush l.text.toList := by
  induction fs with
  | nil => exact fun l hl => absurd hl List.not_mem_nil
  | cons f fs ih =>
    obtain ⟨hname, hnames⟩ := List.forall_mem_cons.1 hnames
    obtain ⟨hfirst, hrest⟩ := List.forall_mem_cons.1 h
    have hfield := hfirst.lead hname
    rw [fieldLines, List.forall_mem_append]
    refine ⟨?_, ih hnames hrest⟩
    split
    · exact hfield
    · exact FlushLines.comma (.inl hfield)

theorem flushLines_inline {t : Tree} (h : t.Foldable) (depth : Nat) :
    FlushLines [⟨depth, t.inline⟩] :=
  flushLines_one (newline_notMem_inline h.unbroken) (head?_inline h).2 depth

theorem flushLines_lines {t : Tree} (h : t.Foldable) (depth : Nat) :
    FlushLines (lines depth t) := by
  induction t generalizing depth with
  | list items ih =>
    cases h with
    | list hitems =>
      rw [lines]
      split
      · exact flushLines_one (by decide) (by decide) depth
      · have hinner := flush_items fun t ht => ih t ht (hitems t ht) (depth + 1)
        refine .inl ?_
        rw [List.forall_mem_append, List.forall_mem_cons, List.forall_mem_singleton]
        exact ⟨⟨⟨by simp, by simp, by simp⟩, hinner⟩, ⟨by simp, by simp, by simp⟩⟩
  | node tag fields ih =>
    have hone := flushLines_inline h depth
    cases h with
    | node htag hnames hfields =>
      rw [lines]
      split
      · exact hone
      · have hinner := flush_fields hnames fun f hf => ih f hf (hfields f hf) (depth + 1)
        refine .inl ?_
        rw [List.forall_mem_append, List.forall_mem_cons, List.forall_mem_singleton,
          String.toList_append]
        exact ⟨⟨htag.flush.append (by decide), hinner⟩, ⟨by simp, by simp, by simp⟩⟩
  | _ => exact flushLines_inline h depth

/-- Lines with line feeds between them are found again. -/
theorem splitOn_intercalate_render {ls : List Line} (hne : ls ≠ [])
    (h : ∀ l ∈ ls, '\n' ∉ l.text.toList) :
    ("\n".intercalate (ls.map Line.render)).toList.splitOn '\n' =
      ls.map fun l => l.render.toList := by
  have hfeed : ∀ l ∈ ls, '\n' ∉ l.render.toList := by
    intro l hl
    simpa [Line.render] using h l hl
  have hchars : ("\n".intercalate (ls.map Line.render)).toList =
      ['\n'].intercalate (ls.map fun l => l.render.toList) := by
    rw [String.toList_intercalate, List.map_map]
    rfl
  rw [hchars, List.splitOn_intercalate '\n' (List.forall_mem_map.2 hfeed) (by simpa using hne)]

/-- Such lines are put together without their blanks. -/
theorem oneLine_intercalate {ls : List Line} (hne : ls ≠ []) (h : FlushLines ls) :
    oneLine ("\n".intercalate (ls.map Line.render)) =
      String.ofList (joinLines (ls.map (·.text.toList))) := by
  have hblanks : ∀ l ∈ ls, l.render.toList.dropWhile (· = ' ') = l.text.toList := by
    intro l hl
    rw [Line.render, String.toList_append, String.toList_ofList]
    refine (Segment.takeWhile_run (by simp) fun c hc => ?_).2
    refine decide_eq_false ?_
    rintro rfl
    exact h.head?_ne l hl hc
  rw [oneLine, splitOn_intercalate_render hne h.newline_notMem, List.map_map]
  exact congrArg (String.ofList ∘ joinLines) (List.map_congr_left hblanks)

theorem joinLines_lines {t : Tree} (h : t.Foldable) (depth : Nat) :
    joinLines ((lines depth t).map (·.text.toList)) = t.inline.toList := by
  -- Behind an opening bracket the first line is joined with nothing in front.
  have hjoins := joins_lines h depth ['[']
  have hflush := flushLines_lines h depth
  obtain ⟨l, ls, hls, hl⟩ := exists_lines_eq_cons h depth
  rw [hls] at hjoins hflush ⊢
  have hfold : (ls.map (·.text.toList)).foldl attach (['['] ++ l.text.toList) =
      ['['] ++ joinLines ((l :: ls).map (·.text.toList)) := by
    obtain hflush | ⟨depth, hone⟩ := hflush
    · have hne : ∀ line ∈ (l :: ls).map (·.text.toList), line ≠ [] :=
        List.forall_mem_map.2 fun l hl => (hflush l hl).ne_nil
      exact foldl_attach hne ['[']
    · cases hone
      rfl
  have hfirst : attach ['['] l.text.toList = ['['] ++ l.text.toList := by
    rw [attach_of_head? hl]
    rfl
  rw [attachAll, List.foldl_cons, hfirst, ← List.foldl_map, hfold] at hjoins
  exact List.append_cancel_left hjoins

/-- The layout with its lines put together again is the text on one line. -/
theorem oneLine_layout {t : Tree} (h : t.Foldable) (indent : Nat) :
    oneLine (t.layout indent) = t.inline := by
  obtain ⟨l, ls, hls, -⟩ := exists_lines_eq_cons h indent
  have hne : lines indent t ≠ [] := by
    rw [hls]
    exact List.cons_ne_nil l ls
  rw [layout, oneLine_intercalate hne (flushLines_lines h indent), joinLines_lines h,
    String.ofList_toList]

/-! ### How far lines are indented -/

mutual

/-- How many levels the lines of a tree go in at most, from where the tree starts. -/
def rise : Tree → Nat
  | list items => if items.isEmpty then 0 else riseItems items + 1
  | node _ fields => if fitsLine fields then 0 else riseFields fields + 1
  | _ => 0

def riseItems : List Tree → Nat
  | [] => 0
  | t :: ts => max t.rise (riseItems ts)

def riseFields : List (String × Tree) → Nat
  | [] => 0
  | (_, t) :: fs => max t.rise (riseFields fs)

end

def Within (n : Nat) (ls : List Line) : Prop :=
  ∀ l ∈ ls, l.depth ≤ n

section Within

variable {n depth : Nat}

@[simp]
theorem within_nil (n : Nat) : Within n [] :=
  fun _ hl => absurd hl List.not_mem_nil

@[simp]
theorem within_cons (n : Nat) (l : Line) (ls : List Line) :
    Within n (l :: ls) ↔ l.depth ≤ n ∧ Within n ls :=
  List.forall_mem_cons

@[simp]
theorem within_append (n : Nat) (ls ms : List Line) :
    Within n (ls ++ ms) ↔ Within n ls ∧ Within n ms :=
  List.forall_mem_append

@[simp]
theorem within_trail (n : Nat) (text : String) (ls : List Line) :
    Within n (Line.trail text ls) ↔ Within n ls := by
  induction ls with
  | nil => rfl
  | cons l ls ih =>
    cases ls with
    | nil => simp [Line.trail]
    | cons l' ls => rw [Line.trail.eq_def, within_cons, ih, ← within_cons]

@[simp]
theorem within_lead (n : Nat) (text : String) (ls : List Line) :
    Within n (Line.lead text ls) ↔ Within n ls := by
  cases ls with
  | nil => rfl
  | cons l ls => rw [Line.lead, within_cons, within_cons]

theorem within_items {ts : List Tree} (hne : ts ≠ [])
    (h : ∀ t ∈ ts, Within n (lines depth t) ↔ depth + t.rise ≤ n) :
    Within n (itemLines depth ts) ↔ depth + riseItems ts ≤ n := by
  induction ts with
  | nil => exact absurd rfl hne
  | cons t ts ih =>
    obtain ⟨hfirst, hrest⟩ := List.forall_mem_cons.1 h
    rw [itemLines, within_append, within_trail, hfirst, riseItems]
    cases ts with
    | nil => simp [itemLines, riseItems]
    | cons t' ts =>
      rw [ih (List.cons_ne_nil _ _) hrest]
      omega

theorem within_fields {fs : List (String × Tree)} (hne : fs ≠ [])
    (h : ∀ f ∈ fs, Within n (lines depth f.2) ↔ depth + f.2.rise ≤ n) :
    Within n (fieldLines depth fs) ↔ depth + riseFields fs ≤ n := by
  induction fs with
  | nil => exact absurd rfl hne
  | cons f fs ih =>
    obtain ⟨hfirst, hrest⟩ := List.forall_mem_cons.1 h
    rw [fieldLines, within_append, riseFields]
    cases fs with
    | nil => simpa [fieldLines, riseFields] using hfirst
    | cons f' fs =>
      rw [List.isEmpty_cons, if_neg Bool.false_ne_true, within_trail, within_lead, hfirst,
        ih (List.cons_ne_nil _ _) hrest]
      omega

/-- Lines stay within a bound just if the innermost of them does. -/
theorem within_lines (n depth : Nat) (t : Tree) :
    Within n (lines depth t) ↔ depth + t.rise ≤ n := by
  induction t generalizing depth with
  | list items ih =>
    rw [lines, rise]
    split
    · simp
    · next hne =>
      simp only [within_append, within_cons, within_nil, and_true]
      rw [within_items (by simpa using hne) fun t ht => ih t ht (depth + 1)]
      omega
  | node tag fields ih =>
    rw [lines, rise]
    split
    · simp
    · next hfit =>
      have hne : fields ≠ [] := by
        rintro rfl
        exact hfit rfl
      simp only [within_append, within_cons, within_nil, and_true]
      rw [within_fields hne fun f hf => ih f hf (depth + 1)]
      omega
  | _ => simp [lines, rise]

end Within

/-- There is a layout just if its innermost lines are not indented too far. -/
theorem checkedLayout_eq (t : Tree) (indent : Nat) :
    t.checkedLayout indent = if 2 * (indent + t.rise) ≤ maxBlanks then .ok (t.layout indent)
      else .error .indentTooWide := by
  have hiff : ((lines indent t).all fun l => l.blanks ≤ maxBlanks) = true ↔
      2 * (indent + t.rise) ≤ maxBlanks := by
    have hhalf : ∀ m, 2 * m ≤ maxBlanks ↔ m ≤ maxBlanks / 2 := by
      intro m
      rw [Nat.le_div_iff_mul_le (by decide), Nat.mul_comm]
    rw [hhalf, ← within_lines]
    simp [Within, Line.blanks, hhalf]
  rw [checkedLayout]
  simp only [hiff]

/-- Where there is a layout, its lines can be put together to the text on one line. There is one for
every indent that keeps the innermost lines within the bound. -/
theorem checkedLayout_oneLine {t : Tree} (h : t.Foldable) (indent : Nat) :
    (2 * (indent + t.rise) ≤ maxBlanks →
      ∃ text, t.checkedLayout indent = .ok text ∧ oneLine text = t.inline) ∧
    (maxBlanks < 2 * (indent + t.rise) → t.checkedLayout indent = .error .indentTooWide) := by
  rw [checkedLayout_eq]
  constructor
  · intro hwithin
    exact ⟨t.layout indent, if_pos hwithin, oneLine_layout h indent⟩
  · intro hwide
    exact if_neg (Nat.not_le_of_lt hwide)

/-- A list of lists and nodes that go over lines or do not, with commas and brackets in texts. -/
def manyBrackets : Tree :=
  node "Top" [("rows", list [list [value "[1,", str "], ["], list [], null]),
    ("leaf", node "Leaf" [("id", value "")]), ("last", node "Pair" [("a", null), ("b", list [])])]

theorem checkedLayout_oneLine_manyBrackets :
    manyBrackets.Foldable ∧ 2 * (7 + manyBrackets.rise) ≤ maxBlanks ∧
    manyBrackets.inline = "Top \x7b rows = [[[1,, \"], [\"], [], null], " ++
      "leaf = Leaf \x7b id =  \x7d, last = Pair \x7b a = null, b = [] \x7d \x7d" ∧
    ∃ text, manyBrackets.checkedLayout 7 = .ok text ∧ oneLine text = manyBrackets.inline := by
  have hrow : (list [value "[1,", str "], ["]).Foldable := by
    refine .list (List.forall_mem_cons.2 ⟨?_, List.forall_mem_singleton.2 ?_⟩)
    · exact .value (by decide) (by decide) (by decide) (by decide)
    · exact .str (by decide)
  have hempty : (list []).Foldable := .list (by simp)
  have hrows : (list [list [value "[1,", str "], ["], list [], null]).Foldable :=
    .list (by simpa using ⟨hrow, hempty, .null⟩)
  have hleaf : (node "Leaf" [("id", value "")]).Foldable :=
    .node (by decide) (by decide)
      (List.forall_mem_singleton.2 (.value (by decide) (by decide) (by decide) (by decide)))
  have hpair : (node "Pair" [("a", null), ("b", list [])]).Foldable :=
    .node (by decide) (by decide) (by simpa using ⟨.null, hempty⟩)
  have hfold : manyBrackets.Foldable :=
    .node (by decide) (by decide) (by simpa using ⟨hrows, hleaf, hpair⟩)
  have hwithin : 2 * (7 + manyBrackets.rise) ≤ maxBlanks := by decide
  exact ⟨hfold, hwithin, by decide +kernel, (checkedLayout_oneLine hfold 7).1 hwithin⟩

/-- A node on a single line has no layout where it would be indented too far. -/
theorem no_layout_deep :
    (node "T" []).Foldable ∧ (node "T" []).inline = "T \x7b\x7d" ∧
    (node "T" []).checkedLayout 32768 = .error .indentTooWide :=
  ⟨.node (by decide) (by simp) (by simp), by decide +kernel, rfl⟩

end FrontEnd.Tree
