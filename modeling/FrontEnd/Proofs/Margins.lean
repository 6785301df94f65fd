import FrontEnd.Proofs.OneLine

/-! The indent of a layout is a margin of one width for all its lines. So a tree inside another one is
laid out as it is alone, with its lines moved by the number of trees around it; only its first line
has no margin of its own, as it goes on behind a name or an indent. -/

namespace FrontEnd.Tree

def margin (levels : Nat) : String :=
  String.ofList (List.replicate (2 * levels) ' ')

/-- The text with the margin put in front of each of its lines. -/
def shift (levels : Nat) (text : String) : String :=
  "\n".intercalate ((text.toList.splitOn '\n').map fun line => margin levels ++ String.ofList line)

/-- The shifted text without the margin of its first line. -/
def hanging (levels : Nat) (text : String) : String :=
  String.ofList ((shift levels text).toList.drop (2 * levels))

namespace Line

def deeper (levels : Nat) (l : Line) : Line :=
  ⟨l.depth + levels, l.text⟩

theorem render_deeper (levels : Nat) (l : Line) :
    (l.deeper levels).render = margin levels ++ l.render := by
  have hblanks : (l.deeper levels).blanks = 2 * levels + l.blanks := by
    rw [blanks, blanks, Nat.add_comm, ← Nat.mul_add]
    rfl
  rw [render, hblanks, ← List.replicate_append_replicate, String.ofList_append,
    String.append_assoc]
  rfl

theorem lead_map_deeper (levels : Nat) (text : String) (ls : List Line) :
    lead text (ls.map (deeper levels)) = (lead text ls).map (deeper levels) := by
  cases ls with
  | nil => rfl
  | cons l ls => rfl

theorem trail_map_deeper (levels : Nat) (text : String) (ls : List Line) :
    trail text (ls.map (deeper levels)) = (trail text ls).map (deeper levels) := by
  induction ls with
  | nil => rfl
  | cons l ls ih =>
    cases ls with
    | nil => rfl
    | cons l' ls => exact congrArg (deeper levels l :: ·) ih

end Line

section Deeper

variable {depth levels : Nat}

theorem itemLines_add {ts : List Tree}
    (h : ∀ t ∈ ts, lines (depth + levels) t = (lines depth t).map (Line.deeper levels)) :
    itemLines (depth + levels) ts = (itemLines depth ts).map (Line.deeper levels) := by
  induction ts with
  | nil => rfl
  | cons t ts ih =>
    obtain ⟨hfirst, hrest⟩ := List.forall_mem_cons.1 h
    rw [itemLines, itemLines, hfirst, ih hrest, Line.trail_map_deeper, List.map_append]

theorem fieldLines_add {fs : List (String × Tree)}
    (h : ∀ f ∈ fs, lines (depth + levels) f.2 = (lines depth f.2).map (Line.deeper levels)) :
    fieldLines (depth + levels) fs = (fieldLines depth fs).map (Line.deeper levels) := by
  induction fs with
  | nil => rfl
  | cons f fs ih =>
    obtain ⟨hfirst, hrest⟩ := List.forall_mem_cons.1 h
    rw [fieldLines, fieldLines, hfirst, ih hrest, Line.lead_map_deeper, List.map_append]
    split
    · rfl
    · rw [Line.trail_map_deeper]

/-- A tree further in has the same lines further in. -/
theorem lines_add (depth levels : Nat) (t : Tree) :
    lines (depth + levels) t = (lines depth t).map (Line.deeper levels) := by
  induction t generalizing depth with
  | list items ih =>
    rw [lines, lines]
    split
    · rfl
    · have hitems := itemLines_add fun t ht => ih t ht (depth + 1)
      rw [Nat.add_right_comm, hitems]
      simp [Line.deeper]
  | node tag fields ih =>
    rw [lines, lines]
    split
    · rfl
    · have hfields := fieldLines_add fun f hf => ih f hf (depth + 1)
      rw [Nat.add_right_comm, hfields]
      simp [Line.deeper]
  | _ => rfl

end Deeper

/-- The first line of a tree is as far in as the tree. -/
theorem exists_lines_cons (depth : Nat) (t : Tree) :
    ∃ text ls, lines depth t = ⟨depth, text⟩ :: ls := by
  cases t with
  | list items =>
    rw [lines]
    split
    · exact ⟨_, _, rfl⟩
    · exact ⟨_, _, rfl⟩
  | node tag fields =>
    rw [lines]
    split
    · exact ⟨_, _, rfl⟩
    · exact ⟨_, _, rfl⟩
  | _ => exact ⟨_, _, rfl⟩

theorem lines_ne_nil (depth : Nat) (t : Tree) : lines depth t ≠ [] := by
  obtain ⟨text, ls, h⟩ := exists_lines_cons depth t
  rw [h]
  exact List.cons_ne_nil _ _

section Feeds

variable {text : String} {ls : List Line}

theorem newline_notMem_lead (htext : '\n' ∉ text.toList) (h : ∀ l ∈ ls, '\n' ∉ l.text.toList) :
    ∀ l ∈ Line.lead text ls, '\n' ∉ l.text.toList := by
  cases ls with
  | nil => exact h
  | cons l ls =>
    obtain ⟨hfirst, hrest⟩ := List.forall_mem_cons.1 h
    exact List.forall_mem_cons.2 ⟨by simpa using ⟨htext, hfirst⟩, hrest⟩

theorem newline_notMem_trail (htext : '\n' ∉ text.toList) (h : ∀ l ∈ ls, '\n' ∉ l.text.toList) :
    ∀ l ∈ Line.trail text ls, '\n' ∉ l.text.toList := by
  induction ls with
  | nil => exact h
  | cons l ls ih =>
    obtain ⟨hfirst, hrest⟩ := List.forall_mem_cons.1 h
    cases ls with
    | nil => exact List.forall_mem_singleton.2 (by simpa using ⟨hfirst, htext⟩)
    | cons l' ls => exact List.forall_mem_cons.2 ⟨hfirst, ih hrest⟩

theorem newline_notMem_itemLines {depth : Nat} {ts : List Tree}
    (h : ∀ t ∈ ts, ∀ l ∈ lines depth t, '\n' ∉ l.text.toList) :
    ∀ l ∈ itemLines depth ts, '\n' ∉ l.text.toList := by
  rw [itemLines_eq_flatMap]
  intro l hl
  obtain ⟨t, ht, hl⟩ := List.mem_flatMap.1 hl
  exact newline_notMem_trail (by decide) (h t ht) l hl

theorem newline_notMem_fieldLines {depth : Nat} {fs : List (String × Tree)}
    (hnames : ∀ f ∈ fs, '\n' ∉ f.1.toList)
    (h : ∀ f ∈ fs, ∀ l ∈ lines depth f.2, '\n' ∉ l.text.toList) :
    ∀ l ∈ fieldLines depth fs, '\n' ∉ l.text.toList := by
  induction fs with
  | nil => exact fun l hl => absurd hl List.not_mem_nil
  | cons f fs ih =>
    obtain ⟨hname, hnames⟩ := List.forall_mem_cons.1 hnames
    obtain ⟨hfirst, hrest⟩ := List.forall_mem_cons.1 h
    have hfield : ∀ l ∈ Line.lead (f.1 ++ " = ") (lines depth f.2), '\n' ∉ l.text.toList :=
      newline_notMem_lead (by simpa using hname) hfirst
    rw [fieldLines, List.forall_mem_append]
    refine ⟨?_, ih hnames hrest⟩
    split
    · exact hfield
    · exact newline_notMem_trail (by decide) hfield

theorem newline_notMem_lines {t : Tree} (h : t.Unbroken) (depth : Nat) :
    ∀ l ∈ lines depth t, '\n' ∉ l.text.toList := by
  induction t generalizing depth with
  | list items ih =>
    rcases h with - | - | - | hitems | -
    rw [lines]
    split
    · simp
    · have hinner := newline_notMem_itemLines fun t ht => ih t ht (hitems t ht) (depth + 1)
      rw [List.forall_mem_append, List.forall_mem_cons, List.forall_mem_singleton]
      exact ⟨⟨by simp, hinner⟩, by simp⟩
  | node tag fields ih =>
    have hone := newline_notMem_inline h
    rcases h with - | - | - | - | ⟨htag, hnames, hfields⟩
    rw [lines]
    split
    · exact List.forall_mem_singleton.2 hone
    · have hinner := newline_notMem_fieldLines hnames fun f hf => ih f hf (hfields f hf) (depth + 1)
      rw [List.forall_mem_append, List.forall_mem_cons, List.forall_mem_singleton]
      exact ⟨⟨by simpa using htag, hinner⟩, by simp⟩
  | _ => exact List.forall_mem_singleton.2 (newline_notMem_inline h)

end Feeds

/-- The layout further in is the layout with a margin. -/
theorem layout_add {t : Tree} (h : t.Unbroken) (depth levels : Nat) :
    t.layout (depth + levels) = shift levels (t.layout depth) := by
  have hsplit := splitOn_intercalate_render (lines_ne_nil depth t) (newline_notMem_lines h depth)
  rw [shift, layout, layout, hsplit, lines_add, List.map_map, List.map_map]
  congr 1
  refine List.map_congr_left fun l _ => ?_
  rw [Function.comp_apply, Function.comp_apply, Line.render_deeper, String.ofList_toList]

theorem layout_eq_shift {t : Tree} (h : t.Unbroken) (indent : Nat) :
    t.layout indent = shift indent (t.layout 0) := by
  rw [← layout_add h 0 indent, Nat.zero_add]

/-! ### Trees inside others -/

/-- What is around a tree that is an item of a list or a field of a node. -/
inductive Frame where
  | item (front back : List Tree)
  | field (tag : String) (front : List (String × Tree)) (name : String)
      (back : List (String × Tree))

def Frame.fill : Frame → Tree → Tree
  | item front back, t => list (front ++ t :: back)
  | field tag front name back, t => node tag (front ++ (name, t) :: back)

/-- The tree with the frames around it, the first of them outermost. -/
def inside (frames : List Frame) (t : Tree) : Tree :=
  frames.foldr Frame.fill t

section Frames

variable {t : Tree}

/-- A tree that goes on behind a text starts a line with that text. -/
theorem below_lead_lines (text : String) (depth : Nat) (t : Tree) :
    Line.below (Line.lead text (lines depth t)) =
      "\n" ++ margin depth ++ text ++ Line.body (lines depth t) := by
  obtain ⟨first, ls, h⟩ := exists_lines_cons depth t
  rw [h, Line.lead, Line.below, Line.body]
  simp only [Line.start, Line.blanks, margin, String.append_assoc]

theorem below_lines (depth : Nat) (t : Tree) :
    Line.below (lines depth t) = "\n" ++ margin depth ++ Line.body (lines depth t) := by
  obtain ⟨first, ls, h⟩ := exists_lines_cons depth t
  rw [h, Line.below, Line.body]
  rfl

theorem itemLines_append (depth : Nat) (ts us : List Tree) :
    itemLines depth (ts ++ us) = itemLines depth ts ++ itemLines depth us := by
  simp only [itemLines_eq_flatMap, List.flatMap_append]

/-- Fields with more of them behind all end with a comma. -/
theorem fieldLines_append {gs : List (String × Tree)} (h : gs ≠ []) (depth : Nat)
    (fs : List (String × Tree)) :
    fieldLines depth (fs ++ gs) =
      (fs.flatMap fun f => Line.trail "," (Line.lead (f.1 ++ " = ") (lines depth f.2))) ++
        fieldLines depth gs := by
  induction fs with
  | nil => rfl
  | cons f fs ih =>
    have hmore : (fs ++ gs).isEmpty = false := by simp [h]
    rw [List.cons_append, fieldLines, hmore, ih, List.flatMap_cons, List.append_assoc]
    rfl

theorem fitsLine_eq_false (ht : t.isScalar = false) (front : List (String × Tree)) (name : String)
    (back : List (String × Tree)) : fitsLine (front ++ (name, t) :: back) = false := by
  rcases front with - | ⟨f, - | ⟨g, front⟩⟩
  · cases back with
    | nil => exact ht
    | cons g back => rfl
  · rfl
  · rfl

/-- A frame has the same text around all trees but the scalars, which may stay on its line. -/
theorem exists_body_fill (f : Frame) (depth : Nat) :
    ∃ front back, ∀ t : Tree, t.isScalar = false →
      Line.body (lines depth (f.fill t)) =
        front ++ Line.body (lines (depth + 1) t) ++ back := by
  cases f with
  | item before behind =>
    refine ⟨"[" ++ Line.below (itemLines (depth + 1) before) ++ "\n" ++ margin (depth + 1),
      "," ++ Line.below (itemLines (depth + 1) behind) ++ Line.below [⟨depth, "]"⟩], fun t _ => ?_⟩
    have hitems : (before ++ t :: behind).isEmpty = false := by simp
    have hcomma := Line.below_trail (lines_ne_nil (depth + 1) t) ","
    rw [Frame.fill, lines, hitems, if_neg Bool.false_ne_true, itemLines_append, itemLines]
    simp only [List.cons_append, Line.body, Line.below_append, hcomma, below_lines,
      String.append_assoc]
  | field tag before name behind =>
    refine ⟨tag ++ " \x7b" ++ Line.below (before.flatMap fun f =>
          Line.trail "," (Line.lead (f.1 ++ " = ") (lines (depth + 1) f.2))) ++ "\n" ++
        margin (depth + 1) ++ name ++ " = ",
      (if behind.isEmpty then "" else ",") ++ Line.below (fieldLines (depth + 1) behind) ++
        Line.below [⟨depth, "\x7d"⟩], fun t ht => ?_⟩
    have hlead := Line.lead_ne_nil (lines_ne_nil (depth + 1) t) (name ++ " = ")
    rw [Frame.fill, lines, fitsLine_eq_false ht, if_neg Bool.false_ne_true,
      fieldLines_append (List.cons_ne_nil _ _), fieldLines]
    split
    · simp only [List.cons_append, Line.body, Line.below_append, below_lead_lines,
        String.append_assoc, String.empty_append]
    · simp only [List.cons_append, Line.body, Line.below_append, Line.below_trail hlead,
        below_lead_lines, String.append_assoc]

theorem isScalar_inside (ht : t.isScalar = false) (frames : List Frame) :
    (inside frames t).isScalar = false := by
  rcases frames with - | ⟨f, frames⟩
  · exact ht
  · cases f with
    | item front back => rfl
    | field tag front name back => rfl

theorem exists_body_inside (frames : List Frame) (depth : Nat) :
    ∃ front back, ∀ t : Tree, t.isScalar = false →
      Line.body (lines depth (inside frames t)) =
        front ++ Line.body (lines (depth + frames.length) t) ++ back := by
  induction frames generalizing depth with
  | nil => exact ⟨"", "", fun t _ => by simp [inside]⟩
  | cons f frames ih =>
    obtain ⟨outerFront, outerBack, houter⟩ := exists_body_fill f depth
    obtain ⟨front, back, hinner⟩ := ih (depth + 1)
    refine ⟨outerFront ++ front, back ++ outerBack, fun t ht => ?_⟩
    have hdepth : depth + 1 + frames.length = depth + (f :: frames).length := by
      rw [List.length_cons, Nat.add_assoc, Nat.add_comm 1]
    have houter := houter (inside frames t) (isScalar_inside ht frames)
    rw [hinner t ht, hdepth] at houter
    exact houter.trans (by simp only [String.append_assoc])

theorem rise_le_riseItems {ts : List Tree} (h : t ∈ ts) : t.rise ≤ riseItems ts := by
  induction ts with
  | nil => exact absurd h List.not_mem_nil
  | cons u ts ih =>
    rw [riseItems]
    rcases List.mem_cons.1 h with rfl | h
    · exact Nat.le_max_left _ _
    · exact (ih h).trans (Nat.le_max_right _ _)

theorem rise_le_riseFields {fs : List (String × Tree)} {name : String} (h : (name, t) ∈ fs) :
    t.rise ≤ riseFields fs := by
  induction fs with
  | nil => exact absurd h List.not_mem_nil
  | cons f fs ih =>
    rw [riseFields]
    rcases List.mem_cons.1 h with rfl | h
    · exact Nat.le_max_left _ _
    · exact (ih h).trans (Nat.le_max_right _ _)

theorem rise_lt_rise_fill (ht : t.isScalar = false) (f : Frame) : t.rise < (f.fill t).rise := by
  cases f with
  | item front back =>
    have hitems : (front ++ t :: back).isEmpty = false := by simp
    rw [Frame.fill, rise, hitems, if_neg Bool.false_ne_true]
    exact Nat.lt_succ_of_le (rise_le_riseItems (by simp))
  | field tag front name back =>
    rw [Frame.fill, rise, fitsLine_eq_false ht, if_neg Bool.false_ne_true]
    exact Nat.lt_succ_of_le (rise_le_riseFields (List.mem_append_right front List.mem_cons_self))

theorem rise_le_rise_inside (ht : t.isScalar = false) (frames : List Frame) :
    t.rise ≤ (inside frames t).rise := by
  induction frames with
  | nil => exact Nat.le_refl _
  | cons f frames ih => exact ih.trans (rise_lt_rise_fill (isScalar_inside ht frames) f).le

end Frames

/-- A layout is the lines behind the margin of the first. -/
theorem layout_eq_body (t : Tree) (indent : Nat) :
    t.layout indent = margin indent ++ Line.body (lines indent t) := by
  obtain ⟨first, ls, h⟩ := exists_lines_cons indent t
  rw [layout, h, Line.intercalate_render]
  rfl

theorem hanging_layout {t : Tree} (h : t.Unbroken) (levels : Nat) :
    hanging levels (t.layout 0) = Line.body (lines levels t) := by
  have hmargin : (margin levels).toList.length = 2 * levels := by simp [margin]
  rw [hanging, ← layout_eq_shift h, layout_eq_body, String.toList_append, List.drop_left' hmargin,
    String.ofList_toList]

theorem checkedLayout_eq_ok_iff {t : Tree} {indent : Nat} {text : String} :
    t.checkedLayout indent = .ok text ↔
      2 * (indent + t.rise) ≤ maxBlanks ∧ t.layout indent = text := by
  rw [checkedLayout_eq]
  split
  · next hwithin => simp [hwithin]
  · next hwide => simp [hwide]

/-- Wherever a layout is not too wide, it is the layout without an indent, with a margin. And in every
layout a list or a node inside others stands as it does alone, with as many levels of margin more as
there are others around it, but for the first of its lines: what is around it does not depend on it. -/
theorem checkedLayout_shift (indent : Nat) :
    (∀ t : Tree, t.Unbroken →
      (2 * (indent + t.rise) ≤ maxBlanks →
        ∃ text, t.checkedLayout 0 = .ok text ∧ t.checkedLayout indent = .ok (shift indent text)) ∧
      (maxBlanks < 2 * (indent + t.rise) → t.checkedLayout indent = .error .indentTooWide)) ∧
    ∀ frames, ∃ front back, ∀ t : Tree, t.Unbroken → t.isScalar = false →
      ∀ whole, (inside frames t).checkedLayout indent = .ok whole →
        ∃ alone, t.checkedLayout 0 = .ok alone ∧
          whole = front ++ hanging (indent + frames.length) alone ++ back := by
  refine ⟨fun t h => ⟨fun hwithin => ?_, fun hwide => ?_⟩, fun frames => ?_⟩
  · have halone : 2 * (0 + t.rise) ≤ maxBlanks := by omega
    exact ⟨_, checkedLayout_eq_ok_iff.2 ⟨halone, rfl⟩,
      checkedLayout_eq_ok_iff.2 ⟨hwithin, layout_eq_shift h indent⟩⟩
  · rw [checkedLayout_eq, if_neg (Nat.not_le_of_lt hwide)]
  · obtain ⟨front, back, haround⟩ := exists_body_inside frames indent
    refine ⟨margin indent ++ front, back, fun t h ht whole hwhole => ?_⟩
    obtain ⟨hwithin, rfl⟩ := checkedLayout_eq_ok_iff.1 hwhole
    have hrise := rise_le_rise_inside ht frames
    have halone : 2 * (0 + t.rise) ≤ maxBlanks := by omega
    refine ⟨_, checkedLayout_eq_ok_iff.2 ⟨halone, rfl⟩, ?_⟩
    rw [hanging_layout h, layout_eq_body, haround t ht]
    simp only [String.append_assoc]

/-- A node of two lines of fields. -/
def twoFields : Tree :=
  node "Pair" [("left", str "a, ["), ("right", value "")]

/-- An item of a list in a field, each with something in front of it. -/
def fieldOfItems : List Frame :=
  [.field "Top" [("id", null)] "rows" [], .item [list []] [null]]

theorem unbroken_twoFields : twoFields.Unbroken := by
  refine .node (by decide) (by decide) ?_
  simpa using ⟨.str (by decide), .value (by decide)⟩

theorem checkedLayout_shift_twoFields :
    twoFields.Unbroken ∧ twoFields.isScalar = false ∧
    (2 * (3 + twoFields.rise) ≤ maxBlanks ∧
      ∃ text, twoFields.checkedLayout 0 = .ok text ∧
        twoFields.checkedLayout 3 = .ok (shift 3 text)) ∧
    (maxBlanks < 2 * (32767 + twoFields.rise) ∧
      twoFields.checkedLayout 32767 = .error .indentTooWide) ∧
    ∃ front back whole alone, (inside fieldOfItems twoFields).checkedLayout 3 = .ok whole ∧
      twoFields.checkedLayout 0 = .ok alone ∧ whole = front ++ hanging 5 alone ++ back := by
  have hunbroken := unbroken_twoFields
  have hnarrow : 2 * (3 + twoFields.rise) ≤ maxBlanks := by decide
  have hwide : maxBlanks < 2 * (32767 + twoFields.rise) := by decide
  have hwhole : (inside fieldOfItems twoFields).checkedLayout 3 =
      .ok ((inside fieldOfItems twoFields).layout 3) :=
    checkedLayout_eq_ok_iff.2 ⟨by decide, rfl⟩
  obtain ⟨front, back, haround⟩ := (checkedLayout_shift 3).2 fieldOfItems
  obtain ⟨alone, halone, hsame⟩ := haround twoFields hunbroken rfl _ hwhole
  exact ⟨hunbroken, rfl, ⟨hnarrow, ((checkedLayout_shift 3).1 twoFields hunbroken).1 hnarrow⟩,
    ⟨hwide, ((checkedLayout_shift 32767).1 twoFields hunbroken).2 hwide⟩,
    front, back, _, alone, hwhole, halone, hsame⟩

/-- The node has a layout, but with an indent for which its first line still has room and its second
does not, it has none. -/
theorem not_shifted_wide :
    twoFields.Unbroken ∧
    ∃ text, twoFields.checkedLayout 0 = .ok text ∧
      twoFields.checkedLayout 32767 ≠ .ok (shift 32767 text) := by
  have hwide : twoFields.checkedLayout 32767 = .error .indentTooWide := rfl
  refine ⟨unbroken_twoFields, twoFields.layout 0, rfl, ?_⟩
  rw [hwide]
  exact nofun

end FrontEnd.Tree
