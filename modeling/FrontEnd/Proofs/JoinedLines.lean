import FrontEnd.Proofs.TreeText

/-! The lines of a layout put together again. Lines are joined from the left, and what is joined so
far decides how the next line goes on: so the lines of a part can be joined to whatever stands in
front of the part, and there they give the text of the part on one line. -/

namespace FrontEnd.Tree

def dropComma (text : List Char) : List Char :=
  if text.getLast? = some ',' then text.dropLast else text

/-- The text as something goes on behind it: with a blank, but for an opening bracket. -/
def spaced (text : List Char) : List Char :=
  if text.getLast? = some '[' then text else text ++ [' ']

/-- The text as the line goes on behind it: a closing bracket takes away a comma in front of it. -/
def before (line text : List Char) : List Char :=
  if line.head? = some ']' then dropComma text else spaced text

def joinLines : List (List Char) → List Char
  | [] => []
  | [line] => line
  | line :: next :: more => before next line ++ joinLines (next :: more)

/-- Nothing in the tree looks like a layout: no text goes over lines, tags and names are words (as
all identifiers are), and no value starts like an indented line or the end of a list or ends like
the start of one. -/
inductive Foldable : Tree → Prop
  | null : Foldable null
  | str {text : String} : '\n' ∉ text.toList → Foldable (str text)
  | value {text : String} : '\n' ∉ text.toList → text.toList.head? ≠ some ' ' →
      text.toList.head? ≠ some ']' → text.toList.getLast? ≠ some '[' → Foldable (value text)
  | list {items : List Tree} : (∀ t ∈ items, Foldable t) → Foldable (list items)
  | node {tag : String} {fields : List (String × Tree)} : IsWord tag.toList →
      (∀ f ∈ fields, IsWord f.1.toList) → (∀ f ∈ fields, Foldable f.2) → Foldable (node tag fields)

theorem IsWord.head?_ne {text : List Char} (h : IsWord text) {c : Char} (hc : kind c ≠ .plain)
    (rest : List Char) : (text ++ rest).head? ≠ some c := by
  obtain ⟨d, ds, rfl⟩ := List.exists_cons_of_ne_nil h.1
  rintro ⟨⟩
  exact hc (h.2 c List.mem_cons_self)

/-! ### Joining lines from the left -/

def attach (text line : List Char) : List Char :=
  before line text ++ line

def attachAll (text : List Char) (ls : List Line) : List Char :=
  ls.foldl (fun text l => attach text l.text.toList) text

section Joining

variable {front text line : List Char}

theorem spaced_bracket (text : List Char) : spaced (text ++ ['[']) = text ++ ['['] := by
  rw [spaced, List.getLast?_concat, if_pos rfl]

theorem spaced_of_getLast? (h : text.getLast? ≠ some '[') : spaced text = text ++ [' '] :=
  if_neg h

theorem getLast?_append_of_ne_nil (front : List Char) (h : text ≠ []) :
    (front ++ text).getLast? = text.getLast? := by
  rw [List.getLast?_append, List.getLast?_eq_some_getLast h, Option.some_or]

/-- A text ends with an opening bracket only if its last part does, or is empty. -/
theorem getLast?_append_ne {front text : String} (h : text.toList.getLast? ≠ some '[')
    (hfront : text.toList = [] → front.toList.getLast? ≠ some '[') :
    (front ++ text).toList.getLast? ≠ some '[' := by
  rw [String.toList_append]
  by_cases hempty : text.toList = []
  · rw [hempty, List.append_nil]
    exact hfront hempty
  · rwa [getLast?_append_of_ne_nil _ hempty]

theorem spaced_append (front : List Char) (h : text ≠ []) :
    spaced (front ++ text) = front ++ spaced text := by
  rw [spaced, spaced, getLast?_append_of_ne_nil front h]
  split
  · rfl
  · rw [List.append_assoc]

theorem dropComma_append (front : List Char) (h : text ≠ []) :
    dropComma (front ++ text) = front ++ dropComma text := by
  rw [dropComma, dropComma, getLast?_append_of_ne_nil front h, List.dropLast_append_of_ne_nil h]
  split
  · rfl
  · rfl

/-- Only the last of the lines joined so far decides how the next one goes on. -/
theorem before_append (line front : List Char) (h : text ≠ []) :
    before line (front ++ text) = front ++ before line text := by
  rw [before, before, spaced_append front h, dropComma_append front h]
  split
  · rfl
  · rfl

theorem attach_of_head? (h : line.head? ≠ some ']') (text : List Char) :
    attach text line = spaced text ++ line := by
  rw [attach, before, if_neg h]

theorem attach_bracket (text : List Char) : attach (text ++ [',']) [']'] = text ++ [']'] := by
  simp [attach, before, dropComma]

theorem attach_comma (text line : List Char) :
    attach text (line ++ [',']) = attach text line ++ [','] := by
  have hhead : (line ++ [',']).head? = some ']' ↔ line.head? = some ']' := by
    cases line with
    | nil => decide
    | cons c cs => rfl
  simp only [attach, before, hhead, List.append_assoc]

/-- Lines that are not empty can be joined from the left, behind any text. -/
theorem foldl_attach {lines : List (List Char)} (h : ∀ l ∈ line :: lines, l ≠ [])
    (front : List Char) :
    lines.foldl attach (front ++ line) = front ++ joinLines (line :: lines) := by
  induction lines generalizing front line with
  | nil => rfl
  | cons next more ih =>
    obtain ⟨hline, hmore⟩ := List.forall_mem_cons.1 h
    rw [List.foldl_cons, attach, before_append next front hline, ih hmore, joinLines,
      List.append_assoc]

end Joining

theorem attachAll_append (text : List Char) (ls ms : List Line) :
    attachAll text (ls ++ ms) = attachAll (attachAll text ls) ms :=
  List.foldl_append

theorem attachAll_trail {ls : List Line} (h : ls ≠ []) (text : List Char) :
    attachAll text (Line.trail "," ls) = attachAll text ls ++ [','] := by
  induction ls generalizing text with
  | nil => exact absurd rfl h
  | cons l ls ih =>
    cases ls with
    | nil =>
      rw [Line.trail, attachAll, List.foldl_cons, List.foldl_nil, String.toList_append]
      exact attach_comma text l.text.toList
    | cons l' ls => exact ih (List.cons_ne_nil _ _) _

/-- Behind any text, the lines are joined to this one. -/
def Joins (ls : List Line) (s : String) : Prop :=
  ∀ text, attachAll text ls = spaced text ++ s.toList

section Joins

variable {ls ms : List Line} {s s' : String}

theorem joins_one (h : s.toList.head? ≠ some ']') (depth : Nat) : Joins [⟨depth, s⟩] s :=
  attach_of_head? h

theorem Joins.comma (h : Joins ls s) (hne : ls ≠ []) : Joins (Line.trail "," ls) (s ++ ",") := by
  intro text
  rw [attachAll_trail hne, h, String.toList_append, List.append_assoc]
  rfl

theorem Joins.append (h : Joins ls s) (h' : Joins ms s') (hne : s.toList ≠ [])
    (hlast : s.toList.getLast? ≠ some '[') : Joins (ls ++ ms) (s ++ " " ++ s') := by
  intro text
  rw [attachAll_append, h, h', spaced_append _ hne, spaced_of_getLast? hlast]
  simp

/-- Behind an opening bracket lines go on without a blank. -/
theorem Joins.append_bracket (h : Joins ls (s ++ "[")) (h' : Joins ms s') :
    Joins (ls ++ ms) (s ++ "[" ++ s') := by
  intro text
  have hopen : spaced text ++ (s ++ "[").toList = spaced text ++ s.toList ++ ['['] := by simp
  rw [attachAll_append, h, h', hopen, spaced_bracket]
  simp

/-- A closing bracket takes the place of the comma in front of it. -/
theorem Joins.bracket (h : Joins ls (s ++ ",")) (depth : Nat) :
    Joins (ls ++ [⟨depth, "]"⟩]) (s ++ "]") := by
  intro text
  have hcomma : spaced text ++ (s ++ ",").toList = spaced text ++ s.toList ++ [','] := by simp
  rw [attachAll_append, h, hcomma]
  simpa [attachAll] using attach_bracket (spaced text ++ s.toList)

/-- A name in front of the first line is joined as if it were a line of its own. -/
theorem Joins.lead {l : Line} {name : String} (h : Joins (l :: ls) s)
    (hl : l.text.toList.head? ≠ some ']') (hname : IsWord name.toList) :
    Joins (Line.lead (name ++ " = ") (l :: ls)) (name ++ " = " ++ s) := by
  intro text
  have hhead : ((name ++ " = ") ++ l.text).toList.head? ≠ some ']' := by
    rw [String.toList_append, String.toList_append, List.append_assoc]
    exact hname.head?_ne (by decide) _
  have hspaced : spaced (spaced text ++ (name ++ " =").toList) =
      spaced text ++ (name ++ " = ").toList := by
    rw [spaced_of_getLast? (by simp)]
    simp
  have hlead : attach text ((name ++ " = ") ++ l.text).toList =
      attach (spaced text ++ (name ++ " =").toList) l.text.toList := by
    rw [attach_of_head? hhead, attach_of_head? hl, hspaced, List.append_assoc,
      ← String.toList_append]
  have hname := h (spaced text ++ (name ++ " =").toList)
  rw [attachAll, List.foldl_cons, ← hlead, hspaced, List.append_assoc, ← String.toList_append]
    at hname
  exact hname

end Joins

/-! ### The lines of a tree -/

section Texts

variable {t : Tree}

theorem head?_inline (h : t.Foldable) :
    t.inline.toList.head? ≠ some ']' ∧ t.inline.toList.head? ≠ some ' ' := by
  cases h with
  | null => decide
  | str _ => simp [inline]
  | value _ hblank hclose _ => exact ⟨hclose, hblank⟩
  | list _ => simp [inline]
  | @node tag fields htag _ _ =>
    have htext : ∃ more, (node tag fields).inline.toList = tag.toList ++ more := by
      rw [inline]
      split
      · exact ⟨_, String.toList_append⟩
      · exact ⟨_, by simp [String.append_assoc]; rfl⟩
    obtain ⟨more, hmore⟩ := htext
    rw [hmore]
    exact ⟨htag.head?_ne (by decide) more, htag.head?_ne (by decide) more⟩

theorem joins_inline (h : t.Foldable) (depth : Nat) : Joins [⟨depth, t.inline⟩] t.inline :=
  joins_one (head?_inline h).1 depth

theorem getLast?_inline (h : t.Foldable) : t.inline.toList.getLast? ≠ some '[' := by
  cases h with
  | null => decide
  | str _ => exact getLast?_append_ne (by decide) (by simp)
  | value _ _ _ hlast => exact hlast
  | list _ => exact getLast?_append_ne (by decide) (by simp)
  | node _ _ _ =>
    rw [inline]
    split
    · exact getLast?_append_ne (by decide) (by simp)
    · exact getLast?_append_ne (by decide) (by simp)

/-- The first line of a tree does not start with a closing bracket either. -/
theorem exists_lines_eq_cons (h : t.Foldable) (depth : Nat) :
    ∃ l ls, lines depth t = l :: ls ∧ l.text.toList.head? ≠ some ']' := by
  have hone := (head?_inline h).1
  cases h with
  | list _ =>
    rw [lines]
    split
    · exact ⟨_, _, rfl, by simp⟩
    · exact ⟨_, _, rfl, by simp⟩
  | node htag _ _ =>
    rw [lines]
    split
    · exact ⟨_, _, rfl, hone⟩
    · refine ⟨_, _, rfl, ?_⟩
      rw [String.toList_append]
      exact htag.head?_ne (by decide) _
  | _ => exact ⟨_, _, rfl, hone⟩

end Texts

theorem joins_items {depth : Nat} {ts : List Tree} (hne : ts ≠ []) (hts : ∀ t ∈ ts, t.Foldable)
    (h : ∀ t ∈ ts, Joins (lines depth t) t.inline) :
    Joins (itemLines depth ts) (", ".intercalate (inlineItems ts) ++ ",") := by
  induction ts with
  | nil => exact absurd rfl hne
  | cons t ts ih =>
    obtain ⟨ht, hts⟩ := List.forall_mem_cons.1 hts
    obtain ⟨hfirst, hrest⟩ := List.forall_mem_cons.1 h
    obtain ⟨l, ls, hls, -⟩ := exists_lines_eq_cons ht depth
    have hitem := hfirst.comma (by rw [hls]; exact List.cons_ne_nil _ _)
    cases ts with
    | nil => simpa [itemLines, inlineItems] using hitem
    | cons t' ts =>
      have hall := hitem.append (ih (List.cons_ne_nil _ _) hts hrest) (by simp)
        (getLast?_append_ne (by decide) (by simp))
      rw [itemLines, inlineItems, inlineItems, String.intercalate_cons_cons, ← inlineItems]
      simpa [String.append_assoc] using hall

theorem joins_fields {depth : Nat} {fs : List (String × Tree)} (hne : fs ≠ [])
    (hnames : ∀ f ∈ fs, IsWord f.1.toList) (hfs : ∀ f ∈ fs, f.2.Foldable)
    (h : ∀ f ∈ fs, Joins (lines depth f.2) f.2.inline) :
    Joins (fieldLines depth fs) (", ".intercalate (inlineFields fs)) := by
  induction fs with
  | nil => exact absurd rfl hne
  | cons f fs ih =>
    obtain ⟨hname, hnames⟩ := List.forall_mem_cons.1 hnames
    obtain ⟨ht, hfs⟩ := List.forall_mem_cons.1 hfs
    obtain ⟨hfirst, hrest⟩ := List.forall_mem_cons.1 h
    obtain ⟨l, ls, hls, hl⟩ := exists_lines_eq_cons ht depth
    rw [hls] at hfirst
    have hfield := hfirst.lead hl hname
    rw [fieldLines, hls]
    cases fs with
    | nil => simpa [fieldLines, inlineFields] using hfield
    | cons f' fs =>
      have hcomma := hfield.comma (List.cons_ne_nil _ _)
      have hall := hcomma.append (ih (List.cons_ne_nil _ _) hnames hfs hrest) (by simp)
        (getLast?_append_ne (by decide) (by simp))
      rw [inlineFields, inlineFields, String.intercalate_cons_cons, ← inlineFields]
      simpa [String.append_assoc] using hall

/-- The fields on one line end like the last of them. -/
theorem getLast?_inlineFields {fs : List (String × Tree)} (hfs : ∀ f ∈ fs, f.2.Foldable) :
    (", ".intercalate (inlineFields fs)).toList.getLast? ≠ some '[' := by
  induction fs with
  | nil => decide
  | cons f fs ih =>
    obtain ⟨ht, hfs⟩ := List.forall_mem_cons.1 hfs
    cases fs with
    | nil =>
      rw [inlineFields, inlineFields, String.intercalate_singleton]
      exact getLast?_append_ne (getLast?_inline ht)
        fun _ => getLast?_append_ne (by decide) (by simp)
    | cons f' fs =>
      rw [inlineFields, inlineFields, String.intercalate_cons_cons, ← inlineFields]
      exact getLast?_append_ne (ih hfs) fun _ => getLast?_append_ne (by decide) (by simp)

/-- Wherever a tree stands, its lines are joined to its text on one line. -/
theorem joins_lines {t : Tree} (h : t.Foldable) (depth : Nat) : Joins (lines depth t) t.inline := by
  induction t generalizing depth with
  | list items ih =>
    have hone := joins_inline h depth
    cases h with
    | list hitems =>
      rw [lines]
      split
      · next hempty =>
        obtain rfl := List.isEmpty_iff.1 hempty
        exact hone
      · next hne =>
        have hinner := joins_items (by simpa using hne) hitems fun t ht =>
          ih t ht (hitems t ht) (depth + 1)
        have hopen : Joins [⟨depth, "["⟩] ("" ++ "[") := joins_one (by decide) depth
        have hfront := hopen.append_bracket hinner
        rw [← String.append_assoc] at hfront
        simpa [inline] using hfront.bracket depth
  | node tag fields ih =>
    have hone := joins_inline h depth
    cases h with
    | node htag hnames hfields =>
      rw [lines]
      split
      · exact hone
      · next hfit =>
        have hne : fields ≠ [] := by
          rintro rfl
          exact hfit rfl
        have hinner := joins_fields hne hnames hfields fun f hf =>
          ih f hf (hfields f hf) (depth + 1)
        have hopen : Joins [⟨depth, tag ++ " \x7b"⟩] (tag ++ " \x7b") := by
          refine joins_one ?_ depth
          rw [String.toList_append]
          exact htag.head?_ne (by decide) _
        have hclose : Joins [⟨depth, "\x7d"⟩] "\x7d" := joins_one (by decide) depth
        have hfront := hopen.append hinner (by simp) (getLast?_append_ne (by decide) (by simp))
        have hall := hfront.append hclose (by simp) (getLast?_append_ne
          (getLast?_inlineFields hfields) fun _ => getLast?_append_ne (by decide) (by simp))
        have hempty : fields.isEmpty = false := by simpa using hne
        simpa [inline, hempty, String.append_assoc] using hall
  | _ => exact joins_inline h depth

end FrontEnd.Tree
