import FrontEnd.Proofs.TreePieces

/-! Both texts of a tree have the pieces of the tree, the one on a single line and the one that is
laid out over lines: they differ in gaps, of which commas are some. So a text is that of one tree
only. -/

namespace FrontEnd.Tree

open FrontEnd.Segment

/-- In front of a text that no word goes on with, the text adds these pieces. -/
def Adds (text : String) (ps : List Piece) : Prop :=
  ∀ rest qs, Apart rest → Shows rest qs → Shows (text.toList ++ rest) (ps ++ qs)

/-- The same in front of any text. -/
def Closed (text : String) (ps : List Piece) : Prop :=
  ∀ rest qs, Shows rest qs → Shows (text.toList ++ rest) (ps ++ qs)

/-- The text starts with no word. -/
def StartsApart (text : String) : Prop :=
  ∃ c cs, text.toList = c :: cs ∧ kind c ≠ .plain

section Adds

variable {text text' : String} {ps ps' : List Piece}

theorem adds_word (h : IsWord text.toList) : Adds text [.word text.toList] :=
  fun _ _ ha hs => .word h ha hs

theorem adds_quoted (h : Escaped text.toList) : Adds ("\"" ++ text ++ "\"") [.quoted text.toList] := by
  intro rest qs _ hs
  simpa using Shows.quoted h hs

theorem Closed.adds (h : Closed text ps) : Adds text ps :=
  fun rest qs _ hs => h rest qs hs

/-- A text of gaps and signs adds its signs. -/
theorem closed_signs (h : text.toList.all fun c => kind c = .gap ∨ kind c = .sign)
    (hs : (text.toList.filter (kind · = .sign)).map .sign = ps) : Closed text ps := by
  intro rest qs hrest
  subst hs
  generalize text.toList = cs at h
  induction cs with
  | nil => exact hrest
  | cons c cs ih =>
    obtain ⟨hc, hcs⟩ := Bool.and_eq_true_iff.1 (List.all_cons.symm.trans h)
    obtain hc | hc := of_decide_eq_true hc
    · rw [List.filter_cons_of_neg (by simp [hc])]
      exact .gap hc (ih hcs)
    · rw [List.filter_cons_of_pos (by simp [hc])]
      exact .sign hc (ih hcs)

theorem Closed.append (h : Closed text ps) (h' : Closed text' ps') :
    Closed (text ++ text') (ps ++ ps') := by
  intro rest qs hs
  rw [String.toList_append, List.append_assoc, List.append_assoc]
  exact h _ _ (h' _ _ hs)

theorem Closed.append_adds (h : Closed text ps) (h' : Adds text' ps') :
    Adds (text ++ text') (ps ++ ps') := by
  intro rest qs ha hs
  rw [String.toList_append, List.append_assoc, List.append_assoc]
  exact h _ _ (h' _ _ ha hs)

theorem Adds.append_closed (h : Adds text ps) (h' : Closed text' ps') (hstart : StartsApart text') :
    Closed (text ++ text') (ps ++ ps') := by
  intro rest qs hs
  rw [String.toList_append, List.append_assoc, List.append_assoc]
  refine h _ _ ?_ (h' _ _ hs)
  obtain ⟨c, cs, hc, hkind⟩ := hstart
  rw [hc]
  rintro c ⟨⟩
  exact hkind

theorem Adds.shows (h : Adds text ps) : Shows text.toList ps := by
  have happly := h [] [] (by simp [Apart]) .nil
  rwa [List.append_nil, List.append_nil] at happly

theorem closed_comma : Closed ", " [] :=
  closed_signs (by decide) (by decide)

theorem adds_intercalate {α : Type} {f : α → String} {p : α → List Piece} {as : List α}
    (h : ∀ a ∈ as, Adds (f a) (p a)) : Adds (", ".intercalate (as.map f)) (as.flatMap p) := by
  induction as with
  | nil => exact fun _ _ _ hs => hs
  | cons a as ih =>
    obtain ⟨hfirst, hrest⟩ := List.forall_mem_cons.1 h
    cases as with
    | nil => simpa using hfirst
    | cons b as =>
      rw [List.map_cons, List.map_cons, String.intercalate_cons_cons, List.flatMap_cons]
      have hcomma := hfirst.append_closed closed_comma ⟨',', [' '], by decide, by decide⟩
      rw [List.append_nil] at hcomma
      exact hcomma.append_adds (ih hrest)

end Adds

/-- What stands in front of the value of a field. -/
theorem closed_name {name : String} (h : IsWord name.toList) :
    Closed (name ++ " = ") [.word name.toList, .sign '='] :=
  (adds_word h).append_closed (closed_signs (by decide) (by decide)) ⟨' ', _, rfl, by decide⟩

theorem adds_field {name : String} {t : Tree} (hname : IsWord name.toList)
    (ht : Adds t.inline t.pieces) :
    Adds (name ++ " = " ++ t.inline) ([.word name.toList, .sign '='] ++ t.pieces) :=
  (closed_name hname).append_adds ht

/-- The text on one line has the pieces of the tree. -/
theorem adds_inline {t : Tree} (h : t.Legible) : Adds t.inline t.pieces := by
  induction t with
  | null => exact adds_word (by decide)
  | str text =>
    cases h with
    | str he => exact adds_quoted he
  | value text =>
    cases h with
    | value hw _ => exact adds_word hw
  | list items ih =>
    cases h with
    | list hitems =>
      have hopen : Closed "[" [.sign '['] := closed_signs (by decide) (by decide)
      have hclose : Closed "]" [.sign ']'] := closed_signs (by decide) (by decide)
      have hinner := adds_intercalate fun t ht => ih t ht (hitems t ht)
      rw [inline, inlineItems_eq_map, pieces, itemPieces_eq_flatMap]
      exact ((hopen.append_adds hinner).append_closed hclose ⟨']', [], rfl, by decide⟩).adds
  | node tag fields ih =>
    cases h with
    | node htag hnames hfields =>
      rw [inline, inlineFields_eq_map, pieces, fieldPieces_eq_flatMap]
      split
      · next hempty =>
        obtain rfl := List.isEmpty_iff.1 hempty
        have hsigns : Closed " \x7b\x7d" [.sign '\x7b', .sign '\x7d'] :=
          closed_signs (by decide) (by decide)
        exact ((adds_word htag).append_closed hsigns ⟨' ', _, rfl, by decide⟩).adds
      · have hopen : Closed " \x7b " [.sign '\x7b'] := closed_signs (by decide) (by decide)
        have hclose : Closed " \x7d" [.sign '\x7d'] := closed_signs (by decide) (by decide)
        have hinner := adds_intercalate fun f hf =>
          adds_field (hnames f hf) (ih f hf (hfields f hf))
        have hstart := (adds_word htag).append_closed hopen ⟨' ', _, rfl, by decide⟩
        exact ((hstart.append_adds hinner).append_closed hclose ⟨' ', _, rfl, by decide⟩).adds

namespace Line

/-- What starts a line: a line feed and the blanks in front of its text. -/
def start (l : Line) : String :=
  "\n" ++ String.ofList (List.replicate l.blanks ' ')

def below : List Line → String
  | [] => ""
  | l :: ls => l.start ++ (l.text ++ below ls)

def body : List Line → String
  | [] => ""
  | l :: ls => l.text ++ below ls

variable {ls : List Line}

theorem below_append (ls ls' : List Line) : below (ls ++ ls') = below ls ++ below ls' := by
  induction ls with
  | nil => simp [below]
  | cons l ls ih => rw [List.cons_append, below, below, ih, String.append_assoc, String.append_assoc]

theorem body_append (h : ls ≠ []) (ls' : List Line) : body (ls ++ ls') = body ls ++ below ls' := by
  obtain ⟨l, ls, rfl⟩ := List.exists_cons_of_ne_nil h
  rw [List.cons_append, body, body, below_append, String.append_assoc]

theorem lead_ne_nil (h : ls ≠ []) (text : String) : lead text ls ≠ [] := by
  obtain ⟨l, ls, rfl⟩ := List.exists_cons_of_ne_nil h
  exact List.cons_ne_nil _ _

theorem body_lead (h : ls ≠ []) (text : String) : body (lead text ls) = text ++ body ls := by
  obtain ⟨l, ls, rfl⟩ := List.exists_cons_of_ne_nil h
  rw [lead, body, body, String.append_assoc]

theorem below_trail (h : ls ≠ []) (text : String) : below (trail text ls) = below ls ++ text := by
  induction ls with
  | nil => exact absurd rfl h
  | cons l ls ih =>
    cases ls with
    | nil => simp [trail, below, start, blanks, String.append_assoc]
    | cons l' ls =>
      rw [trail, below, below, ih (by simp), String.append_assoc, String.append_assoc]
      simp

theorem body_trail (h : ls ≠ []) (text : String) : body (trail text ls) = body ls ++ text := by
  obtain ⟨l, ls, rfl⟩ := List.exists_cons_of_ne_nil h
  cases ls with
  | nil => simp [trail, body, below]
  | cons l' ls =>
    rw [trail, body, body, below_trail (by simp), String.append_assoc]
    simp

theorem trail_ne_nil (h : ls ≠ []) (text : String) : trail text ls ≠ [] := by
  obtain ⟨l, ls, rfl⟩ := List.exists_cons_of_ne_nil h
  cases ls with
  | nil => simp [trail]
  | cons l' ls => simp [trail]

/-- Lines with line feeds between them start with the blanks of the first. -/
theorem intercalate_render (l : Line) (ls : List Line) :
    "\n".intercalate ((l :: ls).map render) =
      String.ofList (List.replicate l.blanks ' ') ++ body (l :: ls) := by
  induction ls generalizing l with
  | nil => simp [render, body, below]
  | cons l' ls ih =>
    rw [List.map_cons, List.map_cons, String.intercalate_cons_cons, ← List.map_cons, ih]
    simp [render, body, below, start, String.append_assoc]

end Line

def AddsLines (ls : List Line) (ps : List Piece) : Prop :=
  ls ≠ [] ∧ Adds (Line.body ls) ps

section AddsLines

variable {ls ls' : List Line} {ps ps' : List Piece}

theorem closed_blanks (n : Nat) : Closed (String.ofList (List.replicate n ' ')) [] := by
  refine closed_signs (List.all_eq_true.2 fun c hc => ?_) ?_
  · rw [String.toList_ofList] at hc
    rw [List.eq_of_mem_replicate hc]
    decide
  · rw [String.toList_ofList, List.filter_replicate]
    rfl

theorem closed_start (l : Line) : Closed l.start [] := by
  have hfeed : Closed "\n" [] := closed_signs (by decide) (by decide)
  exact hfeed.append (closed_blanks _)

theorem addsLines_one {text : String} (h : Adds text ps) (depth : Nat) :
    AddsLines [⟨depth, text⟩] ps := by
  refine ⟨List.cons_ne_nil _ _, ?_⟩
  rwa [Line.body, Line.below, String.append_empty]

theorem AddsLines.lead {text : String} (h : AddsLines ls ps) (ht : Closed text ps') :
    AddsLines (Line.lead text ls) (ps' ++ ps) := by
  refine ⟨Line.lead_ne_nil h.1 text, ?_⟩
  rw [Line.body_lead h.1]
  exact ht.append_adds h.2

/-- A comma behind the last line adds nothing. -/
theorem AddsLines.comma (h : AddsLines ls ps) : AddsLines (Line.trail "," ls) ps := by
  have hcomma : Closed "," [] := closed_signs (by decide) (by decide)
  have hall := h.2.append_closed hcomma ⟨',', [], rfl, by decide⟩
  refine ⟨Line.trail_ne_nil h.1 ",", ?_⟩
  rw [List.append_nil] at hall
  rw [Line.body_trail h.1]
  exact hall.adds

theorem AddsLines.append (h : AddsLines ls ps) (h' : AddsLines ls' ps') :
    AddsLines (ls ++ ls') (ps ++ ps') := by
  obtain ⟨hne', hadds'⟩ := h'
  obtain ⟨l, ls', rfl⟩ := List.exists_cons_of_ne_nil hne'
  have hstart : l.start.toList = '\n' :: List.replicate l.blanks ' ' := by simp [Line.start]
  have hbreak := h.2.append_closed (closed_start l) ⟨'\n', _, hstart, by decide⟩
  rw [List.append_nil] at hbreak
  refine ⟨List.append_ne_nil_of_left_ne_nil h.1 _, ?_⟩
  rw [Line.body_append h.1, Line.below, ← Line.body, ← String.append_assoc]
  exact hbreak.append_adds hadds'

end AddsLines

theorem addsLines_items {depth : Nat} {ts : List Tree} (hne : ts ≠ [])
    (h : ∀ t ∈ ts, AddsLines (lines depth t) t.pieces) :
    AddsLines (itemLines depth ts) (itemPieces ts) := by
  induction ts with
  | nil => exact absurd rfl hne
  | cons t ts ih =>
    obtain ⟨hfirst, hrest⟩ := List.forall_mem_cons.1 h
    rw [itemLines, itemPieces]
    cases ts with
    | nil => simpa [itemLines, itemPieces] using hfirst.comma
    | cons t' ts => exact hfirst.comma.append (ih (List.cons_ne_nil _ _) hrest)

theorem addsLines_fields {depth : Nat} {fs : List (String × Tree)} (hne : fs ≠ [])
    (hnames : ∀ f ∈ fs, IsWord f.1.toList)
    (h : ∀ f ∈ fs, AddsLines (lines depth f.2) f.2.pieces) :
    AddsLines (fieldLines depth fs) (fieldPieces fs) := by
  induction fs with
  | nil => exact absurd rfl hne
  | cons f fs ih =>
    obtain ⟨hname, hnames⟩ := List.forall_mem_cons.1 hnames
    obtain ⟨hfirst, hrest⟩ := List.forall_mem_cons.1 h
    have hfield := hfirst.lead (closed_name hname)
    rw [fieldLines, fieldPieces]
    cases fs with
    | nil => simpa [fieldLines, fieldPieces] using hfield
    | cons f' fs =>
      have hall := hfield.comma.append (ih (List.cons_ne_nil _ _) hnames hrest)
      simpa using hall

/-- The lines of a tree have its pieces. -/
theorem addsLines_lines {t : Tree} (h : t.Legible) (depth : Nat) :
    AddsLines (lines depth t) t.pieces := by
  induction t generalizing depth with
  | null => exact addsLines_one (adds_inline h) depth
  | str text => exact addsLines_one (adds_inline h) depth
  | value text => exact addsLines_one (adds_inline h) depth
  | list items ih =>
    have hinline := adds_inline h
    cases h with
    | list hitems =>
      rw [lines]
      split
      · next hempty =>
        obtain rfl := List.isEmpty_iff.1 hempty
        exact addsLines_one hinline depth
      · next hne =>
        have hopen : Closed "[" [.sign '['] := closed_signs (by decide) (by decide)
        have hclose : Closed "]" [.sign ']'] := closed_signs (by decide) (by decide)
        have hinner := addsLines_items (by simpa using hne)
          fun t ht => ih t ht (hitems t ht) (depth + 1)
        exact ((addsLines_one hopen.adds depth).append hinner).append
          (addsLines_one hclose.adds depth)
  | node tag fields ih =>
    have hinline := adds_inline h
    cases h with
    | node htag hnames hfields =>
      rw [lines]
      split
      · exact addsLines_one hinline depth
      · next hfit =>
        have hne : fields ≠ [] := by
          rintro rfl
          exact hfit rfl
        have hopen : Closed " \x7b" [.sign '\x7b'] := closed_signs (by decide) (by decide)
        have hclose : Closed "\x7d" [.sign '\x7d'] := closed_signs (by decide) (by decide)
        have hstart := (adds_word htag).append_closed hopen ⟨' ', _, rfl, by decide⟩
        have hinner := addsLines_fields hne hnames
          fun f hf => ih f hf (hfields f hf) (depth + 1)
        exact ((addsLines_one hstart.adds depth).append hinner).append
          (addsLines_one hclose.adds depth)

theorem shows_layout {t : Tree} (h : t.Legible) (indent : Nat) :
    Shows (t.layout indent).toList t.pieces := by
  obtain ⟨hne, hadds⟩ := addsLines_lines h indent
  rw [layout]
  obtain ⟨l, ls, hls⟩ := List.exists_cons_of_ne_nil hne
  rw [hls] at hadds ⊢
  rw [Line.intercalate_render]
  exact ((closed_blanks _).append_adds hadds).shows

/-- Whatever the layout, the text of a tree has the pieces of the tree. -/
theorem shows_render {t : Tree} (h : t.Legible) {indent : Option Nat} {text : String}
    (ht : t.render indent = .ok text) : Shows text.toList t.pieces := by
  cases indent with
  | none =>
    cases ht
    exact (adds_inline h).shows
  | some indent =>
    rw [render, checkedLayout] at ht
    split at ht
    · cases ht
      exact shows_layout h indent
    · cases ht

/-- A text is that of one legible tree only, in whatever layout. -/
theorem eq_of_render {t t' : Tree} (h : t.Legible) (h' : t'.Legible) {indent indent' : Option Nat}
    {text : String} (ht : t.render indent = .ok text) (ht' : t'.render indent' = .ok text) :
    t = t' := by
  have hpieces : t.pieces = t'.pieces := (shows_render h ht).unique (shows_render h' ht')
  have hend : NoFields [] := by simp [NoFields]
  exact (decodable h t' [] [] h' hend hend (by rw [hpieces])).1

end FrontEnd.Tree
