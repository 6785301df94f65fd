import FrontEnd.Proofs.CursorScan
import FrontEnd.Proofs.FloatText
import FrontEnd.Proofs.TreeText

/-! Trees that tell what they are the trees of. The tree of a node does if its tag tells the kind of
the node and each field tells a part of it. Names, types, operators and literals tell it by their
texts, in which nothing is escaped: names and types are made of plain characters, string literals keep
their backslashes, and the texts of different literals differ. -/

namespace FrontEnd.Tree

variable {α : Type} {P : α → Prop} {f : α → Tree}

/-- The tree of this is legible, and of all that satisfies `P` it is the tree of this only. -/
def Tells (P : α → Prop) (f : α → Tree) (a : α) : Prop :=
  P a → (f a).Legible ∧ ∀ b, P b → f a = f b → a = b

theorem Tells.congr {Q : α → Prop} {g : α → Tree} {a : α} (h : Tells P f a) (hQ : ∀ a, Q a → P a)
    (hg : ∀ a, g a = f a) : Tells Q g a := by
  intro ha
  obtain ⟨hlegible, heqs⟩ := h (hQ a ha)
  rw [hg]
  refine ⟨hlegible, fun b hb heq => ?_⟩
  rw [hg] at heq
  exact heqs b (hQ b hb) heq

/-- The same for the fields of a node. -/
def FieldsTell (P : α → Prop) (g : α → List (String × Tree)) (a : α) : Prop :=
  P a → (∀ f ∈ g a, IsWord f.1.toList ∧ f.2.Legible) ∧ ∀ b, P b → g a = g b → a = b

theorem FieldsTell.one {a : α} (name : String) (hname : IsWord name.toList) (h : Tells P f a) :
    FieldsTell P (fun a => [(name, f a)]) a := by
  intro ha
  obtain ⟨hlegible, heqs⟩ := h ha
  refine ⟨List.forall_mem_singleton.2 ⟨hname, hlegible⟩, fun b hb heq => ?_⟩
  exact heqs b hb (by simpa using heq)

theorem FieldsTell.cons {β : Type} {Q : β → Prop} {g : β → List (String × Tree)} {a : α} {b : β}
    (name : String) (hname : IsWord name.toList) (h : Tells P f a) (hrest : FieldsTell Q g b) :
    FieldsTell (fun p : α × β => P p.1 ∧ Q p.2) (fun p => (name, f p.1) :: g p.2) (a, b) := by
  rintro ⟨ha, hb⟩
  obtain ⟨hlegible, heqs⟩ := h ha
  obtain ⟨hfields, heqs'⟩ := hrest hb
  refine ⟨List.forall_mem_cons.2 ⟨⟨hname, hlegible⟩, hfields⟩, ?_⟩
  rintro ⟨a', b'⟩ ⟨ha', hb'⟩ heq
  obtain ⟨hfirst, hothers⟩ := List.cons.inj heq
  rw [heqs a' ha' (Prod.mk.inj hfirst).2, heqs' b' hb' hothers]

/-- The tree of what is made of parts: the tag tells that it is made so, and the fields tell the
parts. -/
theorem Tells.of_fields {β : Type} {Q : β → Prop} {g : β → List (String × Tree)} {a : α} {b : β}
    (tag : String) (htag : IsWord tag.toList) (make : β → α) (h : FieldsTell Q g b) (ha : a = make b)
    (htree : ∀ b, f (make b) = node tag (g b)) (hparts : ∀ b, P (make b) → Q b)
    (hkind : ∀ a', (f a').tag? = some tag → ∃ b', a' = make b') : Tells P f a := by
  subst ha
  intro hP
  obtain ⟨hfields, heqs⟩ := h (hparts b hP)
  refine ⟨?_, fun a' ha' heq => ?_⟩
  · rw [htree]
    exact .node htag (fun f hf => (hfields f hf).1) fun f hf => (hfields f hf).2
  · have htag' : (f a').tag? = some tag := by
      rw [← heq, htree]
      rfl
    obtain ⟨b', rfl⟩ := hkind a' htag'
    rw [htree, htree] at heq
    rw [heqs b' (hparts b' ha') (Tree.node.inj heq).2]

theorem Tells.list {as : List α} (h : ∀ a ∈ as, Tells P f a) :
    Tells (fun as => ∀ a ∈ as, P a) (fun as => list (as.map f)) as := by
  intro hP
  constructor
  · refine .list fun t ht => ?_
    obtain ⟨a, ha, rfl⟩ := List.mem_map.1 ht
    exact (h a ha (hP a ha)).1
  · intro bs hbs heq
    replace heq : as.map f = bs.map f := list.inj heq
    induction as generalizing bs with
    | nil => exact (List.map_eq_nil_iff.1 heq.symm).symm
    | cons a as ih =>
      cases bs with
      | nil => cases heq
      | cons b bs =>
        obtain ⟨ha, has⟩ := List.forall_mem_cons.1 h
        obtain ⟨hPa, hPas⟩ := List.forall_mem_cons.1 hP
        obtain ⟨hb, hbs⟩ := List.forall_mem_cons.1 hbs
        obtain ⟨hfirst, hrest⟩ := List.cons.inj heq
        rw [(ha hPa).2 b hb hfirst, ih has hPas bs hbs hrest]

/-- What is missing has a tree of its own. -/
theorem Tells.option {o : Option α} (hnull : ∀ a, f a ≠ null) (h : ∀ a ∈ o, Tells P f a) :
    Tells (fun o => ∀ a ∈ o, P a) (ofOption f) o := by
  intro hP
  cases o with
  | none =>
    refine ⟨.null, fun o ho heq => ?_⟩
    cases o with
    | none => rfl
    | some b => exact absurd heq.symm (hnull b)
  | some a =>
    obtain ⟨hlegible, heqs⟩ := h a rfl (hP a rfl)
    refine ⟨hlegible, fun o ho heq => ?_⟩
    cases o with
    | none => exact absurd heq (hnull a)
    | some b => rw [heqs b (ho b rfl) heq]

end FrontEnd.Tree

namespace FrontEnd.Program

open FrontEnd.Grammar FrontEnd.Number FrontEnd.Segment FrontEnd.Tree

section Texts

theorem isWordPart_of_isName {name : String} (h : IsName name) :
    ∀ c ∈ name.toList, isWordPart c = true := by
  obtain ⟨c, cs, hname, hc, hcs⟩ := h.1
  rw [hname]
  exact List.forall_mem_cons.2 ⟨CursorScan.isWordPart_of_isWordStart hc, hcs⟩

theorem escaped_of_forall {cs : List Char} (h : ∀ c ∈ cs, c ≠ '\x22' ∧ c ≠ '\\') : Escaped cs := by
  induction cs with
  | nil => exact .nil
  | cons c cs ih =>
    obtain ⟨hc, hcs⟩ := List.forall_mem_cons.1 h
    exact .plain hc.1 hc.2 (ih hcs)

theorem legible_name {name : String} (h : IsName name) : (Tree.str name).Legible := by
  refine .str (escaped_of_forall fun c hc => ?_)
  have hpart := isWordPart_of_isName h c hc
  constructor
  · rintro rfl
    exact absurd hpart (by decide)
  · rintro rfl
    exact absurd hpart (by decide)

theorem toList_typeText (type : TypeRef) :
    type.text.toList = '#' :: (type.name.toList ++ List.replicate type.pointerDepth '*') := by
  simp [TypeRef.text]

theorem legible_type {type : TypeRef} (h : IsName type.name) : (Tree.value type.text).Legible := by
  refine .value ?_ ?_
  · rw [toList_typeText]
    refine ⟨List.cons_ne_nil _ _, List.forall_mem_cons.2 ⟨by decide, ?_⟩⟩
    refine List.forall_mem_append.2 ⟨fun c hc => ?_, fun c hc => ?_⟩
    · exact kind_eq_plain (by decide) (isWordPart_of_isName h c hc)
    · rw [List.eq_of_mem_replicate hc]
      decide
  · intro hnull
    have hlist := toList_typeText type
    rw [hnull] at hlist
    cases hlist

/-- No star belongs to a name, so the stars of a type are behind its name. -/
theorem type_eq_of_text {type type' : TypeRef} (h : IsName type.name) (h' : IsName type'.name)
    (heq : type.text = type'.text) : type = type' := by
  have hrun : ∀ t : TypeRef, IsName t.name →
      (t.name.toList ++ List.replicate t.pointerDepth '*').takeWhile isWordPart = t.name.toList ∧
      (t.name.toList ++ List.replicate t.pointerDepth '*').dropWhile isWordPart =
        List.replicate t.pointerDepth '*' := by
    intro t ht
    refine takeWhile_run (isWordPart_of_isName ht) fun c hc => ?_
    rw [List.eq_of_mem_replicate (List.mem_of_mem_head? hc)]
    decide
  have hlist : type.name.toList ++ List.replicate type.pointerDepth '*' =
      type'.name.toList ++ List.replicate type'.pointerDepth '*' := by
    have hall := congrArg String.toList heq
    rw [toList_typeText, toList_typeText] at hall
    exact (List.cons.inj hall).2
  obtain ⟨htake, hdrop⟩ := hrun type h
  obtain ⟨htake', hdrop'⟩ := hrun type' h'
  rw [hlist] at htake hdrop
  have hname : type.name = type'.name := String.toList_inj.1 (htake.symm.trans htake')
  have hdepth := congrArg List.length (hdrop.symm.trans hdrop')
  rw [List.length_replicate, List.length_replicate] at hdepth
  cases type
  cases type'
  cases hname
  cases hdepth
  rfl

theorem tells_name (name : String) : Tells IsName Tree.str name :=
  fun h => ⟨legible_name h, fun _ _ heq => Tree.str.inj heq⟩

theorem tells_type (type : TypeRef) :
    Tells (fun type => IsName type.name) (fun type => .value type.text) type :=
  fun h => ⟨legible_type h, fun _ h' heq => type_eq_of_text h h' (Tree.value.inj heq)⟩

theorem tells_operator (op : Operator) : Tells (fun _ => True) (fun op => .value op.text) op := by
  have hlegible : (Tree.value op.text).Legible := by
    cases op <;> exact .value (by decide) (by decide)
  refine fun _ => ⟨hlegible, fun op' _ heq => ?_⟩
  cases op <;> cases op' <;> first | rfl | exact absurd (Tree.value.inj heq) (by decide)

theorem tells_privacy (p : Privacy) : Tells (fun _ => True) Privacy.toTree p := by
  have hlegible : p.toTree.Legible := by
    cases p <;> exact .value (by decide) (by decide)
  refine fun _ => ⟨hlegible, fun p' _ heq => ?_⟩
  cases p <;> cases p' <;> first | rfl | exact absurd (Tree.value.inj heq) (by decide)

theorem tells_static (b : Bool) : Tells (fun _ => True) staticTree b := by
  have hlegible : (staticTree b).Legible := by
    cases b <;> exact .value (by decide) (by decide)
  refine fun _ => ⟨hlegible, fun b' _ heq => ?_⟩
  cases b <;> cases b' <;> first | rfl | exact absurd (Tree.value.inj heq) (by decide)

end Texts

section Literals

/-- A literal of a double has no sign, so it is a decimal rounded. -/
theorem rounded_of_isFloatText {value : Binary64} {text : List Char} (h : IsFloatText value text) :
    value.Rounded := by
  obtain ⟨⟨⟨c, cs, rfl, hc, -⟩, -⟩, -, hread⟩ := h
  have hhead : ∀ b ∈ (c :: cs).head?, Text.isDigit b = true := by
    rintro b ⟨⟩
    exact hc
  rw [readFloat?, String.toList_ofList, unsigned_of_isDigit hhead] at hread
  exact Binary64.rounded_of_readMagnitude? (List.cons_ne_nil c cs) hhead hread

theorem isDigit_of_mem_toString {n : Int} (h : 0 ≤ n) :
    ∀ c ∈ (toString n).toList, Text.isDigit c = true := by
  obtain ⟨m, rfl⟩ := Int.eq_ofNat_of_zero_le h
  intro c hc
  rw [show (m : Int) = Int.ofNat m from rfl, toList_toString_ofNat] at hc
  exact isDigit_of_mem_toDigits hc

/-- A character that stands in no number. -/
theorem text_ne_of_mem {value : Binary64} (h : value.Rounded) {text : String} {c : Char}
    (hc : c ∈ text.toList) (hpart : Decimal.isTailPart c = false ∧ c ∉ ['i', 'n', 'f']) :
    value.text ≠ text := by
  rintro rfl
  obtain hpart' | hword := (Binary64.text_form h).1 c hc
  · exact absurd (hpart.1.symm.trans hpart') Bool.false_ne_true
  · exact hpart.2 hword

theorem toString_ne_of_mem {n : Int} (h : 0 ≤ n) {text : String} {c : Char} (hc : c ∈ text.toList)
    (hdigit : Text.isDigit c = false) : toString n ≠ text := by
  rintro rfl
  exact absurd (hdigit.symm.trans (isDigit_of_mem_toString h c hc)) Bool.false_ne_true

theorem legible_literal {value : Literal} (h : value.WellFormed) : value.toTree.Legible := by
  cases value with
  | int n =>
    have hdigit := isDigit_of_mem_toString h.1
    refine .value ⟨?_, fun c hc => kind_eq_plain (by decide) (hdigit c hc)⟩ ?_
    · intro hnil
      have hread := readSigned?_toString n
      rw [hnil] at hread
      cases hread
    · exact toString_ne_of_mem h.1 (c := 'u') (by decide) (by decide)
  | float x =>
    obtain ⟨text, htext⟩ := h
    have hx := rounded_of_isFloatText htext
    obtain ⟨hparts, c, hc, -⟩ := Binary64.text_form hx
    refine .value ⟨List.ne_nil_of_mem hc, fun c hc => ?_⟩ ?_
    · obtain hpart | hword := hparts c hc
      · exact kind_eq_plain (by decide) hpart
      · exact kind_eq_plain (p := (['i', 'n', 'f'].contains ·)) (by decide) (by simpa using hword)
    · exact text_ne_of_mem hx (c := 'u') (by decide) (by decide)
  | bool b => cases b <;> exact .value (by decide) (by decide)
  | string text => exact .str h
  | null => exact .null

/-- The literal with that text: only whole numbers are all digits. -/
def literalOf? (text : String) : Option Literal :=
  if text.toList.all Text.isDigit then (readSigned? text.toList).map .int
  else if text = "true" then some (.bool true)
  else if text = "false" then some (.bool false)
  else (readFloat? text).map .float

theorem literalOf?_int {n : Int} (h : 0 ≤ n) : literalOf? (toString n) = some (.int n) := by
  rw [literalOf?, if_pos (List.all_eq_true.2 (isDigit_of_mem_toString h)), readSigned?_toString,
    Option.map_some]

theorem literalOf?_float {x : Binary64} (h : x.Rounded) : literalOf? x.text = some (.float x) := by
  obtain ⟨-, c, hc, hdigit⟩ := Binary64.text_form h
  have hall : ¬ x.text.toList.all Text.isDigit = true := by
    intro hall
    exact absurd (hdigit.symm.trans (List.all_eq_true.1 hall c hc)) Bool.false_ne_true
  rw [literalOf?, if_neg hall, if_neg (text_ne_of_mem h (c := 't') (by decide) (by decide)),
    if_neg (text_ne_of_mem h (c := 'l') (by decide) (by decide)), Binary64.readFloat?_text h,
    Option.map_some]

theorem literalOf?_bool (b : Bool) :
    literalOf? (if b then "true" else "false") = some (.bool b) := by
  cases b <;> rfl

def literalWith? : Tree → Option Literal
  | .null => some .null
  | .str text => some (.string text)
  | .value text => literalOf? text
  | _ => none

theorem literalWith?_toTree {value : Literal} (h : value.WellFormed) :
    literalWith? value.toTree = some value := by
  cases value with
  | int n => exact literalOf?_int h.1
  | float x =>
    obtain ⟨text, htext⟩ := h
    exact literalOf?_float (rounded_of_isFloatText htext)
  | bool b => exact literalOf?_bool b
  | string text => rfl
  | null => rfl

theorem tells_literal (value : Literal) : Tells Literal.WellFormed Literal.toTree value := by
  intro h
  refine ⟨legible_literal h, fun value' h' heq => ?_⟩
  have hread := literalWith?_toTree h
  rw [heq, literalWith?_toTree h'] at hread
  exact (Option.some.inj hread).symm

end Literals

end FrontEnd.Program
