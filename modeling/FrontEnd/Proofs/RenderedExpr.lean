import FrontEnd.Proofs.Rendering
import FrontEnd.Proofs.Scanning
import FrontEnd.Proofs.ScriptGrammar
import Mathlib.Data.List.Forall2

/-! Expressions that are written have derivations. Whatever tokens the lexemes of a well-formed
expression stand for, they are those of a derivation that stands for the expression and is nested as
deep as the writing says. The induction is on the expression, which first has a derivation in its own
layer and is then put into a place of any layer, with parentheses around it or not. -/

namespace FrontEnd.Grammar

open FrontEnd.Parse FrontEnd.Parser FrontEnd.Program FrontEnd.Segment

/-- The tokens are those that the lexemes stand for, wherever they are. -/
def Writing.Spells (w : Writing) (ts : List Token) : Prop :=
  List.Forall₂ (fun s t => ∃ offset, Stands offset s t) w.lexemes ts

section Spells

variable {v w : Writing} {ts : List Token}

theorem spells_append (h : (v ++ w).Spells ts) :
    ∃ us vs, ts = us ++ vs ∧ v.Spells us ∧ w.Spells vs := by
  unfold Writing.Spells at *
  rw [Writing.lexemes_append] at h
  generalize v.lexemes = ss at h ⊢
  induction ss generalizing ts with
  | nil => exact ⟨[], ts, rfl, .nil, h⟩
  | cons s ss ih =>
    cases h with
    | cons ht hts =>
      obtain ⟨us, vs, rfl, hu, hv⟩ := ih hts
      exact ⟨_ :: us, vs, rfl, .cons ht hu, hv⟩

theorem spells_nothing (h : Writing.nothing.Spells ts) : ts = [] := by
  cases h
  rfl

theorem spells_one {s : Segment} (h : (Writing.one s).Spells ts) :
    ∃ t offset, ts = [t] ∧ Stands offset s t := by
  cases h with
  | cons ht hts =>
    cases hts
    obtain ⟨offset, ht⟩ := ht
    exact ⟨_, offset, rfl, ht⟩

theorem spells_symbol {s : Symbol} (h : (Writing.symbol s).Spells ts) :
    ∃ mark : Mark s, ts = [mark.1] := by
  obtain ⟨t, offset, rfl, ht⟩ := spells_one h
  cases ht
  exact ⟨⟨_, rfl⟩, rfl⟩

/-- A word stands for the keyword with its spelling, or else for a name. -/
theorem stands_word_cases {text : List Char} {offset : Nat} {t : Token}
    (h : Stands offset (.word text) t) :
    (∃ k : Keyword, k.text.toList = text ∧ t.kind = .keyword k) ∨
    ((∀ k : Keyword, k.text.toList ≠ text) ∧ t.kind = .name ∧ t.text = String.ofList text) := by
  generalize hs : Segment.word text = s at h
  cases h with
  | keyword k =>
    cases hs
    exact .inl ⟨k, rfl, rfl⟩
  | name hk =>
    cases hs
    exact .inr ⟨hk, rfl, rfl⟩
  | _ => cases hs

theorem keyword_eq_of_toList_eq {k k' : Keyword} (h : k.text.toList = k'.text.toList) : k = k' := by
  have htext : k.text = k'.text := String.toList_inj.1 h
  have hk := Keyword.ofText?_eq_some_iff.2 htext
  have hk' := Keyword.ofText?_eq_some_iff.2 (rfl : k'.text = k'.text)
  exact Option.some.inj (hk.symm.trans hk')

theorem spells_keyword {k : Keyword} (h : (Writing.keyword k).Spells ts) :
    ∃ mark : TokenOf (.keyword k), ts = [mark.1] := by
  obtain ⟨t, offset, rfl, hs⟩ := spells_one h
  obtain ⟨k', hk, ht⟩ | ⟨hk, -, -⟩ := stands_word_cases hs
  · obtain rfl := keyword_eq_of_toList_eq hk
    exact ⟨⟨t, ht⟩, rfl⟩
  · exact absurd rfl (hk k)

theorem spells_name {text : String} (hn : IsName text) (h : (Writing.name text).Spells ts) :
    ∃ name : TokenOf .name, ts = [name.1] ∧ name.1.text = text := by
  obtain ⟨t, offset, rfl, ht⟩ := spells_one h
  obtain ⟨k, hk, -⟩ | ⟨-, ht, htext⟩ := stands_word_cases ht
  · exact absurd hk (hn.2 k)
  · exact ⟨⟨t, ht⟩, rfl, by rw [htext, String.ofList_toList]⟩

theorem spells_parens (h : w.parens.Spells ts) :
    ∃ (opening : Mark .openParen) (us : List Token) (closing : Mark .closeParen),
      ts = opening.1 :: us ++ [closing.1] ∧ w.Spells us := by
  obtain ⟨us, vs, rfl, hu, hv⟩ := spells_append h
  obtain ⟨os, ws, rfl, ho, hw⟩ := spells_append hu
  obtain ⟨opening, rfl⟩ := spells_symbol ho
  obtain ⟨closing, rfl⟩ := spells_symbol hv
  exact ⟨opening, ws, closing, rfl, hw⟩

end Spells

theorem isDigit_of_mem_toDigits {n : Nat} {c : Char} (h : c ∈ Nat.toDigits 10 n) :
    Text.isDigit c = true := by
  have hd := Nat.isDigit_of_mem_toDigits (by decide) (Nat.le_refl _) h
  simp only [Char.isDigit, ge_iff_le, Bool.and_eq_true, decide_eq_true_eq, UInt32.le_iff_toNat_le]
    at hd
  exact isDigit_iff.2 hd

theorem not_dot_mem_toDigits (n : Nat) : '.' ∉ Nat.toDigits 10 n :=
  fun h => absurd (isDigit_of_mem_toDigits h) (by decide)

/-- A sign is no digit. -/
theorem unsigned_of_isDigit {cs : List Char} (h : ∀ c ∈ cs.head?, Text.isDigit c = true) :
    Number.unsigned cs = (false, cs) := by
  unfold Number.unsigned
  split
  · exact absurd (h '-' rfl) (by decide)
  · exact absurd (h '+' rfl) (by decide)
  · rfl

theorem readNat?_toDigits (n : Nat) : Number.readNat? (Nat.toDigits 10 n) = some n := by
  have hdigit : ∀ c ∈ Nat.toDigits 10 n, Text.isDigit c = true :=
    fun c hc => isDigit_of_mem_toDigits hc
  rw [Number.readNat?, if_pos ⟨Nat.toDigits_ne_nil, List.all_eq_true.2 hdigit⟩]
  exact congrArg some Nat.ofDigitChars_ten_toDigits

/-- The digits of a number that fits are read back as the number. -/
theorem readInt?_toDigits {value : Int} (h0 : 0 ≤ value) (hmax : value ≤ Number.maxInt) :
    Number.readInt? (String.ofList (Nat.toDigits 10 value.toNat)) = some value := by
  obtain ⟨n, rfl⟩ := Int.eq_ofNat_of_zero_le h0
  have hsign : Number.unsigned (Nat.toDigits 10 n) = (false, Nat.toDigits 10 n) :=
    unsigned_of_isDigit fun c hc => isDigit_of_mem_toDigits (List.mem_of_mem_head? hc)
  have hsigned : Number.readSigned? (Nat.toDigits 10 n) = some (n : Int) := by
    simp [Number.readSigned?, hsign, readNat?_toDigits]
  have hmin : Number.minInt ≤ (n : Int) := by
    unfold Number.minInt
    omega
  simp only [Number.readInt?, String.toList_ofList, Int.toNat_natCast, hsigned]
  rw [if_pos ⟨hmin, hmax⟩]

/-- A number stands for a whole one, or for a double if it has a dot. -/
theorem stands_number_cases {text : List Char} {offset : Nat} {t : Token}
    (h : Stands offset (.number text) t) :
    t.text = String.ofList text ∧
      ('.' ∉ text ∧ t.kind = .int ∨ '.' ∈ text ∧ t.kind = .float) := by
  cases h with
  | int hd => exact ⟨rfl, .inl ⟨hd, rfl⟩⟩
  | float hd => exact ⟨rfl, .inr ⟨hd, rfl⟩⟩

theorem spells_literal (st : Style) {value : Literal} (hv : value.WellFormed) {ts : List Token}
    (h : (st.literal value).Spells ts) : ∃ t, ts = [t] ∧ literal? t = some value := by
  cases value with
  | int value =>
    obtain ⟨t, offset, rfl, ht⟩ := spells_one h
    obtain ⟨htext, ⟨-, hk⟩ | ⟨hd, -⟩⟩ := stands_number_cases ht
    · refine ⟨t, rfl, ?_⟩
      simp only [literal?, hk, htext, readInt?_toDigits hv.1 hv.2, Option.map_some]
    · exact absurd hd (not_dot_mem_toDigits _)
  | float value =>
    obtain ⟨text, htext⟩ := hv
    obtain ⟨-, hdot, hread⟩ := st.isFloatText value text htext
    obtain ⟨t, offset, rfl, ht⟩ := spells_one h
    obtain ⟨htext, ⟨hd, -⟩ | ⟨-, hk⟩⟩ := stands_number_cases ht
    · exact absurd hdot hd
    · refine ⟨t, rfl, ?_⟩
      simp only [literal?, hk, htext, hread, Option.map_some]
  | string text =>
    obtain ⟨t, offset, rfl, ht⟩ := spells_one h
    cases ht
    exact ⟨_, rfl, by simp [literal?]⟩
  | bool value =>
    cases value with
    | true =>
      obtain ⟨mark, rfl⟩ := spells_keyword h
      exact ⟨mark.1, rfl, by simp [literal?]⟩
    | false =>
      obtain ⟨mark, rfl⟩ := spells_keyword h
      exact ⟨mark.1, rfl, by simp [literal?]⟩
  | null =>
    obtain ⟨mark, rfl⟩ := spells_keyword h
    exact ⟨mark.1, rfl, by simp [literal?]⟩

/-- Whatever tokens the writing stands for, they are an expression of the layer. In the loosest layer
it may end in a type, so that no star may follow; in the others anything may. -/
def Derives (l : Layer) (w : Writing) (e : Expr) : Prop :=
  ∀ ts, w.Spells ts → ∃ d : Derivation (.expr l), d.tokens = ts ∧ d.value = e ∧
    d.nesting = w.levels ∧ d.Separated [] ∧ (l ≠ .or → ∀ rest, d.Separated rest)

/-- The same for a link and the links behind it. -/
def DerivesLink (w : Writing) (e : Expr) : Prop :=
  ∀ ts, w.Spells ts → ∃ (link : Derivation .link) (links : Derivation .links),
    link.tokens ++ links.tokens = ts ∧ link.value links.value = e ∧
    max link.nesting links.nesting = w.levels ∧
    (∀ rest, link.Separated rest) ∧ ∀ rest, links.Separated rest

def DerivesLinks (w : Writing) (c : Option Expr) : Prop :=
  ∀ ts, w.Spells ts → ∃ d : Derivation .links, d.tokens = ts ∧ d.value = c ∧
    d.nesting = w.levels ∧ ∀ rest, d.Separated rest

def DerivesArgs (w : Writing) (es : List Expr) : Prop :=
  ∀ ts, w.Spells ts → ∃ d : Derivation .args, d.tokens = ts ∧ d.value = es ∧
    d.nesting = w.levels ∧ d.Separated []

section Expr

variable {st : Style} {e : Expr}

/-- An expression that has parentheses or binds tightly enough fits into any place. -/
theorem Derives.place (h : Derives (layerOf e) (st.bare e) e) (l : Layer) :
    Derives l (st.place l e (st.bare e)) e := by
  intro ts hts
  unfold Style.place at hts ⊢
  split at hts
  · next hw =>
    rw [if_pos hw]
    obtain ⟨opening, us, closing, rfl, hus⟩ := spells_parens hts
    obtain ⟨d, rfl, hv, hn, hs, -⟩ := h us hus
    obtain ⟨d', h1, h2, h3, h4⟩ := d.exists_loosened (show Layer.power .or ≤ _ by
      cases layerOf e <;> decide)
    obtain ⟨g, g1, g2, g3, g4⟩ := (Derivation.group opening d' closing).exists_loosened
      (show l.power ≤ Layer.power .primary by cases l <;> decide)
    -- Inside the parentheses the closing one follows, whatever stands behind it.
    have hstar (rest : List Token) : NotAt (.symbol .star) (closing.1 :: rest) :=
      notAt_cons.2 (by simp)
    have hsep (rest : List Token) : g.Separated rest :=
      (g4 rest).2 ((d'.separated_nil_iff (hstar rest)).1 ((h4 []).2 hs))
    refine ⟨g, by rw [g1, Derivation.tokens, h1], ?_, ?_, hsep [], fun _ => hsep⟩
    · rw [g2, ← hv, ← h2]
      rfl
    · rw [g3, Derivation.nesting, h3, hn]
      simp [Writing.parens, Writing.deeper, Writing.symbol, Writing.one]
  · next hw =>
    rw [if_neg hw]
    obtain ⟨d, rfl, hv, hn, hs, hfree⟩ := h ts hts
    have hle : l.power ≤ (layerOf e).power := by
      simp only [Bool.or_eq_true, decide_eq_true_eq, not_or] at hw
      omega
    obtain ⟨d', h1, h2, h3, h4⟩ := d.exists_loosened hle
    refine ⟨d', h1, h2.trans hv, h3.trans hn, (h4 []).2 hs, fun hl rest => (h4 rest).2 ?_⟩
    -- An expression of the loosest layer has no other place without parentheses.
    refine hfree (fun ho => hl ?_) rest
    rw [ho] at hle
    cases l <;> simp [Layer.power] at hle
    rfl

/-- The operator of a layer in front of its right operand is no star if the layer is the loosest. -/
theorem notAt_star_of_operator {l : Layer} {s : Symbol} {op : Operator}
    (h : l.operator? s = some op) (hl : l = .or) (mark : Mark s) (rest : List Token) :
    NotAt (.symbol .star) (mark.1 :: rest) := by
  refine notAt_cons.2 fun hk => ?_
  cases mark.2.symm.trans hk
  subst hl
  cases h

theorem operator?_operatorSymbol {op : Operator} (h : op ≠ .exp) :
    (operatorLayer op).operator? (operatorSymbol op) = some op := by
  cases op <;> first | rfl | exact absurd rfl h

/-- An operator that binds to the left, between operands of its layer and of the next. -/
theorem derives_leftward {l : Layer} {s : Symbol} {op : Operator} {v w : Writing}
    {left right : Expr} (h : l.operator? s = some op) (hl : Derives l v left)
    (hr : Derives l.next w right) :
    Derives l (v ++ .symbol s ++ w.deeper) (.binary op left right) := by
  have hnext : l.next ≠ .or := by cases l <;> decide
  intro ts hts
  obtain ⟨us, vs, rfl, hu, hv⟩ := spells_append hts
  obtain ⟨ls, ms, rfl, hls, hms⟩ := spells_append hu
  obtain ⟨mark, rfl⟩ := spells_symbol hms
  obtain ⟨d, rfl, rfl, hn, hs, hfree⟩ := hl ls hls
  obtain ⟨d', rfl, rfl, hn', hs', hfree'⟩ := hr vs hv
  have hsep (rest : List Token) : d.Separated (mark.1 :: (d'.tokens ++ rest)) := by
    by_cases ho : l = .or
    · exact (d.separated_nil_iff (notAt_star_of_operator h ho mark _)).1 hs
    · exact hfree ho _
  refine ⟨.binary d mark h d', by simp, rfl, ?_, ⟨hsep [], hs'⟩,
    fun _ rest => ⟨hsep rest, hfree' hnext rest⟩⟩
  rw [Derivation.nesting, hn, hn']
  simp

theorem derives_power {v w : Writing} {left right : Expr} (hl : Derives .primary v left)
    (hr : Derives .unary w right) :
    Derives .unary (v ++ .symbol .power ++ w.deeper) (.binary .exp left right) := by
  intro ts hts
  obtain ⟨us, vs, rfl, hu, hv⟩ := spells_append hts
  obtain ⟨ls, ms, rfl, hls, hms⟩ := spells_append hu
  obtain ⟨mark, rfl⟩ := spells_symbol hms
  obtain ⟨d, rfl, rfl, hn, -, hfree⟩ := hl ls hls
  obtain ⟨d', rfl, rfl, hn', -, hfree'⟩ := hr vs hv
  have hsep (rest : List Token) : (Derivation.power d mark d').Separated rest :=
    ⟨hfree (by decide) _, hfree' (by decide) rest⟩
  refine ⟨.power d mark d', by simp, rfl, ?_, hsep [], fun _ => hsep⟩
  rw [Derivation.nesting, hn, hn']
  simp

theorem derives_binary {op : Operator} {left right : Expr}
    (hl : Derives (layerOf left) (st.bare left) left)
    (hr : Derives (layerOf right) (st.bare right) right) :
    Derives (operatorLayer op) (st.bare (.binary op left right)) (.binary op left right) := by
  have hl' := hl.place (leftLayer op)
  have hr' := hr.place (rightLayer op)
  rw [Style.bare]
  by_cases hop : op = .exp
  · subst hop
    exact derives_power hl' hr'
  · have hleft : leftLayer op = operatorLayer op := by
      cases op <;> first | rfl | exact absurd rfl hop
    have hright : rightLayer op = (operatorLayer op).next := by
      cases op <;> first | rfl | exact absurd rfl hop
    rw [hleft] at hl' ⊢
    rw [hright] at hr' ⊢
    exact derives_leftward (operator?_operatorSymbol hop) hl' hr'

/-- A sign in front of an operand of its own layer, by the rule that there is for it. -/
theorem derives_signed {s : Symbol} {make : Expr → Expr} {w : Writing} {value : Expr}
    (rule : Mark s → Derivation (.expr .unary) → Derivation (.expr .unary))
    (hrule : ∀ mark d, (rule mark d).tokens = mark.1 :: d.tokens ∧
      (rule mark d).value = make d.value ∧ (rule mark d).nesting = 1 + d.nesting ∧
      ∀ rest, (rule mark d).Separated rest ↔ d.Separated rest)
    (h : Derives .unary w value) : Derives .unary (.symbol s ++ w.deeper) (make value) := by
  intro ts hts
  obtain ⟨us, vs, rfl, hu, hv⟩ := spells_append hts
  obtain ⟨mark, rfl⟩ := spells_symbol hu
  obtain ⟨d, rfl, rfl, hn, hs, hfree⟩ := h vs hv
  obtain ⟨htokens, hvalue, hnesting, hsep⟩ := hrule mark d
  refine ⟨rule mark d, htokens, hvalue, ?_, (hsep []).2 hs,
    fun hl rest => (hsep rest).2 (hfree hl rest)⟩
  rw [hnesting, hn]
  simp

theorem derives_constant {value : Literal} (hv : value.WellFormed) :
    Derives .primary (st.bare (.constant value)) (.constant value) := by
  intro ts hts
  rw [Style.bare] at hts ⊢
  obtain ⟨t, rfl, ht⟩ := spells_literal st hv hts
  refine ⟨.literal ht, rfl, rfl, ?_, trivial, fun _ _ => trivial⟩
  rcases value with _ | _ | (_ | _) | _ | _ <;> rfl

theorem spells_stars {n : Nat} {ts : List Token}
    (h : (Writing.all Writing.symbol (List.replicate n .star)).Spells ts) :
    ∃ stars : List (Mark .star), ts = stars.map Subtype.val ∧ stars.length = n := by
  induction n generalizing ts with
  | zero => exact ⟨[], spells_nothing h, rfl⟩
  | succ n ih =>
    obtain ⟨us, vs, rfl, hu, hv⟩ := spells_append h
    obtain ⟨mark, rfl⟩ := spells_symbol hu
    obtain ⟨stars, rfl, rfl⟩ := ih hv
    exact ⟨mark :: stars, rfl, rfl⟩

theorem spells_typeRef {type : TypeRef} (hn : IsName type.name) {ts : List Token}
    (h : (Style.typeRef type).Spells ts) : ∃ f : TypeForm, f.tokens = ts ∧ f.value = type := by
  obtain ⟨us, vs, rfl, hu, hv⟩ := spells_append h
  obtain ⟨hs, ns, rfl, hhash, hname⟩ := spells_append hu
  obtain ⟨hash, rfl⟩ := spells_symbol hhash
  obtain ⟨name, rfl, htext⟩ := spells_name hn hname
  obtain ⟨stars, rfl, hlen⟩ := spells_stars hv
  exact ⟨⟨hash, name, stars⟩, rfl, by rw [TypeForm.value, htext, hlen]⟩

/-- Nothing that a type is written with takes a level. -/
@[simp]
theorem levels_typeRef (type : TypeRef) : (Style.typeRef type).levels = 0 := by
  have hstars (n : Nat) : (Writing.all Writing.symbol (List.replicate n .star)).levels = 0 := by
    induction n with
    | zero => rfl
    | succ n ih => simpa [Writing.all, List.replicate_succ] using ih
  simp [Style.typeRef, hstars]

theorem derives_declaration {name : String} {type : TypeRef} (hn : IsName name)
    (ht : IsName type.name) :
    Derives .or (st.bare (.declaration name type)) (.declaration name type) := by
  intro ts hts
  rw [Style.bare] at hts ⊢
  obtain ⟨us, vs, rfl, hu, hv⟩ := spells_append hts
  obtain ⟨ks, ns, rfl, hk, hname⟩ := spells_append hu
  obtain ⟨mark, rfl⟩ := spells_keyword hk
  obtain ⟨token, rfl, rfl⟩ := spells_name hn hname
  obtain ⟨f, rfl, rfl⟩ := spells_typeRef ht hv
  obtain ⟨d, h1, h2, h3, h4⟩ := (Derivation.declaration mark token f).exists_loosened
    (show Layer.power .or ≤ Layer.power .primary by decide)
  refine ⟨d, h1, h2, ?_, (h4 []).2 (notAt_nil _), fun h => absurd rfl h⟩
  rw [h3, Derivation.nesting]
  simp

/-- A link and the chain behind it are an operand. -/
theorem DerivesLink.derives {w : Writing} (h : DerivesLink w e) : Derives .primary w e := by
  intro ts hts
  obtain ⟨link, links, rfl, hv, hn, hs, hsl⟩ := h ts hts
  have hsep (rest : List Token) : (Derivation.chain (.linkRoot link) links).Separated rest :=
    ⟨hs _, hsl rest⟩
  exact ⟨.chain (.linkRoot link) links, rfl, hv, hn, hsep [], fun _ => hsep⟩

/-- What a chain starts with, if that is no link, and the chain behind it. -/
theorem derives_root {v w : Writing} {c : Option Expr} {make : Option Expr → Expr}
    (hroot : ∀ ts, v.Spells ts → ∃ d : Derivation .root, d.tokens = ts ∧ d.value = make ∧
      d.nesting = v.levels ∧ ∀ rest, d.Separated rest)
    (hc : DerivesLinks w c) : Derives .primary (v ++ w) (make c) := by
  intro ts hts
  obtain ⟨us, vs, rfl, hu, hv⟩ := spells_append hts
  obtain ⟨root, rfl, rfl, hn, hs⟩ := hroot us hu
  obtain ⟨links, rfl, rfl, hnl, hsl⟩ := hc vs hv
  have hsep (rest : List Token) : (Derivation.chain root links).Separated rest :=
    ⟨hs _, hsl rest⟩
  refine ⟨.chain root links, rfl, rfl, ?_, hsep [], fun _ => hsep⟩
  rw [Derivation.nesting, hn, hnl, Writing.levels_append]

theorem derivesLink_var {name : String} {c : Option Expr} (hn : IsName name)
    (hc : DerivesLinks (st.child c) c) : DerivesLink (st.bare (.var name c)) (.var name c) := by
  intro ts hts
  rw [Style.bare] at hts ⊢
  obtain ⟨us, vs, rfl, hu, hv⟩ := spells_append hts
  obtain ⟨token, rfl, rfl⟩ := spells_name hn hu
  obtain ⟨links, rfl, rfl, hnl, hsl⟩ := hc vs hv
  refine ⟨.var token, links, rfl, rfl, ?_, fun _ => trivial, hsl⟩
  rw [Derivation.nesting, hnl]
  simp

theorem derivesLink_call {name : String} {es : List Expr} {c : Option Expr} (hn : IsName name)
    (ha : DerivesArgs (st.args es) es) (hc : DerivesLinks (st.child c) c) :
    DerivesLink (st.bare (.call name es c)) (.call name es c) := by
  intro ts hts
  rw [Style.bare] at hts ⊢
  obtain ⟨us, vs, rfl, hu, hv⟩ := spells_append hts
  obtain ⟨ns, ps, rfl, hname, hp⟩ := spells_append hu
  obtain ⟨token, rfl, rfl⟩ := spells_name hn hname
  obtain ⟨opening, as, closing, rfl, has⟩ := spells_parens hp
  obtain ⟨args, rfl, rfl, hna, hsa⟩ := ha as has
  obtain ⟨links, rfl, rfl, hnl, hsl⟩ := hc vs hv
  have hstar (rest : List Token) : NotAt (.symbol .star) (closing.1 :: rest) :=
    notAt_cons.2 (by simp)
  refine ⟨.call token opening args closing, links, by simp, rfl, ?_,
    fun rest => (args.separated_nil_iff (hstar rest)).1 hsa, hsl⟩
  rw [Derivation.nesting, hna, hnl]
  simp

theorem derivesLink_index {name : String} {i : Expr} {c : Option Expr} (hn : IsName name)
    (hi : Derives (layerOf i) (st.bare i) i) (hc : DerivesLinks (st.child c) c) :
    DerivesLink (st.bare (.index name i c)) (.index name i c) := by
  intro ts hts
  rw [Style.bare] at hts ⊢
  obtain ⟨us, vs, rfl, hu, hv⟩ := spells_append hts
  obtain ⟨xs, cs, rfl, hx, hclosing⟩ := spells_append hu
  obtain ⟨ys, is, rfl, hy, his⟩ := spells_append hx
  obtain ⟨ns, os, rfl, hname, hopening⟩ := spells_append hy
  obtain ⟨token, rfl, rfl⟩ := spells_name hn hname
  obtain ⟨opening, rfl⟩ := spells_symbol hopening
  obtain ⟨closing, rfl⟩ := spells_symbol hclosing
  obtain ⟨d, rfl, rfl, hnd, hsd, -⟩ := hi.place .or is his
  obtain ⟨links, rfl, rfl, hnl, hsl⟩ := hc vs hv
  have hstar (rest : List Token) : NotAt (.symbol .star) (closing.1 :: rest) :=
    notAt_cons.2 (by simp)
  refine ⟨.index token opening d closing, links, by simp, rfl, ?_,
    fun rest => (d.separated_nil_iff (hstar rest)).1 hsd, hsl⟩
  rw [Derivation.nesting, hnd, hnl]
  simp

theorem derivesLinks_child {c : Option Expr} (h : ∀ e ∈ c, DerivesLink (st.bare e) e) :
    DerivesLinks (st.child c) c := by
  intro ts hts
  cases c with
  | none =>
    rw [Style.child] at hts ⊢
    obtain rfl := spells_nothing hts
    exact ⟨.noLinks, rfl, rfl, rfl, fun _ => trivial⟩
  | some e =>
    rw [Style.child] at hts ⊢
    obtain ⟨us, vs, rfl, hu, hv⟩ := spells_append hts
    obtain ⟨mark, rfl⟩ := spells_symbol hu
    obtain ⟨link, links, rfl, rfl, hn, hs, hsl⟩ := h e rfl vs hv
    refine ⟨.dot mark link links, by simp, rfl, ?_, fun rest => ⟨hs _, hsl rest⟩⟩
    rw [Derivation.nesting, hn]
    simp

/-- Commas and arguments, and then no star. -/
theorem derives_moreArgs {es : List Expr} (h : ∀ e ∈ es, Derives (layerOf e) (st.bare e) e)
    {ts : List Token} (hts : (st.moreArgs es).Spells ts) :
    ∃ d : Derivation .moreArgs, d.tokens = ts ∧ d.value = es ∧ d.nesting = (st.moreArgs es).levels ∧
      d.Separated [] ∧ NotAt (.symbol .star) d.tokens := by
  induction es generalizing ts with
  | nil =>
    rw [Style.moreArgs] at hts ⊢
    obtain rfl := spells_nothing hts
    exact ⟨.noMoreArgs, rfl, rfl, rfl, trivial, notAt_nil _⟩
  | cons e es ih =>
    obtain ⟨he, hes⟩ := List.forall_mem_cons.1 h
    rw [Style.moreArgs] at hts ⊢
    obtain ⟨us, vs, rfl, hu, hv⟩ := spells_append hts
    obtain ⟨cs, as, rfl, hc, has⟩ := spells_append hu
    obtain ⟨mark, rfl⟩ := spells_symbol hc
    obtain ⟨arg, rfl, rfl, hna, hsa, -⟩ := he.place .or as has
    obtain ⟨more, rfl, rfl, hnm, hsm, hstar⟩ := ih hes hv
    have hsep : arg.Separated (more.tokens ++ []) := by
      rw [List.append_nil]
      exact (arg.separated_nil_iff hstar).1 hsa
    refine ⟨.nextArg mark arg more, by simp, rfl, ?_, ⟨hsep, hsm⟩,
      notAt_cons.2 (by simp)⟩
    rw [Derivation.nesting, hna, hnm]
    simp

theorem derivesArgs_args {es : List Expr} (h : ∀ e ∈ es, Derives (layerOf e) (st.bare e) e) :
    DerivesArgs (st.args es) es := by
  intro ts hts
  cases es with
  | nil =>
    rw [Style.args] at hts ⊢
    obtain rfl := spells_nothing hts
    exact ⟨.noArgs, rfl, rfl, rfl, trivial⟩
  | cons e es =>
    obtain ⟨he, hes⟩ := List.forall_mem_cons.1 h
    rw [Style.args] at hts ⊢
    obtain ⟨us, vs, rfl, hu, hv⟩ := spells_append hts
    obtain ⟨first, rfl, rfl, hnf, hsf, -⟩ := he.place .or us hu
    obtain ⟨more, rfl, rfl, hnm, hsm, hstar⟩ := derives_moreArgs hes hv
    have hsep : first.Separated (more.tokens ++ []) := by
      rw [List.append_nil]
      exact (first.separated_nil_iff hstar).1 hsf
    refine ⟨.someArgs first more, by simp, rfl, ?_, hsep, hsm⟩
    rw [Derivation.nesting, hnf, hnm]
    simp

theorem wellFormed_of_mem_args {es : List Expr} (h : Expr.ArgsWellFormed es) :
    ∀ e ∈ es, e.WellFormed := by
  induction es with
  | nil => simp
  | cons e es ih =>
    rw [Expr.ArgsWellFormed] at h
    exact List.forall_mem_cons.2 ⟨h.1, ih h.2⟩

/-- Every well-formed expression has a derivation in its own layer, and if it is a link it is the
link of a chain. -/
theorem derives_bare (st : Style) (e : Expr) (h : e.WellFormed) :
    Derives (layerOf e) (st.bare e) e ∧ (e.isLink = true → DerivesLink (st.bare e) e) := by
  have hchild {c : Option Expr} (hc : Expr.ChildWellFormed c)
      (ih : ∀ e ∈ c, e.WellFormed → Derives (layerOf e) (st.bare e) e ∧
        (e.isLink = true → DerivesLink (st.bare e) e)) : DerivesLinks (st.child c) c := by
    refine derivesLinks_child fun e he => ?_
    obtain rfl := he
    rw [Expr.ChildWellFormed] at hc
    exact (ih e rfl hc.2).2 hc.1
  induction e with
  | binary op left right ihl ihr =>
    rw [Expr.WellFormed] at h
    exact ⟨derives_binary (ihl h.1).1 (ihr h.2).1, nofun⟩
  | constant value =>
    rw [Expr.WellFormed] at h
    exact ⟨derives_constant h, nofun⟩
  | declaration name type =>
    rw [Expr.WellFormed] at h
    exact ⟨derives_declaration h.1 h.2, nofun⟩
  | var name c ih =>
    rw [Expr.WellFormed] at h
    have hlink := derivesLink_var h.1 (hchild h.2 ih)
    exact ⟨hlink.derives, fun _ => hlink⟩
  | call name args c iha ihc =>
    rw [Expr.WellFormed] at h
    have hargs := derivesArgs_args fun e he => (iha e he (wellFormed_of_mem_args h.2.1 e he)).1
    have hlink := derivesLink_call h.1 hargs (hchild h.2.2 ihc)
    exact ⟨hlink.derives, fun _ => hlink⟩
  | index name i c ihi ihc =>
    rw [Expr.WellFormed] at h
    have hlink := derivesLink_index h.1 (ihi h.2.1).1 (hchild h.2.2 ihc)
    exact ⟨hlink.derives, fun _ => hlink⟩
  | classRef type c ih =>
    rw [Expr.WellFormed] at h
    obtain ⟨hn, hd, hc⟩ := h
    refine ⟨?_, nofun⟩
    rw [Style.bare]
    refine derives_root (fun ts hts => ?_) (hchild hc ih)
    obtain ⟨us, vs, rfl, hu, hv⟩ := spells_append hts
    obtain ⟨hash, rfl⟩ := spells_symbol hu
    obtain ⟨token, rfl, htext⟩ := spells_name hn hv
    refine ⟨.typeRoot hash token, rfl, ?_, rfl, fun _ => trivial⟩
    rw [Derivation.value, htext, ← hd]
  | this c ih =>
    rw [Expr.WellFormed] at h
    refine ⟨?_, nofun⟩
    rw [Style.bare]
    refine derives_root (fun ts hts => ?_) (hchild h ih)
    obtain ⟨mark, rfl⟩ := spells_keyword hts
    exact ⟨.selfRoot mark, rfl, rfl, rfl, fun _ => trivial⟩
  | negate value ih =>
    rw [Expr.WellFormed] at h
    refine ⟨?_, nofun⟩
    rw [Style.bare]
    exact derives_signed .negate (fun _ _ => ⟨rfl, rfl, rfl, fun _ => Iff.rfl⟩)
      ((ih h).1.place .unary)
  | inverse value ih =>
    rw [Expr.WellFormed] at h
    refine ⟨?_, nofun⟩
    rw [Style.bare]
    exact derives_signed .inverse (fun _ _ => ⟨rfl, rfl, rfl, fun _ => Iff.rfl⟩)
      ((ih h).1.place .unary)

/-- An expression that is part of a statement. -/
theorem spells_expr (h : e.WellFormed) {ts : List Token} (hts : (st.expr e).Spells ts) :
    ∃ f : ExprForm, f.tokens = ts ∧ f.value = e ∧ f.levels = (st.expr e).levels := by
  obtain ⟨d, hd, hv, hn, hs, -⟩ := (derives_bare st e h).1.place .or ts hts
  refine ⟨⟨d, hs⟩, hd, hv, ?_⟩
  rw [ExprForm.levels, hn]
  rfl

theorem spells_args {es : List Expr} (h : Expr.ArgsWellFormed es) {ts : List Token}
    (hts : (st.args es).Spells ts) :
    ∃ d : { d : Derivation .args // d.Separated [] }, d.1.tokens = ts ∧ d.1.value = es ∧
      d.1.nesting = (st.args es).levels := by
  have hargs := derivesArgs_args fun e he => (derives_bare st e (wellFormed_of_mem_args h e he)).1
  obtain ⟨d, hd, hv, hn, hs⟩ := hargs ts hts
  exact ⟨⟨d, hs⟩, hd, hv, hn⟩

end Expr

end FrontEnd.Grammar
