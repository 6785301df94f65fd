import FrontEnd.Proofs.Scanning
import FrontEnd.Tree

/-! What the texts of trees are made of: words, quoted texts and signs, with gaps between them. The
pieces of a text are found from the left, one after the other, and the tree is found from its pieces,
from the root down. Neither ever has a choice, so a text has one list of pieces only, and pieces are
those of one tree only. -/

namespace FrontEnd.Tree

open FrontEnd.Segment

inductive Kind where
  | gap | sign | quote | plain
  deriving DecidableEq

/-- Commas say nothing that is not said by what they stand between. -/
def kind (c : Char) : Kind :=
  if c = ' ' ∨ c = '\n' ∨ c = ',' then .gap
  else if c = '\x7b' ∨ c = '\x7d' ∨ c = '[' ∨ c = ']' ∨ c = '=' then .sign
  else if c = '\x22' then .quote
  else .plain

def marks : List Char :=
  [' ', '\n', ',', '\x7b', '\x7d', '[', ']', '=', '\x22']

theorem kind_eq_plain {p : Char → Bool} (hp : marks.any p = false) {c : Char} (h : p c = true) :
    kind c = .plain := by
  have hne : ∀ d ∈ marks, c ≠ d := by
    rintro d hd rfl
    exact List.any_eq_false.1 hp c hd h
  simp only [marks, List.forall_mem_cons] at hne
  simp [kind, hne]

inductive Piece where
  | word (text : List Char)
  | quoted (body : List Char)
  | sign (c : Char)
  deriving DecidableEq

/-- One or more characters that stand for themselves. -/
def IsWord (text : List Char) : Prop :=
  text ≠ [] ∧ ∀ c ∈ text, kind c = .plain

instance (text : List Char) : Decidable (IsWord text) :=
  decidable_of_iff (text ≠ [] ∧ text.all (kind · = .plain) = true) (by simp [IsWord])

/-- No word goes on with the text. -/
def Apart (cs : List Char) : Prop :=
  ∀ c ∈ cs.head?, kind c ≠ .plain

/-- The pieces of a text. Within quotes nothing is a gap or a sign. -/
inductive Shows : List Char → List Piece → Prop
  | nil : Shows [] []
  | gap {c : Char} {cs : List Char} {ps : List Piece} : kind c = .gap → Shows cs ps →
      Shows (c :: cs) ps
  | sign {c : Char} {cs : List Char} {ps : List Piece} : kind c = .sign → Shows cs ps →
      Shows (c :: cs) (.sign c :: ps)
  | quoted {body cs : List Char} {ps : List Piece} : Escaped body → Shows cs ps →
      Shows ('\x22' :: (body ++ '\x22' :: cs)) (.quoted body :: ps)
  | word {text cs : List Char} {ps : List Piece} : IsWord text → Apart cs → Shows cs ps →
      Shows (text ++ cs) (.word text :: ps)

theorem Shows.eq_nil {ps : List Piece} (h : Shows [] ps) : ps = [] := by
  generalize hx : [] = xs at h
  cases h with
  | nil => rfl
  | word hw _ _ => exact absurd (List.append_eq_nil_iff.1 hx.symm).1 hw.1
  | _ => cases hx

/-- The first character says what comes first. -/
theorem Shows.cons_cases {c : Char} {cs : List Char} {ps : List Piece} (h : Shows (c :: cs) ps) :
    (kind c = .gap ∧ Shows cs ps) ∨
    (kind c = .sign ∧ ∃ qs, ps = .sign c :: qs ∧ Shows cs qs) ∨
    (kind c = .quote ∧ ∃ body rest qs, cs = body ++ '\x22' :: rest ∧ ps = .quoted body :: qs ∧
      Escaped body ∧ Shows rest qs) ∨
    (kind c = .plain ∧ ∃ text rest qs, c :: cs = text ++ rest ∧ ps = .word text :: qs ∧
      IsWord text ∧ Apart rest ∧ Shows rest qs) := by
  generalize hx : c :: cs = xs at h
  cases h with
  | nil => cases hx
  | gap hc h =>
    cases hx
    exact .inl ⟨hc, h⟩
  | sign hc h =>
    cases hx
    exact .inr (.inl ⟨hc, _, rfl, h⟩)
  | quoted he h =>
    cases hx
    exact .inr (.inr (.inl ⟨by decide, _, _, _, rfl, rfl, he, h⟩))
  | @word text rest _ hw ha h =>
    obtain ⟨d, ds, rfl⟩ := List.exists_cons_of_ne_nil hw.1
    cases hx
    exact .inr (.inr (.inr ⟨hw.2 c List.mem_cons_self, c :: ds, rest, _, rfl, rfl, hw, ha, h⟩))

theorem word_unique {text text' rest rest' : List Char} (hw : IsWord text) (hw' : IsWord text')
    (ha : Apart rest) (ha' : Apart rest') (h : text ++ rest = text' ++ rest') :
    text = text' ∧ rest = rest' := by
  have hrun : ∀ {t r}, IsWord t → Apart r → (t ++ r).takeWhile (kind · = .plain) = t ∧
      (t ++ r).dropWhile (kind · = .plain) = r := by
    intro t r ht hr
    exact takeWhile_run (fun c hc => by simpa using ht.2 c hc) (fun c hc => by simpa using hr c hc)
  obtain ⟨htake, hdrop⟩ := hrun hw ha
  obtain ⟨htake', hdrop'⟩ := hrun hw' ha'
  rw [h] at htake hdrop
  exact ⟨htake.symm.trans htake', hdrop.symm.trans hdrop'⟩

theorem body_unique {body body' rest rest' : List Char} (he : Escaped body) (he' : Escaped body')
    (h : body ++ '\x22' :: rest = body' ++ '\x22' :: rest') : body = body' ∧ rest = rest' := by
  have hclose := closeQuote?_eq_some_iff.2 ⟨he, h.symm⟩
  rw [closeQuote?_eq_some_iff.2 ⟨he', rfl⟩] at hclose
  cases hclose
  exact ⟨rfl, rfl⟩

/-- A text has one list of pieces only. -/
theorem Shows.unique {cs : List Char} {ps qs : List Piece} (h : Shows cs ps) (h' : Shows cs qs) :
    ps = qs := by
  induction h generalizing qs with
  | nil => exact h'.eq_nil.symm
  | gap hc _ ih =>
    obtain ⟨-, hrest⟩ | ⟨hc', -⟩ | ⟨hc', -⟩ | ⟨hc', -⟩ := h'.cons_cases
    · exact ih hrest
    all_goals cases hc.symm.trans hc'
  | sign hc _ ih =>
    obtain ⟨hc', -⟩ | ⟨-, qs, rfl, hrest⟩ | ⟨hc', -⟩ | ⟨hc', -⟩ := h'.cons_cases
    case inr.inl => rw [ih hrest]
    all_goals cases hc.symm.trans hc'
  | quoted he _ ih =>
    obtain ⟨hc', -⟩ | ⟨hc', -⟩ | ⟨-, body, rest, qs, hcs, rfl, he', hrest⟩ | ⟨hc', -⟩ :=
      h'.cons_cases
    case inr.inr.inl =>
      obtain ⟨rfl, rfl⟩ := body_unique he he' hcs
      rw [ih hrest]
    all_goals cases hc'
  | @word text cs ps hw ha _ ih =>
    obtain ⟨c, text, rfl⟩ := List.exists_cons_of_ne_nil hw.1
    have hc := hw.2 c List.mem_cons_self
    obtain ⟨hc', -⟩ | ⟨hc', -⟩ | ⟨hc', -⟩ | ⟨-, text', rest, qs, hcs, rfl, hw', ha', hrest⟩ :=
      h'.cons_cases
    case inr.inr.inr =>
      obtain ⟨rfl, rfl⟩ := word_unique hw hw' ha ha' hcs
      rw [ih hrest]
    all_goals cases hc.symm.trans hc'

mutual

def pieces : Tree → List Piece
  | null => [.word "null".toList]
  | str text => [.quoted text.toList]
  | value text => [.word text.toList]
  | list items => .sign '[' :: (itemPieces items ++ [.sign ']'])
  | node tag fields => .word tag.toList :: .sign '\x7b' :: (fieldPieces fields ++ [.sign '\x7d'])

def itemPieces : List Tree → List Piece
  | [] => []
  | t :: ts => pieces t ++ itemPieces ts

def fieldPieces : List (String × Tree) → List Piece
  | [] => []
  | (name, t) :: fs => .word name.toList :: .sign '=' :: (pieces t ++ fieldPieces fs)

end

theorem itemPieces_eq_flatMap (ts : List Tree) : itemPieces ts = ts.flatMap pieces := by
  induction ts with
  | nil => rfl
  | cons t ts ih => rw [itemPieces, ih, List.flatMap_cons]

theorem fieldPieces_eq_flatMap (fs : List (String × Tree)) :
    fieldPieces fs = fs.flatMap fun f => [.word f.1.toList, .sign '='] ++ pieces f.2 := by
  induction fs with
  | nil => rfl
  | cons f fs ih =>
    rw [fieldPieces, ih, List.flatMap_cons]
    rfl

/-- Tags, field names and values are words, no value is that of nothing, and what is quoted has its
quotes escaped. -/
inductive Legible : Tree → Prop
  | null : Legible null
  | str {text : String} : Escaped text.toList → Legible (str text)
  | value {text : String} : IsWord text.toList → text ≠ "null" → Legible (value text)
  | list {items : List Tree} : (∀ t ∈ items, Legible t) → Legible (list items)
  | node {tag : String} {fields : List (String × Tree)} : IsWord tag.toList →
      (∀ f ∈ fields, IsWord f.1.toList) → (∀ f ∈ fields, Legible f.2) → Legible (node tag fields)

def NoFields (ps : List Piece) : Prop :=
  ps.head? ≠ some (.sign '\x7b')

/-- A tree starts with no bracket but one that opens a list. -/
theorem pieces_cases (t : Tree) :
    ∃ p ps, t.pieces = p :: ps ∧ p ≠ .sign '\x7b' ∧ p ≠ .sign ']' := by
  cases t <;> exact ⟨_, _, rfl, by simp, by simp⟩

theorem noFields_items (ts : List Tree) (ps : List Piece) :
    NoFields (itemPieces ts ++ .sign ']' :: ps) := by
  cases ts with
  | nil => simp [NoFields, itemPieces]
  | cons t ts =>
    obtain ⟨p, qs, ht, hp, -⟩ := pieces_cases t
    simpa [NoFields, itemPieces, ht] using hp

theorem noFields_fields (fs : List (String × Tree)) (ps : List Piece) :
    NoFields (fieldPieces fs ++ .sign '\x7d' :: ps) := by
  cases fs with
  | nil => simp [NoFields, fieldPieces]
  | cons f fs => simp [NoFields, fieldPieces]

/-- What is left of the pieces behind those of the tree is the same for every tree that they can be
read as, and so is the tree. -/
def Decodable (t : Tree) : Prop :=
  ∀ t' ps ps', t'.Legible → NoFields ps → NoFields ps' → t.pieces ++ ps = t'.pieces ++ ps' →
    t = t' ∧ ps = ps'

theorem items_unique {ts ts' : List Tree} {ps ps' : List Piece} (h : ∀ t ∈ ts, Decodable t)
    (h' : ∀ t ∈ ts', Legible t)
    (heq : itemPieces ts ++ .sign ']' :: ps = itemPieces ts' ++ .sign ']' :: ps') :
    ts = ts' ∧ ps = ps' := by
  induction ts generalizing ts' with
  | nil =>
    cases ts' with
    | nil =>
      cases heq
      exact ⟨rfl, rfl⟩
    | cons t' ts' =>
      obtain ⟨p, qs, ht', -, hp⟩ := pieces_cases t'
      rw [itemPieces, itemPieces, ht'] at heq
      exact absurd (List.cons.inj heq).1.symm hp
  | cons t ts ih =>
    obtain ⟨ht, hts⟩ := List.forall_mem_cons.1 h
    cases ts' with
    | nil =>
      obtain ⟨p, qs, ht, -, hp⟩ := pieces_cases t
      rw [itemPieces, itemPieces, ht] at heq
      exact absurd (List.cons.inj heq).1 hp
    | cons t' ts' =>
      obtain ⟨ht', hts'⟩ := List.forall_mem_cons.1 h'
      rw [itemPieces, itemPieces, List.append_assoc, List.append_assoc] at heq
      obtain ⟨rfl, hrest⟩ := ht t' _ _ ht' (noFields_items ts ps) (noFields_items ts' ps') heq
      obtain ⟨rfl, rfl⟩ := ih hts hts' hrest
      exact ⟨rfl, rfl⟩

theorem fields_unique {fs fs' : List (String × Tree)} {ps ps' : List Piece}
    (h : ∀ f ∈ fs, Decodable f.2) (h' : ∀ f ∈ fs', Legible f.2)
    (heq : fieldPieces fs ++ .sign '\x7d' :: ps = fieldPieces fs' ++ .sign '\x7d' :: ps') :
    fs = fs' ∧ ps = ps' := by
  induction fs generalizing fs' with
  | nil =>
    cases fs' with
    | nil =>
      cases heq
      exact ⟨rfl, rfl⟩
    | cons f' fs' => cases heq
  | cons f fs ih =>
    obtain ⟨hf, hfs⟩ := List.forall_mem_cons.1 h
    cases fs' with
    | nil => cases heq
    | cons f' fs' =>
      obtain ⟨hf', hfs'⟩ := List.forall_mem_cons.1 h'
      obtain ⟨name, t⟩ := f
      obtain ⟨name', t'⟩ := f'
      simp only [fieldPieces, List.cons_append, List.append_assoc, List.cons.injEq,
        Piece.word.injEq, String.toList_inj, true_and] at heq
      obtain ⟨rfl, hvalue⟩ := heq
      obtain ⟨rfl, hrest⟩ := hf t' _ _ hf' (noFields_fields fs ps) (noFields_fields fs' ps') hvalue
      obtain ⟨rfl, rfl⟩ := ih hfs hfs' hrest
      exact ⟨rfl, rfl⟩

/-- A word alone is no node, since no fields follow it. -/
theorem word_ne_node {text tag : String} {fields : List (String × Tree)} {ps qs : List Piece}
    (hps : NoFields ps) : .word text.toList :: ps ≠ (node tag fields).pieces ++ qs := by
  intro heq
  rw [pieces] at heq
  exact hps (by rw [(List.cons.inj heq).2]; rfl)

/-- The pieces of a tree are those of no other tree, nor do they start those of another. -/
theorem decodable {t : Tree} (h : t.Legible) : Decodable t := by
  induction t with
  | null =>
    intro t' ps ps' h' hps hps' heq
    cases h' with
    | null => exact ⟨rfl, (List.cons.inj heq).2⟩
    | value _ hne =>
      simp only [pieces, List.cons_append, List.cons.injEq, Piece.word.injEq, String.toList_inj]
        at heq
      exact absurd heq.1.symm hne
    | node => exact absurd heq (word_ne_node hps)
    | _ => cases heq
  | str text =>
    intro t' ps ps' h' hps hps' heq
    cases h' with
    | str =>
      simp only [pieces, List.cons_append, List.nil_append, List.cons.injEq, Piece.quoted.injEq,
        String.toList_inj] at heq
      obtain ⟨rfl, rfl⟩ := heq
      exact ⟨rfl, rfl⟩
    | _ => cases heq
  | value text =>
    intro t' ps ps' h' hps hps' heq
    cases h with
    | value _ hne =>
      cases h' with
      | null =>
        simp only [pieces, List.cons_append, List.cons.injEq, Piece.word.injEq, String.toList_inj]
          at heq
        exact absurd heq.1 hne
      | value =>
        simp only [pieces, List.cons_append, List.nil_append, List.cons.injEq, Piece.word.injEq,
          String.toList_inj] at heq
        obtain ⟨rfl, rfl⟩ := heq
        exact ⟨rfl, rfl⟩
      | node => exact absurd heq (word_ne_node hps)
      | _ => cases heq
  | list items ih =>
    intro t' ps ps' h' hps hps' heq
    cases h with
    | list hitems =>
      cases h' with
      | list hitems' =>
        simp only [pieces, List.cons_append, List.append_assoc, List.cons.injEq, true_and,
          List.nil_append] at heq
        obtain ⟨rfl, rfl⟩ := items_unique (fun t ht => ih t ht (hitems t ht)) hitems' heq
        exact ⟨rfl, rfl⟩
      | _ => cases heq
  | node tag fields ih =>
    intro t' ps ps' h' hps hps' heq
    cases h with
    | node _ _ hfields =>
      cases h' with
      | null => exact absurd heq.symm (word_ne_node hps')
      | value => exact absurd heq.symm (word_ne_node hps')
      | node _ _ hfields' =>
        simp only [pieces, List.cons_append, List.append_assoc, List.cons.injEq, true_and,
          List.nil_append, Piece.word.injEq, String.toList_inj] at heq
        obtain ⟨rfl, hrest⟩ := heq
        obtain ⟨rfl, rfl⟩ := fields_unique (fun f hf => ih f hf (hfields f hf)) hfields' hrest
        exact ⟨rfl, rfl⟩
      | _ => cases heq

end FrontEnd.Tree
