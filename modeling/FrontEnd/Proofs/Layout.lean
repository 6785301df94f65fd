import FrontEnd.Proofs.NestingLimit
import FrontEnd.Proofs.TokenCover

/-! Layout changes nothing but places. A parser sees of a token its kind and its text, so it does the
same on two token lists that agree in these: it gives one tree, or it stops at one index for one
cause. Where the tokens begin decides only where a fault is reported, and that is found whenever the
tokens are those of the source. -/

namespace FrontEnd.Parser

variable {α : Type} {Same : List Token → List Token → Prop}

/-- Inputs that are paired show the same in front, and behind that they are paired again. -/
structure Aligned (Same : List Token → List Token → Prop) : Prop where
  head : ∀ {ts us}, Same ts us → ts.head?.map face = us.head?.map face
  tail : ∀ {ts us}, Same ts us → Same ts.tail us.tail

/-- One result, or one cause, and paired inputs everywhere. -/
inductive Matching (Same : List Token → List Token → Prop) :
    EStateM.Result Fault (List Token) α → EStateM.Result Fault (List Token) α → Prop
  | ok (a : α) {ts us : List Token} : Same ts us → Matching Same (.ok a ts) (.ok a us)
  | error (cause : Cause) {site site' ts us : List Token} : Same site site' → Same ts us →
      Matching Same (.error ⟨cause, site⟩ ts) (.error ⟨cause, site'⟩ us)

/-- Two parsers that do the same on paired inputs. -/
def Alike (Same : List Token → List Token → Prop) (p q : Parser α) : Prop :=
  ∀ ts us, Same ts us → Matching Same (p ts) (q us)

/-- Paired inputs are both empty, or start with tokens that look the same. -/
theorem Aligned.cases (h : Aligned Same) {ts us : List Token} (hs : Same ts us) :
    (ts = [] ∧ us = []) ∨ ∃ t ts' u us', ts = t :: ts' ∧ us = u :: us' ∧ face t = face u ∧
      Same ts' us' := by
  have hhead := h.head hs
  have htail := h.tail hs
  cases ts with
  | nil =>
    cases us with
    | nil => exact .inl ⟨rfl, rfl⟩
    | cons u us => simp at hhead
  | cons t ts =>
    cases us with
    | nil => simp at hhead
    | cons u us => exact .inr ⟨t, ts, u, us, rfl, rfl, by simpa using hhead, htail⟩

theorem Aligned.length_eq (h : Aligned Same) {ts us : List Token} (hs : Same ts us) :
    ts.length = us.length := by
  induction ts generalizing us with
  | nil =>
    obtain ⟨-, rfl⟩ | ⟨t, ts', u, us', hts, -⟩ := h.cases hs
    · rfl
    · cases hts
  | cons t ts ih =>
    obtain ⟨hts, -⟩ | ⟨t', ts', u, us', hts, rfl, -, hs'⟩ := h.cases hs
    · cases hts
    · cases hts
      rw [List.length_cons, List.length_cons, ih hs']

theorem Alike.fail (cause : Cause) : Alike Same (fail cause : Parser α) (fail cause) :=
  fun _ _ hs => .error cause hs hs

theorem Alike.pure (a : α) : Alike Same (pure a : Parser α) (pure a) :=
  fun _ _ hs => .ok a hs

theorem Alike.bind {β : Type} {p q : Parser α} {f g : α → Parser β} (h : Alike Same p q)
    (hf : ∀ a, Alike Same (f a) (g a)) : Alike Same (p >>= f) (q >>= g) := by
  intro ts us hs
  have hm := h ts us hs
  rw [bind_apply, bind_apply]
  generalize p ts = r, q us = r' at hm
  cases hm with
  | ok a hs' => exact hf a _ _ hs'
  | error cause hsite hs' => exact .error cause hsite hs'

theorem alike_kind? (h : Aligned Same) : Alike Same kind? kind? := by
  intro ts us hs
  obtain ⟨rfl, rfl⟩ | ⟨t, ts', u, us', rfl, rfl, htu, -⟩ := h.cases hs
  · exact .ok _ hs
  · have hk : t.kind = u.kind := congrArg Prod.fst htu
    simp only [kind?, List.head?_cons, Option.map_some, hk]
    exact .ok _ hs

theorem alike_isAt (h : Aligned Same) (kind : TokenKind) : Alike Same (isAt kind) (isAt kind) := by
  intro ts us hs
  obtain ⟨rfl, rfl⟩ | ⟨t, ts', u, us', rfl, rfl, htu, -⟩ := h.cases hs
  · exact .ok _ hs
  · have hk : t.kind = u.kind := congrArg Prod.fst htu
    simp only [isAt, List.head?_cons, Option.any_some, hk]
    exact .ok _ hs

theorem alike_take (h : Aligned Same) (kind : TokenKind) : Alike Same (take kind) (take kind) := by
  intro ts us hs
  obtain ⟨rfl, rfl⟩ | ⟨t, ts', u, us', rfl, rfl, htu, hs'⟩ := h.cases hs
  · exact .ok false hs
  · have hk : t.kind = u.kind := congrArg Prod.fst htu
    rw [take, take, hk]
    split
    · exact .ok true hs'
    · exact .ok false hs

theorem alike_expect (h : Aligned Same) (kind : TokenKind) {f g : Token → Parser α}
    (hf : ∀ t u, face t = face u → Alike Same (f t) (g u)) :
    Alike Same (expect kind >>= f) (expect kind >>= g) := by
  intro ts us hs
  obtain ⟨rfl, rfl⟩ | ⟨t, ts', u, us', rfl, rfl, htu, hs'⟩ := h.cases hs
  · exact .error _ hs hs
  · have hk : t.kind = u.kind := congrArg Prod.fst htu
    rw [bind_apply, bind_apply, expect, expect, hk]
    by_cases hkind : u.kind = kind
    · rw [if_pos hkind, if_pos hkind]
      exact hf t u htu _ _ hs'
    · rw [if_neg hkind, if_neg hkind]
      exact .error _ hs hs

/-- The clocks of two loops are the inputs, and paired inputs have the same length. -/
theorem alike_loop (h : Aligned Same) {σ : Type} {step step' : σ → Parser (Option σ)}
    (hstep : ∀ s, Alike Same (step s) (step' s)) (s : σ) :
    Alike Same (loop step s) (loop step' s) :=
  fun ts us hs =>
    related_iterate (R := Alike Same) .pure .bind hstep (h.length_eq hs) s ts us hs

theorem congruence_alike (h : Aligned Same) : Congruence Same (Alike Same) where
  head := h.head
  pure := .pure
  bind := .bind
  here hf ts us hs := hf ts us hs ts us hs
  failAt _ hsite _ _ hs := .error _ hsite hs
  kind? := alike_kind? h
  skip _ _ hs := .ok () (h.tail hs)
  isAt := alike_isAt h
  take := alike_take h
  expect kind hf := alike_expect h kind hf
  loop s hstep := alike_loop h hstep s

/-- Where two inputs stand at one index of two token lists. -/
def Paired (tokens tokens' : List Token) (ts us : List Token) : Prop :=
  ∃ i, ts = tokens.drop i ∧ us = tokens'.drop i

theorem aligned_paired {tokens tokens' : List Token} (h : tokens.map face = tokens'.map face) :
    Aligned (Paired tokens tokens') where
  head := by
    rintro _ _ ⟨i, rfl, rfl⟩
    rw [List.head?_drop, List.head?_drop, ← List.getElem?_map, h, List.getElem?_map]
  tail := by
    rintro _ _ ⟨i, rfl, rfl⟩
    exact ⟨i + 1, List.tail_drop, List.tail_drop⟩

end FrontEnd.Parser

namespace FrontEnd.Parse

open FrontEnd.Parser FrontEnd.Program

section Alike

variable {Same : List Token → List Token → Prop}

theorem innerAlike_level (h : Aligned Same) (n : Nat) :
    InnerRelated (Alike Same) (level n) (level n) := by
  induction n with
  | zero => exact ⟨fun _ => .fail _, related_childBy (congruence_alike h) fun _ => .fail _⟩
  | succ n ih => exact innerRelated_succ (congruence_alike h) ih

theorem alike_expr (h : Aligned Same) (n : Nat) : Alike Same (expr n) (expr n) :=
  (innerAlike_level h n).expr 0

theorem bodyAlike_level (h : Aligned Same) (n : Nat) :
    BodyRelated (Alike Same) (bodyLevel n) (bodyLevel n) := by
  induction n with
  | zero => exact ⟨.fail _, .fail _⟩
  | succ n ih => exact bodyRelated_succ (congruence_alike h) (alike_expr h n) ih

end Alike

inductive Reading where
  | expr | statements | script
  deriving DecidableEq

namespace Reading

def Tree : Reading → Type
  | expr => Expr
  | statements => List Statement
  | script => Script

def parser : (r : Reading) → Nat → Parser r.Tree
  | expr, n => do let e ← Parse.expr n; finish; return e
  | statements, n => do let ss ← Parse.statements n; finish; return ss
  | script, n => Parse.script n

/-- What is read up to the end of the tokens is read. -/
theorem ok_of_finished {α : Type} {p : Parser α} {ts us : List Token} {a : α}
    (h : (do let x ← p; finish; return x : Parser α) ts = .ok a us) : ∃ vs, p ts = .ok a vs := by
  obtain ⟨x, vs, hx, hrest⟩ := bind_eq_ok_iff.1 h
  obtain ⟨_, ws, -, hp⟩ := bind_eq_ok_iff.1 hrest
  obtain ⟨rfl, rfl⟩ := pure_eq_ok_iff.1 hp
  exact ⟨vs, hx⟩

def read : (r : Reading) → String → Except (Failure SourceError) r.Tree
  | expr => readExpr
  | statements => readStatements
  | script => readScript

theorem read_eq (r : Reading) (src : String) : r.read src = source (r.parser maxLevels) src := by
  cases r <;> rfl

end Reading

/-- That all tokens are used up shows in the kind of the current one. -/
theorem finish_eq : finish = kind? >>= fun
    | none => pure ()
    | some _ => fail (.unexpected none) := by
  funext ts
  cases ts <;> rfl

theorem related_finish {Same : List Token → List Token → Prop}
    {R : ∀ {α : Type}, Parser α → Parser α → Prop} (h : Congruence Same R) : R finish finish := by
  rw [finish_eq]
  refine h.bind h.kind? fun k? => ?_
  cases k? with
  | none => exact h.pure _
  | some k => exact h.fail (by simp)

theorem related_reading {Same : List Token → List Token → Prop}
    {R : ∀ {α : Type}, Parser α → Parser α → Prop} (h : Congruence Same R) {n m : Nat}
    (he : R (expr n) (expr m)) (hb : BodyRelated R (bodyLevel n) (bodyLevel m)) (r : Reading) :
    R (r.parser n) (r.parser m) := by
  cases r with
  | expr => exact h.bind he fun _ => h.bind (related_finish h) fun _ => h.pure _
  | statements =>
    exact h.bind (related_statementsUntil h he hb none) fun _ =>
      h.bind (related_finish h) fun _ => h.pure _
  | script => exact related_script h he hb.block

/-- Token lists that agree in kinds and texts are read alike, index by index. -/
theorem matching_reading {tokens tokens' : List Token} (h : tokens.map face = tokens'.map face)
    (r : Reading) (n : Nat) :
    Matching (Paired tokens tokens') (r.parser n tokens) (r.parser n tokens') := by
  have ha := aligned_paired h
  exact related_reading (congruence_alike ha) (alike_expr ha n) (bodyAlike_level ha n) r _ _
    ⟨0, rfl, rfl⟩

end FrontEnd.Parse

namespace FrontEnd

open FrontEnd.Parser FrontEnd.Parse

theorem cover_of_tokenize {src : String} {tokens : List Token} (h : tokenize src = .ok tokens) :
    ∃ segments, Cover src segments [] tokens := by
  obtain ⟨rest, hw, ha, hend⟩ := Segment.split_cover src.toList
  have hcover := cover_of_reads hw ha (Segment.reads_tokens 0 _)
  rw [tokenize, scanSource_eq] at h
  obtain ⟨hnone, rfl⟩ | ⟨fault, hsome, -⟩ := hend
  · rw [hnone] at h
    cases h
    exact ⟨_, hcover⟩
  · rw [hsome] at h
    cases h

theorem isBoundary_of_tokenize {src : String} {tokens : List Token}
    (h : tokenize src = .ok tokens) : ∀ t ∈ tokens, Source.IsBoundary src t.begin := by
  obtain ⟨segments, hc⟩ := cover_of_tokenize h
  exact hc.isBoundary

/-- The byte offset of the token of an index, or of the end of the source if there is none. -/
def offsetAt (src : String) (tokens : List Token) (i : Nat) : Nat :=
  (tokens[i]?.map Token.begin).getD src.utf8ByteSize

theorem isBoundary_offsetAt {src : String} {tokens : List Token}
    (h : ∀ t ∈ tokens, Source.IsBoundary src t.begin) (i : Nat) :
    Source.IsBoundary src (offsetAt src tokens i) := by
  rw [offsetAt]
  cases ht : tokens[i]? with
  | none => exact Source.isBoundary_utf8ByteSize src
  | some t => exact h t (List.mem_of_getElem? ht)

/-- The reading stopped for that cause at the token of an index, or at the end of the source if there
is none, and that is where the fault is reported. -/
def StoppedAt {α : Type} (src : String) (tokens : List Token) (i : Nat) (cause : Cause)
    (result : Except (Failure SourceError) α) : Prop :=
  ∃ here, Source.locate? src (offsetAt src tokens i) = some here ∧
    result = .error (.error (.parse ⟨cause, tokens[i]?, here⟩))

section Source

variable {α : Type} {p : Parser α} {src : String} {tokens rest : List Token}

theorem source_of_ok {a : α} (ht : tokenize src = .ok tokens) (h : p tokens = .ok a rest) :
    source p src = .ok a := by
  rw [source, ht]
  simp only [Session.ofTokens, Session.run, h]

theorem exists_of_source {a : α} (h : source p src = .ok a) :
    ∃ tokens rest, tokenize src = .ok tokens ∧ p tokens = .ok a rest := by
  rw [source] at h
  cases ht : tokenize src with
  | error e =>
    rw [ht] at h
    cases h
  | ok tokens =>
    rw [ht] at h
    cases hp : p tokens with
    | ok b rest =>
      simp only [Session.ofTokens, Session.run, hp] at h
      cases h
      exact ⟨tokens, rest, rfl, hp⟩
    | error fault rest =>
      simp only [Session.ofTokens, Session.run, hp] at h
      cases hf : ParseError.ofFault src fault <;> rw [hf] at h <;> cases h

theorem source_of_error {cause : Cause} {i : Nat} (ht : tokenize src = .ok tokens)
    (h : p tokens = .error ⟨cause, tokens.drop i⟩ rest) :
    StoppedAt src tokens i cause (source p src) := by
  obtain ⟨here, hl⟩ := (isBoundary_offsetAt (isBoundary_of_tokenize ht) i).locate?
  refine ⟨here, hl, ?_⟩
  rw [source, ht]
  rw [offsetAt] at hl
  simp only [Session.ofTokens, Session.run, h, ParseError.ofFault, List.head?_drop, hl]

end Source

/-- Sources whose tokens agree in kinds and texts are read as one tree, or both readings stop for one
cause at the tokens of one index, which look the same, or at the end of both; each is reported where
its own source has that token. -/
theorem layout_irrelevant {src src' : String} {tokens tokens' : List Token}
    (ht : tokenize src = .ok tokens) (ht' : tokenize src' = .ok tokens')
    (h : tokens.map face = tokens'.map face) (r : Reading) :
    (∃ tree, r.read src = .ok tree ∧ r.read src' = .ok tree) ∨
    ∃ cause i, tokens[i]?.map face = tokens'[i]?.map face ∧
      StoppedAt src tokens i cause (r.read src) ∧ StoppedAt src' tokens' i cause (r.read src') := by
  have hm := matching_reading h r maxLevels
  rw [Reading.read_eq, Reading.read_eq]
  generalize hp : r.parser maxLevels tokens = result, hq : r.parser maxLevels tokens' = result' at hm
  cases hm with
  | ok tree _ => exact .inl ⟨tree, source_of_ok ht hp, source_of_ok ht' hq⟩
  | error cause hsite _ =>
    obtain ⟨i, rfl, rfl⟩ := hsite
    refine .inr ⟨cause, i, ?_, source_of_error ht hp, source_of_error ht' hq⟩
    rw [← List.getElem?_map, h, List.getElem?_map]

/-- The tokens of `x=(1;`. -/
def tightTokens : List Token :=
  [⟨.name, "x", 0⟩, ⟨.symbol .assign, "=", 1⟩, ⟨.symbol .openParen, "(", 2⟩, ⟨.int, "1", 3⟩,
    ⟨.symbol .semicolon, ";", 4⟩]

/-- The same with a comment, a line feed and a tab between them. -/
def looseTokens : List Token :=
  [⟨.name, "x", 0⟩, ⟨.symbol .assign, "=", 2⟩, ⟨.symbol .openParen, "(", 11⟩, ⟨.int, "1", 13⟩,
    ⟨.symbol .semicolon, ";", 15⟩]

/-- The parenthesis is missed at the semicolon in both layouts, in the first line of one source and
in the second line of the other. -/
theorem layout_irrelevant_loose :
    tokenize "x=(1;" = .ok tightTokens ∧ tokenize "x = // é\n (\t1 ;" = .ok looseTokens ∧
    tightTokens.map face = looseTokens.map face ∧
    ∃ cause i, StoppedAt "x=(1;" tightTokens i cause (Reading.read .statements "x=(1;") ∧
      StoppedAt "x = // é\n (\t1 ;" looseTokens i cause
        (Reading.read .statements "x = // é\n (\t1 ;") := by
  have ht : tokenize "x=(1;" = .ok tightTokens := by decide +kernel
  have ht' : tokenize "x = // é\n (\t1 ;" = .ok looseTokens := by decide +kernel
  have h : tightTokens.map face = looseTokens.map face := by rfl
  refine ⟨ht, ht', h, ?_⟩
  obtain ⟨tree, hread, -⟩ | ⟨cause, i, -, hstop, hstop'⟩ := layout_irrelevant ht ht' h .statements
  · have hfault : Reading.parser .statements maxLevels tightTokens =
        .error ⟨.unexpected (some (.symbol .closeParen)), tightTokens.drop 4⟩ (tightTokens.drop 4) := by
      rfl
    obtain ⟨here, -, herror⟩ := source_of_error ht hfault
    rw [Reading.read_eq, herror] at hread
    cases hread
  · exact ⟨cause, i, hstop, hstop'⟩

end FrontEnd
