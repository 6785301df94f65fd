import FrontEnd.Proofs.Recursion
import FrontEnd.Proofs.ScriptProgress

/-! Reading moves on and ends. Whatever the tokens, the place and the levels left, what reads an
expression, a statement or a definition passes a token when it succeeds, and so does every round of a
loop that goes on; nothing goes back or past the end. So the clock of a loop and the levels around a
call are no bounds on reading: they could only end what the tokens end before. -/

namespace FrontEnd.Parser

variable {α β σ : Type}

theorem loop_of_none {step : σ → Parser (Option σ)} (ha : Advances step) {s : σ}
    {ts us : List Token} (h : step s ts = .ok none us) : loop step s ts = .ok s us := by
  rw [loop_eq ha, h]

theorem loop_of_some {step : σ → Parser (Option σ)} (ha : Advances step) {s s' : σ}
    {ts us : List Token} (h : step s ts = .ok (some s') us) : loop step s ts = loop step s' us := by
  rw [loop_eq ha, h]

theorem loop_of_error {step : σ → Parser (Option σ)} (ha : Advances step) {s : σ}
    {ts us : List Token} {e : Fault} (h : step s ts = .error e us) :
    loop step s ts = .error e us := by
  rw [loop_eq ha, h]

/-- A round of a loop, and what the others do. -/
def roundThen (step : σ → Parser (Option σ)) (others : σ → Parser σ) (s : σ) : Parser σ := do
  match ← step s with
  | none => return s
  | some s' => others s'

/-- The loop is the one solution of its equation, if every round that goes on takes a token. -/
theorem roundThen_eq_self_iff {step : σ → Parser (Option σ)} (h : Advances step)
    (f : σ → Parser σ) : roundThen step f = f ↔ f = loop step := by
  constructor
  · intro hf
    funext s ts
    induction hn : ts.length using Nat.strongRecOn generalizing s ts with
    | ind n ih =>
      subst hn
      rw [← hf, roundThen, bind_apply, loop_eq h]
      rcases hs : step s ts with ⟨_ | s', us⟩ | ⟨e, us⟩
      · rfl
      · exact ih _ (h _ _ _ _ hs) s' us rfl
      · rfl
  · rintro rfl
    funext s ts
    rw [loop_eq h, roundThen, bind_apply]
    rcases step s ts with ⟨_ | s', us⟩ | ⟨e, us⟩ <;> rfl

section List

variable {close : TokenKind} {item : Parser α}

/-- A token is there if it is not the case that it is not. -/
theorem exists_of_not_notAt {kind : TokenKind} {ts : List Token} (h : ¬NotAt kind ts) :
    ∃ t us, t.kind = kind ∧ ts = t :: us := by
  cases ts with
  | nil => exact absurd (notAt_nil kind) h
  | cons t us => exact ⟨t, us, not_not.1 (mt notAt_cons.2 h), rfl⟩

/-- Behind an item come the items of another list, if a comma comes first. -/
theorem many_nextItem (h : Forward item) :
    many (nextItem close item) = do
      if ← take (.symbol .comma) then commaList close item else return [] := by
  have ha := itemAdvances_nextItem close h
  funext ts
  by_cases hcomma : NotAt (.symbol .comma) ts
  · rw [many_of_none ha (nextItem_of_notAt hcomma), bind_ok (take_of_notAt hcomma)]
    rfl
  · obtain ⟨t, us, ht, rfl⟩ := exists_of_not_notAt hcomma
    rw [bind_ok (take_of_eq ht), if_pos rfl]
    by_cases hclose : NotAt close us
    · have hnext : nextItem close item (t :: us) = _ := nextItem_comma ht hclose
      rw [commaList_of_notAt hclose]
      cases hi : item us with
      | ok a vs =>
        rw [bind_ok hi] at hnext ⊢
        exact many_of_some ha hnext
      | error e vs =>
        rw [bind_error hi] at hnext ⊢
        exact many_of_error ha hnext
    · obtain ⟨u, vs, hu, rfl⟩ := exists_of_not_notAt hclose
      rw [many_of_none ha (nextItem_last ht hu), commaList_empty hu]

/-- A round of a comma list as one loop: an item, and the comma behind it if there is one. The state
has the items so far, the last one in front, and whether another may follow. -/
def listRound (close : TokenKind) (item : Parser α) :
    List α × Bool → Parser (Option (List α × Bool))
  | (_, false) => return none
  | (done, true) => do
    if ← isAt close then return none
    let a ← item
    return some (a :: done, ← take (.symbol .comma))

theorem forward_listRound (h : Forward item) (s : List α × Bool) :
    Forward (listRound close item s) := by
  obtain ⟨done, more⟩ := s
  cases more with
  | false => exact .pure _
  | true => exact (forward_isAt _).bind fun _ => .ite (.pure _) (h.bind fun _ =>
      (forward_take _).bind fun _ => .pure _)

theorem advances_listRound (h : Consumes item) : Advances (listRound close item) := by
  rintro ⟨done, more⟩ ts s' us hs
  cases more with
  | false => cases hs
  | true =>
    obtain ⟨b, vs, hb, hs⟩ := bind_eq_ok_iff.1 hs
    obtain ⟨rfl, -⟩ := isAt_eq_ok_iff.1 hb
    cases b with
    | true => cases hs
    | false => exact (h.bind fun a => (forward_take _).bind fun _ => .pure _).shrinks hs

/-- The loop finds the items of the list, and what follows goes on from there. -/
theorem loop_listRound (h : Consumes item) (done : List α) (k : List α → Parser β) :
    (loop (listRound close item) (done, true) >>= fun s => k s.1) =
      commaList close item >>= fun as => k (as.reverse ++ done) := by
  have ha : Advances (listRound close item) := advances_listRound h
  funext ts
  induction hn : ts.length using Nat.strongRecOn generalizing done ts with
  | ind n ih =>
    subst hn
    by_cases hclose : NotAt close ts
    · have hround : listRound close item (done, true) ts =
          (item >>= fun a => take (.symbol .comma) >>= fun b => pure (some (a :: done, b))) ts := by
        rw [listRound, bind_ok (isAt_of_notAt hclose), if_neg (by decide)]
      have hlist : commaList close item ts = _ := commaList_of_notAt hclose
      rw [many_nextItem h.toForward] at hlist
      cases hi : item ts with
      | error e us =>
        rw [bind_error hi] at hround hlist
        rw [bind_error hlist, bind_error (loop_of_error ha hround)]
      | ok a us =>
        rw [bind_ok hi] at hround hlist
        by_cases hcomma : NotAt (.symbol .comma) us
        · -- Without a comma the next round ends the loop.
          rw [bind_apply, bind_ok (take_of_notAt hcomma)] at hlist
          rw [bind_ok (take_of_notAt hcomma)] at hround
          have hend : loop (listRound close item) (a :: done, false) us = .ok (a :: done, false) us :=
            loop_of_none ha rfl
          rw [bind_ok ((loop_of_some ha hround).trans hend), bind_ok hlist]
          rfl
        · obtain ⟨t, vs, ht, rfl⟩ := exists_of_not_notAt hcomma
          rw [bind_ok (take_of_eq ht)] at hround
          rw [bind_apply, bind_ok (take_of_eq ht), if_pos rfl] at hlist
          have hlt : vs.length < ts.length := Nat.lt_of_succ_lt (h.shrinks hi)
          have hrest := ih _ hlt (a :: done) vs rfl
          rw [bind_apply, bind_apply] at hrest
          rw [bind_apply, bind_apply, loop_of_some ha hround, hrest, hlist]
          cases commaList close item vs with
          | ok as ws => simp [pure_apply]
          | error e ws => rfl
    · obtain ⟨t, us, ht, rfl⟩ := exists_of_not_notAt hclose
      have hround : listRound close item (done, true) (t :: us) = .ok none (t :: us) := by
        rw [listRound, bind_ok (isAt_of_eq ht), if_pos rfl, pure_apply]
      rw [bind_ok (commaList_empty ht), bind_ok (loop_of_none ha hround)]
      rfl

theorem commaList_eq_loop (h : Consumes item) :
    commaList close item = do
      return (← loop (listRound close item) ([], true)).1.reverse := by
  refine Eq.trans ?_ (loop_listRound h [] fun as => pure as.reverse).symm
  simp

end List

end FrontEnd.Parser

namespace FrontEnd.Session

open FrontEnd.Parser

variable {α : Type}

/-- A reading from the token of an index on has gone on: not back and not past the end, and further
if it found something that is to go on. -/
structure MovesOn (goesOn : α → Prop) (tokens : List Token) (i : Nat)
    (outcome : Except (Failure ParseError) α × Session) : Prop where
  notBack : i ≤ outcome.2.passed
  notPast : outcome.2.passed ≤ tokens.length
  rest : outcome.2.rest = tokens.drop outcome.2.passed
  further : ∀ a, outcome.1 = .ok a → goesOn a → i < outcome.2.passed

theorem movesOn_run {goesOn : α → Prop} {p : Parser α} (hf : Forward p)
    (hs : ∀ ts a us, p ts = .ok a us → goesOn a → us.length < ts.length) (source : String)
    {tokens : List Token} {i : Nat} (hi : i ≤ tokens.length) :
    MovesOn goesOn tokens i (run p ⟨source, i, tokens.drop i⟩) := by
  have hlength : (tokens.drop i).length = tokens.length - i := List.length_drop
  -- Where the session stands after it has gone on to a later rest.
  have hgoTo : ∀ us, us <:+ tokens.drop i → (goTo us ⟨source, i, tokens.drop i⟩).passed ≤
      tokens.length ∧ us = tokens.drop (goTo us ⟨source, i, tokens.drop i⟩).passed := by
    intro us hus
    have hle := hus.length_le
    refine ⟨?_, (drop_passed_goTo hus).symm⟩
    simp only [goTo]
    omega
  rw [run]
  cases hp : p (tokens.drop i) with
  | ok a us =>
    obtain ⟨hpast, hrest⟩ := hgoTo us (hf.ok hp)
    refine ⟨Nat.le_add_right _ _, hpast, hrest, fun b hb hgoes => ?_⟩
    cases hb
    have hlt := hs _ _ _ hp hgoes
    simp only [goTo]
    omega
  | error fault us =>
    obtain ⟨hpast, hrest⟩ := hgoTo us (hf.error hp)
    dsimp only
    cases ParseError.ofFault source fault with
    | ok e => exact ⟨Nat.le_add_right _ _, hpast, hrest, fun b hb => by cases hb⟩
    | error v => exact ⟨Nat.le_refl i, hi, rfl, fun b hb => by cases hb⟩

end FrontEnd.Session

namespace FrontEnd.Parse

open FrontEnd.Parser FrontEnd.Program FrontEnd.Session

inductive Reader where
  | expr (floor : Nat)
  | statement | branches | block | parameter | typeRef
  | classDefinition (attributes : List Attribute)
  | foreignFunction (attributes : List Attribute)

namespace Reader

def Tree : Reader → Type
  | expr _ => Expr
  | statement => Statement
  | branches => Branches
  | block => List Statement
  | parameter => Parameter
  | typeRef => TypeRef
  | classDefinition _ => ClassDecl
  | foreignFunction _ => MethodDecl

def parser (levels : Nat) : (reader : Reader) → Parser reader.Tree
  | expr floor => (level levels).expr floor
  | statement => Parse.statement (Parse.expr levels) (Parse.block levels)
  | branches => Parse.branches (Parse.expr levels) (bodyLevel levels)
  | block => Parse.block levels
  | parameter => Parse.parameter
  | typeRef => Parse.typeRef
  | classDefinition attributes => Parse.classDefinition levels attributes
  | foreignFunction attributes => Parse.foreignFunction attributes

theorem consumes_reader (levels : Nat) (reader : Reader) : Consumes (reader.parser levels) := by
  have hexpr := consumes_expr levels
  have hbody := bodyForward_level levels
  cases reader with
  | expr floor => exact (innerForward_level levels).expr floor
  | statement => exact consumes_statement hexpr hbody.block
  | branches => exact consumes_branches hexpr hbody
  | block => exact hbody.block
  | parameter => exact consumes_parameter
  | typeRef => exact consumes_typeRef
  | classDefinition attributes => exact consumes_classDefinition levels attributes
  | foreignFunction attributes => exact consumes_foreignFunction attributes

end Reader

theorem forward_part (n : Nat) : Forward (part n) :=
  (related_part congruence_cutShort (cutShort_expr (Nat.le_refl n))
    (cutShort_block (Nat.le_refl n))).forward

inductive Loop where
  | parts | members | attributes
  | arguments (close : TokenKind)
  | parameters (close : TokenKind)
  | items (close : Option TokenKind)
  | operators (floor : Nat)

namespace Loop

def State : Loop → Type
  | parts => List Part
  | members => List Member
  | attributes => List Attribute
  | arguments _ => List Expr × Bool
  | parameters _ => List Parameter × Bool
  | items _ => List Item
  | operators _ => Expr

def round (levels : Nat) : (loop : Loop) → loop.State → Parser (Option loop.State)
  | parts => collect (part levels)
  | members => collect (member levels)
  | attributes => collect (attribute? levels)
  | arguments close => listRound close (Parse.expr levels)
  | parameters close => listRound close Parse.parameter
  | items close => collect (item (Parse.expr levels) (bodyLevel levels) close)
  | operators floor => extend (level levels) floor

theorem forward_round (levels : Nat) (loop : Loop) (s : loop.State) :
    Forward (loop.round levels s) := by
  have hexpr := consumes_expr levels
  have hcollect : ∀ {α : Type} {item : Parser (Option α)} {done : List α}, Forward item →
      Forward (collect item done) := fun h => h.bind fun _ => .pure _
  cases loop with
  | parts => exact hcollect (forward_part levels)
  | members => exact hcollect (forward_member levels)
  | attributes => exact hcollect (forward_attribute? levels)
  | arguments close => exact forward_listRound hexpr.toForward s
  | parameters close => exact forward_listRound consumes_parameter.toForward s
  | items close => exact hcollect (forward_item hexpr (bodyForward_level levels) close)
  | operators floor => exact forward_extend (innerForward_level levels) floor s

theorem advances_round (levels : Nat) (loop : Loop) : Advances (loop.round levels) := by
  have hexpr := consumes_expr levels
  cases loop with
  | parts => exact advances_collect (itemAdvances_part levels)
  | members => exact advances_collect (itemAdvances_member levels)
  | attributes => exact advances_collect (itemAdvances_attribute? levels)
  | arguments close => exact advances_listRound hexpr
  | parameters close => exact advances_listRound consumes_parameter
  | items close =>
    exact advances_collect (itemAdvances_item hexpr (bodyForward_level levels) close)
  | operators floor => exact advances_extend (innerForward_level levels)

end Loop

/-- Reading moves on, so it ends. From any place in any tokens, with any number of levels left, what
reads an expression, a statement or a definition goes on to a later place when it succeeds, and so
does every round of a loop that does not leave it; none goes back or past the end, whatever comes of
it. Hence every loop is the one solution of its equation, and whatever depths are allowed, all of
them included, so are the parsers that call one another. On fewer than `n` tokens, `n` unfoldings of
their equations are enough, whatever they start from; and `n` levels are as good as any more, and none
is wanted for. -/
theorem reading_moves_on (levels : Nat) :
    (∀ (reader : Reader) (source : String) (tokens : List Token) (i : Nat), i ≤ tokens.length →
      MovesOn (fun _ => True) tokens i
        (run (reader.parser levels) ⟨source, i, tokens.drop i⟩)) ∧
    (∀ (loop : Loop) (s : loop.State) (source : String) (tokens : List Token) (i : Nat),
      i ≤ tokens.length →
      MovesOn (fun s' => s'.isSome) tokens i
        (run (loop.round levels s) ⟨source, i, tokens.drop i⟩)) ∧
    (∀ (loop : Loop) (f : loop.State → Parser loop.State),
      roundThen (loop.round levels) f = f ↔ f = Parser.loop (loop.round levels)) ∧
    (∀ close,
      commaList close (expr levels) = (do
        return (← Parser.loop ((Loop.arguments close).round levels) ([], true)).1.reverse) ∧
      commaList close parameter = (do
        return (← Parser.loop ((Loop.parameters close).round levels) ([], true)).1.reverse)) ∧
    (∀ (allowed : Nat → Bool), ∃ f : Depths,
      (∀ g : Depths, g.around allowed = g ↔ g = f) ∧
      ∀ (n : Nat) (g : Depths),
        f.SameBelow (∃ d, allowed d = false) n ((Depths.around allowed)^[n] g)) ∧
    Depths.around (fun d => d < levels) (Depths.upTo levels) = Depths.upTo levels ∧
    ∀ (entry : Entry) (n m : Nat) (ts : List Token), ts.length < n → n ≤ m →
      entry.parser n ts = entry.parser m ts ∧
        ∀ fault us, entry.parser n ts = .error fault us → fault.cause ≠ .tooDeep := by
  refine ⟨?_, ?_, ?_, ?_, ?_, Depths.around_upTo levels, ?_⟩
  · intro reader source tokens i hi
    have hp := reader.consumes_reader levels
    exact movesOn_run hp.toForward (fun _ _ _ h _ => hp.shrinks h) source hi
  · intro loop s source tokens i hi
    refine movesOn_run (loop.forward_round levels s) (fun ts s? us h hsome => ?_) source hi
    obtain ⟨s', rfl⟩ := Option.isSome_iff_exists.1 hsome
    exact loop.advances_round levels s ts s' us h
  · exact fun loop => roundThen_eq_self_iff (loop.advances_round levels)
  · exact fun close => ⟨commaList_eq_loop (consumes_expr levels), commaList_eq_loop consumes_parameter⟩
  · refine fun allowed => ⟨Depths.unfolded allowed, Depths.around_eq_self_iff, ?_⟩
    exact Depths.sameBelow_unfolded fun d h => ⟨d, h⟩
  · intro entry n m ts hts hnm
    have hsame := entry.sameBelow_levels hnm ts hts
    refine ⟨hsame.agree, fun fault us hp hdeep => ?_⟩
    obtain ⟨cause, site⟩ := fault
    obtain rfl : cause = .tooDeep := hdeep
    exact hsame.tooDeep hp

/-- The tokens of `f(a,b)`. -/
def callTokens : List Token :=
  [⟨.name, "f", 0⟩, ⟨.symbol .openParen, "(", 1⟩, ⟨.name, "a", 2⟩, ⟨.symbol .comma, ",", 3⟩,
    ⟨.name, "b", 4⟩, ⟨.symbol .closeParen, ")", 5⟩]

/-- The call is read to a later place, the round that finds the first argument goes on behind the
comma, and seven levels do what the usual ones do. -/
theorem reading_moves_on_call :
    (∃ e, (run ((Reader.expr 0).parser maxLevels) ⟨"f(a,b)", 0, callTokens⟩).1 = .ok e ∧
      0 < (run ((Reader.expr 0).parser maxLevels) ⟨"f(a,b)", 0, callTokens⟩).2.passed) ∧
    (∃ s, (run ((Loop.arguments (.symbol .closeParen)).round maxLevels ([], true))
        ⟨"f(a,b)", 2, callTokens.drop 2⟩).1 = .ok (some s) ∧
      2 < (run ((Loop.arguments (.symbol .closeParen)).round maxLevels ([], true))
        ⟨"f(a,b)", 2, callTokens.drop 2⟩).2.passed) ∧
    Entry.expr.parser 7 callTokens = Entry.expr.parser maxLevels callTokens := by
  obtain ⟨hreaders, hrounds, -, -, -, -, hentries⟩ := reading_moves_on maxLevels
  have hread := hreaders (.expr 0) "f(a,b)" callTokens 0 (by decide)
  have hround := hrounds (.arguments (.symbol .closeParen)) ([], true) "f(a,b)" callTokens 2
    (by decide)
  exact ⟨⟨_, rfl, hread.further _ rfl trivial⟩, ⟨_, rfl, hround.further _ rfl rfl⟩,
    (hentries .expr 7 maxLevels callTokens (by decide) (by decide)).1⟩

end FrontEnd.Parse
