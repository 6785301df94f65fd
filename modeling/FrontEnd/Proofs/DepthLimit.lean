import FrontEnd.Proofs.Layout
import FrontEnd.Proofs.NestingLimit
import FrontEnd.Proofs.ScriptRoundTrip
import FrontEnd.Proofs.ScriptSoundness
import FrontEnd.Proofs.TreeHeight

/-! How deep the trees are that are read. What is read is nested no deeper than there are levels, so
there is a bound on the steps of a path that take a level. There is none on the others: a sum and a
sequence of `if`s can be as long as one likes. -/

namespace FrontEnd.Parse

open FrontEnd.Grammar FrontEnd.Parser FrontEnd.Program FrontEnd.Tree

def Reading.toTree : (r : Reading) → r.Tree → FrontEnd.Tree
  | expr => Expr.toTree
  | statements => Statement.listTree
  | script => Script.toTree

/-- How many steps a path can have, besides those that loops add, if reading has that many levels. -/
def maxSteps (levels : Nat) : Nat :=
  2 * levels + 5

theorem bounded_reading {r : Reading} {n : Nat} {ts us : List Token} {tree : r.Tree}
    (h : r.parser n ts = .ok tree us) : Bounded (maxSteps n) (r.toTree tree) := by
  rw [maxSteps]
  cases r with
  | expr =>
    obtain ⟨vs, he⟩ := Reading.ok_of_finished h
    obtain ⟨f, -, rfl, hn⟩ := exprSound_expr n _ _ _ he
    exact (bounded_expr f).mono (by omega)
  | statements =>
    obtain ⟨vs, hs⟩ := Reading.ok_of_finished h
    obtain ⟨-, f, -, rfl, hn⟩ := exists_itemsForm hs
    exact (bounded_listTree (formDepthBounded f)).mono (by omega)
  | script =>
    obtain ⟨-, f, -, rfl, hn⟩ := exists_scriptForm h
    exact bounded_script hn

theorem cutShort_reading (r : Reading) {n m : Nat} (h : n ≤ m) :
    CutShort (r.parser n) (r.parser m) :=
  related_reading congruence_cutShort (cutShort_expr h) (bodyCut_level h) r

/-- A well-formed expression is read from its text, if there are levels enough. -/
theorem source_expr {st : Style} {e : Expr} (h : e.WellFormed) {n : Nat}
    (hn : (st.expr e).levels ≤ n) : source (Reading.parser .expr n) (st.expr e).text = .ok e := by
  obtain ⟨ts, htokens, hspells⟩ := tokenize_text (clean_expr h)
  obtain ⟨f, rfl, rfl, hl⟩ := spells_expr h hspells
  have hexpr : Yields (f.levels ≤ n) (expr n (f.tokens ++ [])) (.ok f.value []) :=
    yields_expr (readBack f.1) (Nat.zero_le _) (follows_nil _) f.2 (stops_nil _)
  rw [List.append_nil] at hexpr
  exact source_of_eq_ok htokens (bind_ok (hexpr.fit (hl ▸ hn)))

theorem source_statements {st : Style} {ss : List Statement} (h : Statement.ListWellFormed ss)
    {n : Nat} (hn : (st.statements ss).levels ≤ n) :
    source (Reading.parser .statements n) (st.statements ss).text = .ok ss := by
  obtain ⟨ts, htokens, hspells⟩ := tokenize_text
    (clean_statements h fun s _ hs => clean_statement st s hs)
  have hwritten := written_statements h fun s _ hs rest => written_cons st s hs rest
  obtain ⟨f, rfl, rfl, hl⟩ := hwritten ts hspells
  have hitems : Yields (f.levels ≤ n) (statements n (f.tokens ++ [])) (.ok f.value []) :=
    yields_items (formReadBack f) .ending
  rw [List.append_nil] at hitems
  exact source_of_eq_ok htokens (bind_ok (hitems.fit (hl ▸ hn)))

/-- In the plain style nothing has parentheses that it does not need. -/
theorem place_plain {l : Layer} {e : Expr} (h : l.power ≤ (layerOf e).power) (w : Writing) :
    Style.plain.place l e w = w := by
  rw [Style.place, if_neg]
  simpa [Style.plain] using h

theorem levels_expr_plain (e : Expr) :
    (Style.plain.expr e).levels = 1 + (Style.plain.bare e).levels := by
  rw [Style.expr, Writing.levels_deeper, place_plain]
  cases layerOf e <;> decide

theorem wellFormed_x : (Expr.var "x" none).WellFormed := by
  rw [Expr.WellFormed, Expr.ChildWellFormed]
  exact ⟨by decide +kernel, trivial⟩

theorem levels_x : (Style.plain.bare (.var "x" none)).levels = 0 := by
  simp [Style.bare, Style.child]

/-- Along every path of a tree that is read, the steps that loops do not add are bounded; and where a
reading with more levels gives a tree with a longer path, the nesting is reported to be too deep. -/
theorem depth_limited (r : Reading) (src : String) :
    (∀ tree steps, r.read src = .ok tree → (r.toTree tree).Path steps →
      steps.length ≤ maxSteps maxLevels + loopSteps steps) ∧
    ∀ n tree steps, source (r.parser n) src = .ok tree → (r.toTree tree).Path steps →
      maxSteps maxLevels + loopSteps steps < steps.length →
      ∃ tokens i, tokenize src = .ok tokens ∧ StoppedAt src tokens i .tooDeep (r.read src) := by
  rw [Reading.read_eq]
  refine ⟨fun tree steps hread hpath => ?_, fun n tree steps hread hpath hlong => ?_⟩
  · obtain ⟨tokens, rest, -, hp⟩ := exists_of_source hread
    exact bounded_reading hp steps hpath
  · obtain ⟨tokens, rest, ht, hp⟩ := exists_of_source hread
    have hsteps := bounded_reading hp steps hpath
    have hn : maxLevels ≤ n := by
      rw [maxSteps] at hsteps hlong
      omega
    obtain heq | ⟨us, hdeep, -⟩ := (cutShort_reading r hn).agree tokens
    · -- With the same outcome the path would be in a tree that is read within the limit.
      rw [hp] at heq
      exact absurd (bounded_reading heq steps hpath) (Nat.not_le.2 hlong)
    · have hsuffix := (cutShort_reading r (Nat.le_refl maxLevels)).forward.error hdeep
      rw [List.suffix_iff_eq_drop.1 hsuffix] at hdeep
      exact ⟨tokens, _, ht, source_of_error ht hdeep⟩

/-- The expression `- - ... - x`. -/
def manySigns : Nat → Expr
  | 0 => .var "x" none
  | n + 1 => .negate (manySigns n)

theorem wellFormed_manySigns (n : Nat) : (manySigns n).WellFormed := by
  induction n with
  | zero => exact wellFormed_x
  | succ n ih =>
    rw [manySigns, Expr.WellFormed]
    exact ih

/-- Every sign takes a level. -/
theorem levels_manySigns (n : Nat) : (Style.plain.bare (manySigns n)).levels = n := by
  induction n with
  | zero => exact levels_x
  | succ n ih =>
    have hvalue : Layer.unary.power ≤ (layerOf (manySigns n)).power := by
      cases n with
      | zero => decide
      | succ n => exact Nat.le_refl _
    rw [manySigns, Style.bare, place_plain hvalue]
    simp [ih, Nat.add_comm]

theorem path_manySigns (n : Nat) :
    (manySigns n).toTree.Path (List.replicate n ⟨"Negate", "value"⟩) := by
  induction n with
  | zero => exact .stop _
  | succ n ih =>
    rw [manySigns, Expr.toTree, List.replicate_succ]
    exact .field List.mem_cons_self ih

theorem loopSteps_signs (n : Nat) : loopSteps (List.replicate n ⟨"Negate", "value"⟩) = 0 := by
  rw [loopSteps, List.count_replicate, List.count_replicate, if_neg (by decide),
    if_neg (by decide)]

/-- Three signs are read, and the path through them is short. With levels enough three hundred would
be read, so the nesting is too deep. -/
theorem depth_limited_manySigns :
    (∃ src, readExpr src = .ok (manySigns 3) ∧
      (List.replicate 3 (⟨"Negate", "value"⟩ : Step)).length ≤ maxSteps maxLevels +
        loopSteps (List.replicate 3 ⟨"Negate", "value"⟩)) ∧
    ∃ src, source (Reading.parser .expr 301) src = .ok (manySigns 300) ∧
      ∃ tokens i, tokenize src = .ok tokens ∧ StoppedAt src tokens i .tooDeep (readExpr src) := by
  constructor
  · have hlevels : (Style.plain.expr (manySigns 3)).levels ≤ maxLevels := by
      rw [levels_expr_plain, levels_manySigns]
      decide
    have hread := source_expr (wellFormed_manySigns 3) hlevels
    exact ⟨_, hread, (depth_limited .expr _).1 _ _ hread (path_manySigns 3)⟩
  · have hlevels : (Style.plain.expr (manySigns 300)).levels ≤ 301 := by
      rw [levels_expr_plain, levels_manySigns]
    have hread := source_expr (wellFormed_manySigns 300) hlevels
    refine ⟨_, hread, (depth_limited .expr _).2 301 _ _ hread (path_manySigns 300) ?_⟩
    rw [List.length_replicate, loopSteps_signs]
    decide

/-- The sum `x + x + ... + x`. -/
def longSum : Nat → Expr
  | 0 => .var "x" none
  | n + 1 => .binary .add (longSum n) (.var "x" none)

theorem wellFormed_longSum (n : Nat) : (longSum n).WellFormed := by
  induction n with
  | zero => exact wellFormed_x
  | succ n ih =>
    rw [longSum, Expr.WellFormed]
    exact ⟨ih, wellFormed_x⟩

/-- Only the operands on the right take a level, and they stand beside each other. -/
theorem levels_longSum (n : Nat) : (Style.plain.bare (longSum n)).levels ≤ 1 := by
  induction n with
  | zero =>
    rw [longSum, levels_x]
    exact Nat.zero_le 1
  | succ n ih =>
    have hleft : (leftLayer .add).power ≤ (layerOf (longSum n)).power := by
      cases n with
      | zero => decide
      | succ n => exact Nat.le_refl _
    rw [longSum, Style.bare, place_plain hleft, place_plain (by decide)]
    simpa [levels_x] using Nat.max_le.2 ⟨ih, Nat.le_refl 1⟩

theorem path_longSum (n : Nat) : (longSum n).toTree.Path (List.replicate n intoLeft) := by
  induction n with
  | zero => exact .stop _
  | succ n ih =>
    rw [longSum, Expr.toTree, List.replicate_succ]
    exact .field (List.mem_cons_of_mem _ List.mem_cons_self) ih

/-- The statements `if x { } if x { } ... if x { }`. -/
def manyIfs : Nat → List Statement
  | 0 => []
  | n + 1 => [.branch (.var "x" none) [] none (manyIfs n)]

theorem wellFormed_manyIfs (n : Nat) : Statement.ListWellFormed (manyIfs n) := by
  induction n with
  | zero => rw [manyIfs, Statement.ListWellFormed]; trivial
  | succ n ih =>
    simp only [manyIfs, Statement.ListWellFormed, Statement.WellFormed, Statement.ElseWellFormed]
    exact ⟨⟨wellFormed_x, trivial, trivial, ih⟩, fun _ => trivial, trivial⟩

theorem levels_manyIfs (n : Nat) : (Style.plain.statements (manyIfs n)).levels ≤ 1 := by
  induction n with
  | zero => simp [manyIfs, Style.statements]
  | succ n ih =>
    simp only [manyIfs, Style.statements, Style.statement, Style.elseBranch]
    simpa [levels_expr_plain, levels_x] using Nat.max_le.2 ⟨Nat.le_refl 1, ih⟩

/-- The steps from a statement list through continuations to the last of them. -/
def throughContinuations : Nat → List Step
  | 0 => []
  | n + 1 => ⟨"StatementList", "statements"⟩ :: intoContinuation :: throughContinuations n

theorem length_throughContinuations (n : Nat) : (throughContinuations n).length = 2 * n := by
  induction n with
  | zero => rfl
  | succ n ih =>
    rw [throughContinuations, List.length_cons, List.length_cons, ih]
    omega

theorem path_manyIfs (n : Nat) :
    (Statement.listTree (manyIfs n)).Path (throughContinuations n) := by
  induction n with
  | zero => exact .stop _
  | succ n ih =>
    have hif : (Statement.branch (.var "x" none) [] none (manyIfs n)).toTree.Path
        (intoContinuation :: throughContinuations n) := by
      rw [Statement.toTree]
      exact .field (by simp [Statement.listTree]) ih
    exact .field List.mem_cons_self (.item List.mem_cons_self hif)

/-- No number bounds all paths: a sum has a path as long as the sum, and statements have one that is
longer than the number of their `if`s. -/
theorem not_depth_limited :
    (¬ ∃ bound, ∀ src e steps, readExpr src = .ok e → e.toTree.Path steps →
      steps.length ≤ bound) ∧
    ¬ ∃ bound, ∀ src ss steps, readStatements src = .ok ss →
      (Statement.listTree ss).Path steps → steps.length ≤ bound := by
  constructor
  · rintro ⟨bound, h⟩
    have hlevels : (Style.plain.expr (longSum (bound + 1))).levels ≤ maxLevels := by
      have := levels_longSum (bound + 1)
      rw [levels_expr_plain, maxLevels]
      omega
    have hread := source_expr (wellFormed_longSum (bound + 1)) hlevels
    have hlen := h _ _ _ hread (path_longSum (bound + 1))
    rw [List.length_replicate] at hlen
    omega
  · rintro ⟨bound, h⟩
    have hlevels : (Style.plain.statements (manyIfs (bound + 1))).levels ≤ maxLevels :=
      (levels_manyIfs (bound + 1)).trans (by decide)
    have hread := source_statements (wellFormed_manyIfs (bound + 1)) hlevels
    have hlen := h _ _ _ hread (path_manyIfs (bound + 1))
    rw [length_throughContinuations] at hlen
    omega

end FrontEnd.Parse
