import FrontEnd.Proofs.Construction
import Mathlib.Data.List.InsertIdx

/-! A module only grows. Whatever is called on it, past the builders or through them and with what
outcome ever, its functions and blocks stay at their places, instructions are put between those that
are there, and a block that has returned changes no more. -/

namespace FrontEnd.IR

structure Block.Grows (k k' : Block) : Prop where
  name : k'.name = k.name
  function : k'.function = k.function
  instrs : k.instrs.Sublist k'.instrs
  frozen : k.hasReturned = true → k'.hasReturned = true ∧ k'.instrs = k.instrs

namespace Block.Grows

theorem refl (k : Block) : k.Grows k :=
  ⟨rfl, rfl, List.Sublist.refl _, fun h => ⟨h, rfl⟩⟩

theorem trans {k k' k'' : Block} (h : k.Grows k') (h' : k'.Grows k'') : k.Grows k'' where
  name := h'.name.trans h.name
  function := h'.function.trans h.function
  instrs := h.instrs.trans h'.instrs
  frozen hr := by
    obtain ⟨hr', hi⟩ := h.frozen hr
    obtain ⟨hr'', hi'⟩ := h'.frozen hr'
    exact ⟨hr'', hi'.trans hi⟩

/-- Only an open block takes an instruction. -/
theorem put {f : Func} {k : Block} {i : Instr} {offset : Nat} (hp : Placeable i offset f k) :
    k.Grows (k.put i offset) where
  name := rfl
  function := rfl
  instrs := List.sublist_insertIdx _ _ _
  frozen hr := by simp [hp.opened] at hr

end Block.Grows

/-- The module is a later state of the other one: what was there is there still, and a new block
belongs to the function in which it is found. -/
structure Module.Grows (m m' : Module) : Prop where
  function : ∀ {id f}, m.function? id = some f → ∃ f', m'.function? id = some f' ∧
    f'.name = f.name ∧ f'.returns = f.returns ∧ f'.params = f.params
  block : ∀ {id k}, m.block? id = some k → ∃ k', m'.block? id = some k' ∧ k.Grows k'
  added : ∀ {id k'}, m'.block? id = some k' → m.block? id = none → k'.function = id.function

namespace Module.Grows

variable {m m' m'' : Module}

theorem refl (m : Module) : m.Grows m where
  function h := ⟨_, h, rfl, rfl, rfl⟩
  block h := ⟨_, h, .refl _⟩
  added h hn := by simp [h] at hn

theorem trans (h : m.Grows m') (h' : m'.Grows m'') : m.Grows m'' where
  function hf := by
    obtain ⟨f', hf', hname, hreturns, hparams⟩ := h.function hf
    obtain ⟨f'', hf'', hname', hreturns', hparams'⟩ := h'.function hf'
    exact ⟨f'', hf'', hname'.trans hname, hreturns'.trans hreturns, hparams'.trans hparams⟩
  block hk := by
    obtain ⟨k', hk', hg⟩ := h.block hk
    obtain ⟨k'', hk'', hg'⟩ := h'.block hk'
    exact ⟨k'', hk'', hg.trans hg'⟩
  added {id k''} hk'' hn := by
    cases hk' : m'.block? id with
    | none => exact h'.added hk'' hk'
    | some k' =>
      obtain ⟨l, hl, hg⟩ := h'.block hk'
      obtain rfl : l = k'' := Option.some.inj (hl.symm.trans hk'')
      exact hg.function.trans (h.added hk' hn)

theorem addFunction (name : String) (returns : Ty) (params : List Ty) :
    m.Grows (m.addFunction name returns params).2 := by
  have hold : ∀ {id : FuncId} {f}, m.function? id = some f →
      (m.addFunction name returns params).2.function? id = some f := by
    intro id f hf
    have hlt := (List.getElem?_eq_some_iff.1 hf).1
    rw [function?_addFunction, if_neg (Nat.ne_of_lt hlt)]
    exact hf
  refine ⟨fun hf => ⟨_, hold hf, rfl, rfl, rfl⟩, ?_, ?_⟩
  · intro id k hk
    obtain ⟨f, hf, hk⟩ := block?_eq_some_iff.1 hk
    exact ⟨k, block?_eq_some_iff.2 ⟨f, hold hf, hk⟩, .refl k⟩
  · intro id k' hk' hn
    obtain ⟨f, hf, hk'⟩ := block?_eq_some_iff.1 hk'
    rw [function?_addFunction] at hf
    split at hf
    · -- The new function has no block yet.
      cases hf
      cases hk'
    · have : m.block? id = some k' := block?_eq_some_iff.2 ⟨f, hf, hk'⟩
      simp [this] at hn

/-- A change of a function that keeps its blocks, or puts blocks of the function behind them. -/
theorem modifyFunction {id : FuncId} {g : Func → Func} (hname : ∀ f, (g f).name = f.name)
    (hreturns : ∀ f, (g f).returns = f.returns) (hparams : ∀ f, (g f).params = f.params)
    {more : List Block} (hblocks : ∀ f, (g f).blocks = f.blocks ++ more)
    (hmore : ∀ k ∈ more, k.function = id) : m.Grows (m.modifyFunction id g) := by
  refine ⟨?_, ?_, ?_⟩
  · intro id' f hf
    rw [function?_modifyFunction, hf]
    split
    · exact ⟨g f, rfl, hname f, hreturns f, hparams f⟩
    · exact ⟨f, rfl, rfl, rfl, rfl⟩
  · intro id' k hk
    obtain ⟨f, hf, hk⟩ := block?_eq_some_iff.1 hk
    have hlt := (List.getElem?_eq_some_iff.1 hk).1
    refine ⟨k, block?_eq_some_iff.2 ?_, .refl k⟩
    rw [function?_modifyFunction, hf]
    split
    · exact ⟨g f, rfl, by rw [hblocks, List.getElem?_append_left hlt, hk]⟩
    · exact ⟨f, rfl, hk⟩
  · intro id' k' hk' hn
    obtain ⟨f', hf', hk'⟩ := block?_eq_some_iff.1 hk'
    rw [function?_modifyFunction] at hf'
    split at hf'
    · next hid =>
      obtain ⟨f, hf, rfl⟩ := Option.map_eq_some_iff.1 hf'
      rw [hblocks, List.getElem?_append] at hk'
      split at hk'
      · have : m.block? id' = some k' := block?_eq_some_iff.2 ⟨f, hf, hk'⟩
        simp [this] at hn
      · rw [← hid]
        exact hmore k' (List.mem_of_getElem? hk')
    · have : m.block? id' = some k' := block?_eq_some_iff.2 ⟨f', hf', hk'⟩
      simp [this] at hn

theorem modifyBlock {id : BlockId} {k : Block} {g : Block → Block} (hk : m.block? id = some k)
    (hg : k.Grows (g k)) : m.Grows (m.modifyBlock id g) := by
  refine ⟨?_, ?_, ?_⟩
  · intro id' f hf
    rw [Module.modifyBlock, function?_modifyFunction, hf]
    split
    · exact ⟨_, rfl, rfl, rfl, rfl⟩
    · exact ⟨f, rfl, rfl, rfl, rfl⟩
  · intro id' l hl
    rw [block?_modifyBlock, hl]
    split
    · next hid =>
      subst hid
      obtain rfl : l = k := Option.some.inj (hl.symm.trans hk)
      exact ⟨g l, rfl, hg⟩
    · exact ⟨l, rfl, .refl l⟩
  · intro id' k' hk' hn
    rw [block?_modifyBlock, hn] at hk'
    simp at hk'

end Module.Grows

theorem grows_of_edit {m m' : Module} (h : Edit m m') : m.Grows m' := by
  cases h with
  | function name returns params => exact .addFunction name returns params
  | block id name =>
    exact .modifyFunction (fun _ => rfl) (fun _ => rfl) (fun _ => rfl) (fun _ => rfl) (by simp)
  | name id =>
    refine .modifyFunction (fun _ => rfl) (fun _ => rfl) (fun _ => rfl)
      (fun f => (List.append_nil _).symm) ?_
    intro k hk
    cases hk
  | instr hf hk hp => exact .modifyBlock (Module.block?_eq_some_iff.2 ⟨_, hf, hk⟩) (.put hp)

theorem grows_of_edits {m m' : Module} (h : Edits m m') : m.Grows m' := by
  induction h with
  | refl => exact .refl m
  | tail _ he ih => exact ih.trans (grows_of_edit he)

/-- The module itself lets an instruction into open blocks only. -/
theorem grows_of_insert (m : Module) (id : BlockId) (position : Nat) (i : Instr) :
    m.Grows (Step.orElse m (m.insert id position i)) := by
  cases h : m.insert id position i with
  | error e => exact .refl m
  | ok m' =>
    obtain ⟨f, k, hf, hk, hopen, -, rfl⟩ := Module.insert_cases h
    refine .modifyBlock (Module.block?_eq_some_iff.2 ⟨f, hf, hk⟩)
      ⟨rfl, rfl, List.sublist_insertIdx _ _ _, ?_⟩
    intro hr
    simp [hopen] at hr

/-- A mark once set stays. -/
theorem grows_of_setReturned (m : Module) (id : BlockId) (returned : Bool) :
    m.Grows (Step.orElse m (m.setReturned id returned)) := by
  cases h : m.setReturned id returned with
  | error e => exact .refl m
  | ok m' =>
    obtain ⟨f, k, hf, hk, hkept, rfl⟩ := Module.setReturned_cases h
    exact .modifyBlock (Module.block?_eq_some_iff.2 ⟨f, hf, hk⟩)
      ⟨rfl, rfl, List.Sublist.refl _, fun hr => ⟨hkept hr, rfl⟩⟩

theorem grows_of_step (s : Step) (b : Builder) : b.module.Grows (s.apply b).module := by
  by_cases hs : s.IsDirect
  · cases s with
    | insert block position i => exact grows_of_insert _ _ _ _
    | setReturned block returned => exact grows_of_setReturned _ _ _
    | _ => cases hs
  · exact grows_of_edits (edits_of_step hs b)

theorem grows_of_runAll (steps : List Step) (b : Builder) :
    b.module.Grows (Step.runAll steps b).module := by
  induction steps generalizing b with
  | nil => exact .refl _
  | cons s steps ih => exact (grows_of_step s b).trans (ih (s.apply b))

theorem function_of_reached {b : Builder} (h : Reached (fun _ => True) b) {id : BlockId} {k : Block}
    (hk : b.module.block? id = some k) : k.function = id.function := by
  induction h generalizing k with
  | start name => simp [Builder.ofModule, Module.empty, Module.block?, Module.function?] at hk
  | @step b s _ _ ih =>
    have hg := grows_of_step s b
    cases hl : b.module.block? id with
    | none => exact hg.added hk hl
    | some l =>
      obtain ⟨k', hk', hgl⟩ := hg.block hl
      obtain rfl : k' = k := Option.some.inj (hk'.symm.trans hk)
      exact hgl.function.trans (ih hl)

/-- Whatever is called from here on, direct calls and failed ones included: a function that is there
stays with its name and types, a block that is there stays with its name, its instructions stay in
their order, and once it has returned no other instruction is put between them. Every block names
the function that it is found in. -/
theorem module_keeps {b : Builder} (h : Reached (fun _ => True) b) (steps : List Step) :
    (∀ {id f}, b.module.function? id = some f →
      ∃ f', (Step.runAll steps b).module.function? id = some f' ∧
        f'.name = f.name ∧ f'.returns = f.returns ∧ f'.params = f.params) ∧
    (∀ {id k}, b.module.block? id = some k →
      ∃ k', (Step.runAll steps b).module.block? id = some k' ∧ k'.name = k.name ∧
        k.instrs.Sublist k'.instrs ∧
        (k.hasReturned = true → k'.hasReturned = true ∧ k'.instrs = k.instrs)) ∧
    ∀ {id k}, (Step.runAll steps b).module.block? id = some k → k.function = id.function := by
  have hg := grows_of_runAll steps b
  refine ⟨hg.function, ?_, ?_⟩
  · intro id k hk
    obtain ⟨k', hk', hgk⟩ := hg.block hk
    exact ⟨k', hk', hgk.name, hgk.instrs, hgk.frozen⟩
  · intro id k hk
    have hrun : Reached (fun _ => True) (Step.runAll steps b) := h.runAll fun _ _ => trivial
    exact function_of_reached hrun hk

/-- A function with a block that has returned and one that is open. -/
def halfBuilt : List Step :=
  [.addFunction "f" .i32 [.i32], .addBlock ⟨0⟩ "entry", .addBlock ⟨0⟩ "rest",
    .builderAt ⟨⟨0⟩, 0⟩ .stop, .const .i32 (.int 1), .ret (some ⟨"0", .i32⟩),
    .moveTo ⟨⟨0⟩, 1⟩ .stop, .alloca .i8]

/-- Calls of every kind on it. The block that has returned refuses three, and one is past the end of
the open block. -/
def mixedCalls : List Step :=
  [.insert ⟨⟨0⟩, 0⟩ 0 .retVoid, .setReturned ⟨⟨0⟩, 0⟩ false, .insert ⟨⟨0⟩, 1⟩ 9 .retVoid,
    .insert ⟨⟨0⟩, 1⟩ 0 (.const ⟨"a", .bool⟩ (.bool true)), .addFunction "g" .void [],
    .addBlock ⟨1⟩ "entry", .builderAt ⟨⟨0⟩, 0⟩ .start, .const .i32 (.int 2),
    .moveTo ⟨⟨0⟩, 1⟩ .start, .drawName, .add (.load ⟨"b", .i8⟩ ⟨"1", .ptr .i8⟩)]

theorem module_keeps_mixedCalls :
    Reached (fun _ => True) (Step.runAll halfBuilt (.ofModule (.empty "m"))) ∧
    ∃ k, (Step.runAll mixedCalls (Step.runAll halfBuilt (.ofModule (.empty "m")))).module.block?
        ⟨⟨0⟩, 0⟩ = some k ∧ k.name = "entry" ∧ k.function = ⟨0⟩ ∧ k.hasReturned = true ∧
      k.instrs = [.const ⟨"0", .i32⟩ (.int 1), .ret ⟨"0", .i32⟩] := by
  have hreached : Reached (fun _ => True) (Step.runAll halfBuilt (.ofModule (.empty "m"))) :=
    (Reached.start "m").runAll fun _ _ => trivial
  obtain ⟨-, hblock, hhome⟩ := module_keeps hreached mixedCalls
  obtain ⟨k, hk, hname, -, hfrozen⟩ := @hblock ⟨⟨0⟩, 0⟩ _ rfl
  exact ⟨hreached, k, hk, hname, hhome hk, hfrozen rfl⟩

end FrontEnd.IR
