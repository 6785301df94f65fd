import FrontEnd.Proofs.Requests
import Mathlib.Data.List.Nodup
import Mathlib.Data.List.Perm.Subperm

/-! The names of a function. Each function numbers its own names from zero on, so whatever is drawn
elsewhere, the names that are drawn in it are the decimal texts of the numbers below its counter, each
once. Every result and every name that a caller got is one of them. -/

namespace FrontEnd.IR

def numerals (n : Nat) : List String :=
  (List.range n).map toString

theorem numerals_succ (n : Nat) : numerals (n + 1) = numerals n ++ [toString n] := by
  simp [numerals, List.range_succ]

theorem toString_injective : Function.Injective (toString : Nat → String) := by
  intro m n h
  have hdigits : Nat.toDigits 10 m = Nat.toDigits 10 n := by
    simpa using congrArg String.toList h
  calc
    m = Nat.ofDigitChars 10 (Nat.toDigits 10 m) 0 := Nat.ofDigitChars_ten_toDigits.symm
    _ = Nat.ofDigitChars 10 (Nat.toDigits 10 n) 0 := by rw [hdigits]
    _ = n := Nat.ofDigitChars_ten_toDigits

theorem nodup_numerals (n : Nat) : (numerals n).Nodup :=
  List.Nodup.map toString_injective List.nodup_range

theorem mem_numerals_iff {s : String} {n : Nat} : s ∈ numerals n ↔ ∃ c < n, s = toString c := by
  simp [numerals, eq_comm]

/-- The names of parameters start with a letter. -/
theorem toString_ne_arg (c index : Nat) : toString c ≠ "arg" ++ toString index := by
  intro h
  have hmem : 'a' ∈ (toString c).toList := by simp [h]
  have hdigit := Nat.isDigit_of_mem_toDigits (by decide) (Nat.le_refl _) (by simpa using hmem)
  exact absurd hdigit (by decide)

def Block.resultNames (k : Block) : List String :=
  k.instrs.filterMap fun i => i.result?.map Value.name

def Func.resultNames (f : Func) : List String :=
  f.blocks.flatMap Block.resultNames

namespace Module

def resultNames (id : FuncId) (m : Module) : List String :=
  (m.function? id).elim [] Func.resultNames

def counter (id : FuncId) (m : Module) : Nat :=
  (m.function? id).elim 0 Func.nextName

end Module

namespace Draw

def namesIn (id : FuncId) (draws : List Draw) : List String :=
  (draws.filter fun d => d.function = id).map name

/-- The names among the drawn ones that a caller got in a function. -/
def handedIn (id : FuncId) (draws : List Draw) : List String :=
  (draws.filter fun d => d.function = id && d.handedOut).map name

theorem namesIn_append (id : FuncId) (ds es : List Draw) :
    namesIn id (ds ++ es) = namesIn id ds ++ namesIn id es := by
  simp [namesIn]

theorem handedIn_append (id : FuncId) (ds es : List Draw) :
    handedIn id (ds ++ es) = handedIn id ds ++ handedIn id es := by
  simp [handedIn]

theorem handedIn_sublist_namesIn (id : FuncId) (draws : List Draw) :
    (handedIn id draws).Sublist (namesIn id draws) := by
  refine List.Sublist.map name (List.monotone_filter_right draws fun d hd => ?_)
  exact (Bool.and_eq_true_iff.1 hd).1

end Draw

def Step.draws : List Step → Builder → List Draw
  | [], _ => []
  | s :: steps, b => (s.draw? b).toList ++ draws steps (s.apply b)

theorem Block.resultNames_put {k : Block} {i : Instr} {offset : Nat}
    (h : offset ≤ k.instrs.length) :
    (k.put i offset).resultNames.Perm ((i.result?.map Value.name).toList ++ k.resultNames) := by
  have hperm := (List.perm_insertIdx i k.instrs h).filterMap fun i => i.result?.map Value.name
  refine hperm.trans ?_
  cases hi : i.result? <;> simp [hi, Block.resultNames]

theorem perm_flatMap_modify {α β : Type} {l : List α} {n : Nat} {a : α} {g : α → α}
    {h : α → List β} {xs : List β} (ha : l[n]? = some a) (hg : (h (g a)).Perm (xs ++ h a)) :
    ((l.modify n g).flatMap h).Perm (xs ++ l.flatMap h) := by
  induction l generalizing n with
  | nil => simp at ha
  | cons c l ih =>
    cases n with
    | zero =>
      obtain rfl : c = a := by simpa using ha
      simpa using hg.append_right (l.flatMap h)
    | succ n =>
      have := ih (n := n) (by simpa using ha)
      simp only [List.modify_succ_cons, List.flatMap_cons]
      refine (this.append_left (h c)).trans ?_
      rw [← List.append_assoc, ← List.append_assoc]
      exact List.perm_append_comm.append_right _

namespace Module

theorem resultNames_of_function? {m : Module} {id : FuncId} {f : Func}
    (h : m.function? id = some f) : m.resultNames id = f.resultNames := by
  rw [resultNames, h]
  rfl

theorem counter_of_function? {m : Module} {id : FuncId} {f : Func}
    (h : m.function? id = some f) : m.counter id = f.nextName := by
  rw [counter, h]
  rfl

theorem resultNames_empty (name : String) (id : FuncId) : (empty name).resultNames id = [] := rfl

theorem counter_empty (name : String) (id : FuncId) : (empty name).counter id = 0 := rfl

theorem resultNames_addFunction (m : Module) (name : String) (returns : Ty) (params : List Ty)
    (id : FuncId) : (m.addFunction name returns params).2.resultNames id = m.resultNames id := by
  rw [resultNames, function?_addFunction]
  split
  · next hid => simp [resultNames, function?, hid, Func.resultNames]
  · rfl

theorem counter_addFunction (m : Module) (name : String) (returns : Ty) (params : List Ty)
    (id : FuncId) : (m.addFunction name returns params).2.counter id = m.counter id := by
  rw [counter, function?_addFunction]
  split
  · next hid => simp [counter, function?, hid]
  · rfl

theorem resultNames_modifyFunction {m : Module} {id : FuncId} {g : Func → Func}
    (hg : ∀ f, (g f).resultNames = f.resultNames) (other : FuncId) :
    (m.modifyFunction id g).resultNames other = m.resultNames other := by
  rw [resultNames, function?_modifyFunction]
  split
  · cases hf : m.function? other <;> simp [resultNames, hf, hg]
  · rfl

theorem counter_modifyFunction {m : Module} {id : FuncId} {g : Func → Func}
    (hg : ∀ f, (g f).nextName = f.nextName) (other : FuncId) :
    (m.modifyFunction id g).counter other = m.counter other := by
  rw [counter, function?_modifyFunction]
  split
  · cases hf : m.function? other <;> simp [counter, hf, hg]
  · rfl

end Module

namespace Builder

theorem resultNames_named (id : FuncId) (b : Builder) (other : FuncId) :
    (b.named id).module.resultNames other = b.module.resultNames other := by
  rw [named, Module.resultNames_modifyFunction]
  intro f
  rfl

theorem counter_put (i : Instr) (p : Position) (b : Builder) (id : FuncId) :
    (b.put i p).module.counter id = b.module.counter id := by
  rw [put, Module.modifyBlock, Module.counter_modifyFunction]
  intro f
  rfl

variable {b : Builder} {p : Position} {f : Func} {k : Block}

theorem StandsIn.numerals_counter_named (h : b.StandsIn p f k) (handedOut : Bool) (id : FuncId) :
    numerals ((b.named p.block.function).module.counter id) =
      numerals (b.module.counter id) ++
        Draw.namesIn id [⟨p.block.function, toString f.nextName, handedOut⟩] := by
  rw [Module.counter, Builder.named, Module.function?_modifyFunction]
  split
  · next hid =>
    subst hid
    simp [Module.counter, h.function, numerals_succ, Draw.namesIn]
  · next hid => simp [Module.counter, Draw.namesIn, hid]

/-- An instruction that is put at a place adds the name of its result, if it has one, to those of
the function. -/
theorem StandsIn.resultNames_put (h : b.StandsIn p f k) (i : Instr) (id : FuncId) :
    ((b.put i p).module.resultNames id).Perm
      ((if p.block.function = id then (i.result?.map Value.name).toList else []) ++
        b.module.resultNames id) := by
  rw [Module.resultNames, Builder.put, Module.modifyBlock, Module.function?_modifyFunction]
  split
  · next hid =>
    subst hid
    simp only [h.function, Option.map_some, Option.elim_some, Module.resultNames]
    exact perm_flatMap_modify h.block (Block.resultNames_put h.inside)
  · exact .refl _

end Builder

/-- What a call that draws the names does to those of a function: its counter goes past them, and
each of them becomes that of a result, or the caller's, or is lost. -/
structure NamesGrow (id : FuncId) (draws : List Draw) (m m' : Module) : Prop where
  counter : numerals (m'.counter id) = numerals (m.counter id) ++ Draw.namesIn id draws
  used : (m'.resultNames id ++ Draw.handedIn id draws).Subperm
    (m.resultNames id ++ Draw.namesIn id draws)

theorem namesGrow_of_none {id : FuncId} {m m' : Module} (hc : m'.counter id = m.counter id)
    (hr : (m'.resultNames id).Perm (m.resultNames id)) : NamesGrow id [] m m' where
  counter := by simp [hc, Draw.namesIn]
  used := by simpa [Draw.namesIn, Draw.handedIn] using hr.subperm

theorem namesGrow_of_change {b b' : Builder} {d : Option Draw} (h : Change b d b') (id : FuncId) :
    NamesGrow id d.toList b.module b'.module := by
  cases h with
  | idle _ => exact namesGrow_of_none rfl (.refl _)
  | function name returns params =>
    refine namesGrow_of_none (Module.counter_addFunction ..) ?_
    rw [Builder.ofModule, Module.resultNames_addFunction]
  | block fid name =>
    refine namesGrow_of_none ?_ ?_
    · rw [Builder.ofModule, Module.counter_modifyFunction]
      intro f
      rfl
    · rw [Builder.ofModule, Module.resultNames_modifyFunction]
      intro f
      simp [Func.resultNames, Block.resultNames]
  | @plain p f k i hs _ hresult _ =>
    refine namesGrow_of_none (Builder.counter_put i p b id) ?_
    simpa [hresult] using hs.resultNames_put i id
  | @name p f k handedOut hs =>
    refine ⟨hs.numerals_counter_named handedOut id, ?_⟩
    rw [Builder.resultNames_named]
    exact ((Draw.handedIn_sublist_namesIn id _).append_left _).subperm
  | @fresh p f k type i hs _ hresult _ =>
    refine ⟨?_, ?_⟩
    · rw [Builder.counter_put]
      exact hs.numerals_counter_named false id
    · have hput := hs.named.resultNames_put i id
      rw [Builder.resultNames_named, hresult] at hput
      have hhanded : Draw.handedIn id [⟨p.block.function, toString f.nextName, false⟩] = [] := by
        simp [Draw.handedIn]
      have hnames : Draw.namesIn id [⟨p.block.function, toString f.nextName, false⟩] =
          if p.block.function = id then [toString f.nextName] else [] := by
        by_cases hid : p.block.function = id <;> simp [Draw.namesIn, hid]
      rw [Option.toList_some, hhanded, hnames, List.append_nil]
      exact (hput.trans List.perm_append_comm).subperm

theorem perm_append_swap {α : Type} (xs ys zs : List α) :
    (xs ++ ys ++ zs).Perm (xs ++ zs ++ ys) := by
  rw [List.append_assoc, List.append_assoc]
  exact List.perm_append_comm.append_left xs

theorem NamesGrow.trans {id : FuncId} {ds es : List Draw} {m m' m'' : Module}
    (h : NamesGrow id ds m m') (h' : NamesGrow id es m' m'') : NamesGrow id (ds ++ es) m m'' where
  counter := by
    rw [h'.counter, h.counter, Draw.namesIn_append, List.append_assoc]
  used := by
    rw [Draw.namesIn_append, Draw.handedIn_append, ← List.append_assoc, ← List.append_assoc]
    -- What callers got first stands aside while the later names are counted, and the other way.
    have hlater := h'.used.append (List.Subperm.refl (Draw.handedIn id ds))
    have hearlier := h.used.append (List.Subperm.refl (Draw.namesIn id es))
    exact (perm_append_swap ..).subperm.trans
      (hlater.trans ((perm_append_swap ..).subperm.trans hearlier))

theorem namesGrow_of_runAll {steps : List Step} (h : ∀ s ∈ steps, ¬ s.IsRaw) {b : Builder}
    (hb : b.Placed) (id : FuncId) :
    NamesGrow id (Step.draws steps b) b.module (Step.runAll steps b).module := by
  induction steps generalizing b with
  | nil => exact namesGrow_of_none rfl (.refl _)
  | cons s steps ih =>
    obtain ⟨hs, hsteps⟩ := List.forall_mem_cons.1 h
    have hchange := change_of_step hs hb
    exact (namesGrow_of_change hchange id).trans (ih hsteps hchange.placed)

/-- In every run of calls that are not raw, failed ones included, and for every function: the names
of the results of its instructions, with those that callers got from it, are all different, none is
that of a parameter, and each is the decimal text of a number below the function's counter. The names
that were drawn in the function are those texts in their order, whatever was drawn in others. -/
theorem names_distinct (name : String) {steps : List Step} (h : ∀ s ∈ steps, ¬ s.IsRaw)
    {id : FuncId} {f : Func}
    (hf : (Step.runAll steps (.ofModule (.empty name))).module.function? id = some f) :
    let draws := Step.draws steps (.ofModule (.empty name))
    (f.resultNames ++ Draw.handedIn id draws).Nodup ∧
    (∀ n ∈ f.resultNames ++ Draw.handedIn id draws,
      (∃ c < f.nextName, n = toString c) ∧ ∀ index : Nat, n ≠ "arg" ++ toString index) ∧
    Draw.namesIn id draws = (List.range f.nextName).map toString := by
  intro draws
  obtain ⟨hcounter, hused⟩ := namesGrow_of_runAll h (Builder.placed_ofModule (.empty name)) id
  have hnames : Draw.namesIn id draws = numerals f.nextName := by
    rw [Module.counter_of_function? hf, Builder.ofModule, Module.counter_empty] at hcounter
    exact hcounter.symm
  have hsub : (f.resultNames ++ Draw.handedIn id draws).Subperm (numerals f.nextName) := by
    rw [Module.resultNames_of_function? hf, Builder.ofModule, Module.resultNames_empty] at hused
    rw [← hnames]
    exact hused
  refine ⟨?_, ?_, hnames⟩
  · obtain ⟨names, hperm, hsublist⟩ := hsub
    exact hperm.nodup_iff.1 ((nodup_numerals _).sublist hsublist)
  · intro n hn
    obtain ⟨c, hc, rfl⟩ := mem_numerals_iff.1 (hsub.subset hn)
    exact ⟨⟨c, hc, rfl⟩, toString_ne_arg c⟩

/-- Names in two functions by turns. One is for an instruction that a block which has returned then
refuses. -/
def namedByTurns : List Step :=
  [.addFunction "f" .i32 [.i32], .addFunction "g" .void [], .addBlock ⟨0⟩ "entry",
    .addBlock ⟨1⟩ "entry", .builderAt ⟨⟨0⟩, 0⟩ .stop, .const .i32 (.int 1), .drawName,
    .moveTo ⟨⟨1⟩, 0⟩ .stop, .ret none, .alloca .i8, .drawName, .newBuilder, .drawName,
    .moveTo ⟨⟨0⟩, 0⟩ .start, .alloca .i32]

theorem names_distinct_namedByTurns :
    (∀ s ∈ namedByTurns, ¬ s.IsRaw) ∧
    ∃ f, (Step.runAll namedByTurns (.ofModule (.empty "m"))).module.function? ⟨0⟩ = some f ∧
      f.resultNames = ["2", "0"] ∧
      Draw.handedIn ⟨0⟩ (Step.draws namedByTurns (.ofModule (.empty "m"))) = ["1"] ∧
      (f.resultNames ++
        Draw.handedIn ⟨0⟩ (Step.draws namedByTurns (.ofModule (.empty "m")))).Nodup ∧
      Draw.namesIn ⟨1⟩ (Step.draws namedByTurns (.ofModule (.empty "m"))) =
        (List.range 2).map toString := by
  have hsteps : ∀ s ∈ namedByTurns, ¬ s.IsRaw := by
    simp [namedByTurns, Step.IsRaw, Step.IsDirect]
  obtain ⟨hdistinct, -, -⟩ := @names_distinct "m" _ hsteps ⟨0⟩ _ rfl
  obtain ⟨-, -, hdrawn⟩ := @names_distinct "m" _ hsteps ⟨1⟩ _ rfl
  exact ⟨hsteps, _, rfl, rfl, rfl, hdistinct, hdrawn⟩

end FrontEnd.IR
