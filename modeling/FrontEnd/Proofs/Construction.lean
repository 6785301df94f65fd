import FrontEnd.IR.Builder
import Mathlib.Logic.Relation

/-! Modules under construction, step by step. A run is any sequence of calls on a module and on the
builders that work on it one after the other, failed calls included. Whatever the call, the module
changes only by a few edits (`Edit`), so what every edit keeps holds all along a run. -/

namespace FrontEnd.IR

/-- A call on a module, or on the builder that works on it. -/
inductive Step where
  | addFunction (name : String) (returns : Ty) (params : List Ty)
  | addBlock (function : FuncId) (name : String)
  /-- Puts an instruction into a block of the module, past every builder. -/
  | insert (block : BlockId) (position : Nat) (i : Instr)
  /-- Marks a block of the module, past every builder. -/
  | setReturned (block : BlockId) (returned : Bool)
  | newBuilder
  | builderAt (block : BlockId) (side : Side)
  | moveTo (block : BlockId) (side : Side)
  /-- Any instruction at all, at the builder's place. -/
  | add (i : Instr)
  | drawName
  | ret (value : Option Value)
  | alloca (type : Ty)
  | const (type : Ty) (value : Const)
  | load (ptr : Value)
  | store (value ptr : Value)
  | binary (op : BinaryOp) (left right : Value)

inductive Answer where
  | done
  | name (text : String)
  | value (v : Value)
  | function (id : FuncId)
  | block (id : BlockId)

namespace Step

/-- The module that an operation gives, or the one it was given if it fails. -/
def orElse {ε : Type} (m : Module) : Except ε Module → Module
  | .ok m' => m'
  | .error _ => m

/-- The builder behind a call. Only one has hold of the module, so a call on the module itself ends
the builder, and the next one stands nowhere yet. -/
def apply : Step → Builder → Builder
  | addFunction name returns params, b => .ofModule (b.module.addFunction name returns params).2
  | addBlock function name, b =>
    .ofModule (orElse b.module ((b.module.addBlock function name).map Prod.snd))
  | insert block position i, b => .ofModule (orElse b.module (b.module.insert block position i))
  | setReturned block returned, b =>
    .ofModule (orElse b.module (b.module.setReturned block returned))
  | newBuilder, b => .ofModule b.module
  | builderAt block side, b =>
    match Builder.ofBlock b.module block side with
    | .ok b' => b'
    | .error _ => .ofModule b.module
  | moveTo block side, b => (b.run (Build.moveTo block side)).2
  | add i, b => (b.run (Build.add i)).2
  | drawName, b => (b.run Build.drawName).2
  | ret value, b => (b.run (Build.ret value)).2
  | alloca type, b => (b.run (Build.alloca type)).2
  | const type value, b => (b.run (Build.const type value)).2
  | load ptr, b => (b.run (Build.load ptr)).2
  | store value ptr, b => (b.run (Build.store value ptr)).2
  | binary op left right, b => (b.run (Build.binary op left right)).2

def runAll (steps : List Step) (b : Builder) : Builder :=
  steps.foldl (fun b s => s.apply b) b

def answer : Step → Builder → Except (Failure Error) Answer
  | addFunction name returns params, b =>
    .ok (.function (b.module.addFunction name returns params).1)
  | addBlock function name, b =>
    ((b.module.addBlock function name).map fun r => .block r.1).mapError .error
  | insert block position i, b => (b.module.insert block position i).map fun _ => .done
  | setReturned block returned, b =>
    ((b.module.setReturned block returned).map fun _ => .done).mapError .error
  | newBuilder, _ => .ok .done
  | builderAt block side, b =>
    ((Builder.ofBlock b.module block side).map fun _ => .done).mapError .error
  | moveTo block side, b => (b.run (Build.moveTo block side)).1.map fun _ => .done
  | add i, b => (b.run (Build.add i)).1.map fun _ => .done
  | drawName, b => (b.run Build.drawName).1.map .name
  | ret value, b => (b.run (Build.ret value)).1.map fun _ => .done
  | alloca type, b => (b.run (Build.alloca type)).1.map .value
  | const type value, b => (b.run (Build.const type value)).1.map .value
  | load ptr, b => (b.run (Build.load ptr)).1.map .value
  | store value ptr, b => (b.run (Build.store value ptr)).1.map fun _ => .done
  | binary op left right, b => (b.run (Build.binary op left right)).1.map .value

def answers : List Step → Builder → List (Except (Failure Error) Answer)
  | [], _ => []
  | s :: steps, b => s.answer b :: answers steps (s.apply b)

/-- The calls that change a block of the module past every builder. -/
def IsDirect : Step → Prop
  | insert _ _ _ => True
  | setReturned _ _ => True
  | _ => False

/-- The calls that give the builder an instruction as it is, or change a block past it. -/
def IsRaw : Step → Prop
  | add _ => True
  | s => s.IsDirect

end Step

/-- The builders that a run of allowed calls on a new module gives. -/
inductive Reached (allowed : Step → Prop) : Builder → Prop
  | start (name : String) : Reached allowed (.ofModule (.empty name))
  | step {b : Builder} (s : Step) : allowed s → Reached allowed b → Reached allowed (s.apply b)

theorem Reached.mono {allowed allowed' : Step → Prop} (h : ∀ s, allowed s → allowed' s)
    {b : Builder} (hb : Reached allowed b) : Reached allowed' b := by
  induction hb with
  | start name => exact .start name
  | step s hs _ ih => exact .step s (h s hs) ih

theorem Reached.runAll {allowed : Step → Prop} {steps : List Step}
    (h : ∀ s ∈ steps, allowed s) {b : Builder} (hb : Reached allowed b) :
    Reached allowed (Step.runAll steps b) := by
  induction steps generalizing b with
  | nil => exact hb
  | cons s steps ih =>
    obtain ⟨hs, hsteps⟩ := List.forall_mem_cons.1 h
    exact ih hsteps (.step s hs hb)

/-- What a builder has made sure of when it puts an instruction into a block of a function. -/
structure Placeable (i : Instr) (offset : Nat) (f : Func) (k : Block) : Prop where
  opened : k.hasReturned = false
  inside : offset ≤ k.instrs.length
  atEnd : i.isTerminator = true → offset = k.instrs.length
  storage : ∀ result type, i = .alloca result type → type.isVoid = false
  returned : ∀ value, i = .ret value → value.type.same f.returns = true

/-- The block with an instruction put into it. A terminator ends it. -/
def Block.put (i : Instr) (offset : Nat) (k : Block) : Block :=
  { k with instrs := k.instrs.insertIdx offset i, hasReturned := k.hasReturned || i.isTerminator }

/-- The changes that all calls are made of, the direct ones apart. -/
inductive Edit (m : Module) : Module → Prop
  | function (name : String) (returns : Ty) (params : List Ty) :
      Edit m (m.addFunction name returns params).2
  | block (id : FuncId) (name : String) :
      Edit m (m.modifyFunction id fun f => { f with blocks := f.blocks ++ [⟨name, id, [], false⟩] })
  | name (id : FuncId) : Edit m (m.modifyFunction id fun f => { f with nextName := f.nextName + 1 })
  | instr {p : Position} {i : Instr} {f : Func} {k : Block} :
      m.function? p.block.function = some f → f.blocks[p.block.index]? = some k →
      Placeable i p.offset f k → Edit m (m.modifyBlock p.block (Block.put i p.offset))

abbrev Edits := Relation.ReflTransGen Edit

theorem mapError_eq_ok_iff {α ε ε' : Type} {x : Except ε α} {f : ε → ε'} {a : α} :
    x.mapError f = .ok a ↔ x = .ok a := by
  cases x <;> constructor <;> rintro ⟨⟩ <;> rfl

section Place

variable {m m' : Module} {id : BlockId} {i : Instr}

theorem Module.locate_cases {f : Func} {k : Block} (h : m.locate id = .ok (f, k)) :
    m.function? id.function = some f ∧ f.blocks[id.index]? = some k := by
  unfold Module.locate at h
  split at h
  · cases h
  split at h
  · cases h
  · next hf _ _ hk =>
    cases h
    exact ⟨hf, hk⟩

theorem Module.insert_cases {position : Nat} (h : m.insert id position i = .ok m') :
    ∃ f k, m.function? id.function = some f ∧ f.blocks[id.index]? = some k ∧
      k.hasReturned = false ∧ position ≤ k.instrs.length ∧
      m' = m.modifyBlock id fun b => { b with instrs := b.instrs.insertIdx position i } := by
  unfold Module.insert at h
  split at h
  · cases h
  split at h
  · cases h
  split at h
  · cases h
  · next f k hl hopen hpos =>
    obtain ⟨hf, hk⟩ := Module.locate_cases hl
    cases h
    exact ⟨f, k, hf, hk, by simpa using hopen, by omega, rfl⟩

theorem Module.setReturned_cases {returned : Bool} (h : m.setReturned id returned = .ok m') :
    ∃ f k, m.function? id.function = some f ∧ f.blocks[id.index]? = some k ∧
      (k.hasReturned = true → returned = true) ∧
      m' = m.modifyBlock id fun b => { b with hasReturned := returned } := by
  unfold Module.setReturned at h
  split at h
  · cases h
  split at h
  · cases h
  · next f k hl hkept =>
    obtain ⟨hf, hk⟩ := Module.locate_cases hl
    cases h
    exact ⟨f, k, hf, hk, by simpa using hkept, rfl⟩

theorem Module.modifyBlock_modifyBlock (g h : Block → Block) :
    (m.modifyBlock id g).modifyBlock id h = m.modifyBlock id (h ∘ g) := by
  simp only [modifyBlock, modifyFunction, List.modify_modify_eq]
  congr 2
  funext f
  simp [List.modify_modify_eq]

theorem check_cases {p : Position} {f : Func} {k : Block} (h : Builder.check i p m = .ok ())
    (hf : m.function? p.block.function = some f) (hk : f.blocks[p.block.index]? = some k)
    (hopen : k.hasReturned = false) (hinside : p.offset ≤ k.instrs.length) :
    Placeable i p.offset f k := by
  have hb : m.block? p.block = some k := by simp [Module.block?, hf, hk]
  unfold Builder.check at h
  simp only [hf, hb, hopen] at h
  refine ⟨hopen, hinside, ?_, ?_, ?_⟩
  · intro hi
    cases i with
    | retVoid => simpa [Instr.isTerminator] using h
    | ret value =>
      simp only [Instr.isTerminator] at h
      grind
    | _ => cases hi
  · rintro result type rfl
    grind
  · rintro value rfl
    grind

/-- An instruction that a builder puts at a place is put there, and it may stand there. -/
theorem place_cases {p : Position} (h : Builder.place i p m = .ok m') :
    ∃ f k, m.function? p.block.function = some f ∧ f.blocks[p.block.index]? = some k ∧
      Placeable i p.offset f k ∧ m' = m.modifyBlock p.block (Block.put i p.offset) := by
  unfold Builder.place at h
  split at h
  · cases h
  next hcheck =>
  split at h
  · cases h
  next m1 hins =>
  obtain ⟨f, k, hf, hk, hopen, hinside, hm1⟩ := Module.insert_cases hins
  refine ⟨f, k, hf, hk, check_cases hcheck hf hk hopen hinside, ?_⟩
  split at h
  · next hterm =>
    obtain ⟨-, -, -, -, -, hm2⟩ := Module.setReturned_cases (mapError_eq_ok_iff.1 h)
    rw [hm2, hm1, Module.modifyBlock_modifyBlock]
    congr 1
    funext b
    simp [Block.put, hterm]
  · next hterm =>
    cases h
    rw [hm1]
    congr 1
    funext b
    simp [Block.put, hterm]

theorem edit_of_place {p : Position} (h : Builder.place i p m = .ok m') : Edit m m' := by
  obtain ⟨f, k, hf, hk, hp, rfl⟩ := place_cases h
  exact .instr hf hk hp

end Place

section Build

variable {α β : Type}

/-- A step of construction that changes the module by edits only, also when it fails. -/
structure ByEdits (x : Build α) : Prop where
  ok : ∀ {b a b'}, x b = .ok a b' → Edits b.module b'.module
  error : ∀ {b e b'}, x b = .error e b' → Edits b.module b'.module

theorem ByEdits.pure (a : α) : ByEdits (pure a : Build α) where
  ok h := by
    cases h
    exact .refl
  error h := by cases h

theorem byEdits_refuse (e : Error) : ByEdits (Build.refuse e : Build α) where
  ok h := by cases h
  error h := by
    cases h
    exact .refl

theorem ByEdits.bind {x : Build α} {f : α → Build β} (hx : ByEdits x) (hf : ∀ a, ByEdits (f a)) :
    ByEdits (x >>= f) where
  ok {b c b'} h := by
    simp only [Bind.bind, EStateM.bind] at h
    split at h
    · next hxb => exact (hx.ok hxb).trans ((hf _).ok h)
    · cases h
  error {b e b'} h := by
    simp only [Bind.bind, EStateM.bind] at h
    split at h
    · next hxb => exact (hx.ok hxb).trans ((hf _).error h)
    · next hxb =>
      cases h
      exact hx.error hxb

/-- A check in front of a step changes nothing by itself. -/
theorem ByEdits.guard {c : Prop} [Decidable c] {e : Error} {x : Build α} (hx : ByEdits x) :
    ByEdits (if c then Build.refuse e >>= fun _ : Unit => x else x) := by
  split
  · exact (byEdits_refuse e).bind fun _ => hx
  · exact hx

theorem module_of_moveTo {id : BlockId} {side : Side} {b b' : Builder}
    (h : b.moveTo id side = .ok b') : b'.module = b.module := by
  unfold Builder.moveTo at h
  split at h
  · cases h
  · cases h
    rfl

theorem byEdits_moveTo (id : BlockId) (side : Side) : ByEdits (Build.moveTo id side) where
  ok {b a b'} h := by
    unfold Build.moveTo at h
    split at h
    · next hm =>
      cases h
      rw [module_of_moveTo hm]
    · cases h
  error {b e b'} h := by
    unfold Build.moveTo at h
    split at h
    · cases h
    · cases h
      exact .refl

theorem byEdits_add (i : Instr) : ByEdits (Build.add i) where
  ok {b a b'} h := by
    unfold Build.add Builder.insert at h
    split at h
    · next hins =>
      cases h
      split at hins
      · cases hins
      split at hins
      · cases hins
      · next hplace =>
        cases hins
        exact .single (edit_of_place hplace)
    · cases h
  error {b e b'} h := by
    unfold Build.add at h
    split at h
    · cases h
    · cases h
      exact .refl

theorem byEdits_drawName : ByEdits Build.drawName where
  ok {b a b'} h := by
    unfold Build.drawName Module.drawName at h
    split at h
    · cases h
    split at h
    · next hdraw =>
      cases h
      split at hdraw
      · cases hdraw
      · cases hdraw
        exact .single (.name _)
    · cases h
  error {b e b'} h := by
    unfold Build.drawName at h
    split at h
    · cases h
      exact .refl
    split at h
    · cases h
    · cases h
      exact .refl

theorem byEdits_addResult (type : Ty) (i : Value → Instr) : ByEdits (Build.addResult type i) :=
  byEdits_drawName.bind fun _ => (byEdits_add _).bind fun _ => .pure _

theorem byEdits_pointee (ptr : Value) : ByEdits (Build.pointee ptr) := by
  unfold Build.pointee
  split
  · exact .pure _
  · exact byEdits_refuse _

theorem byEdits_ret (value : Option Value) : ByEdits (Build.ret value) := by
  cases value with
  | none => exact byEdits_add _
  | some value => exact byEdits_add _

theorem byEdits_store (value ptr : Value) : ByEdits (Build.store value ptr) :=
  (byEdits_pointee ptr).bind fun _ => (byEdits_add _).guard

/-- A violation takes a step back, and then nothing has changed. -/
theorem ByEdits.run {x : Build α} (hx : ByEdits x) (b : Builder) :
    Edits b.module (b.run x).2.module := by
  unfold Builder.run
  split
  · next h => exact hx.ok h
  · next h => exact hx.error h
  · exact .refl

end Build

theorem edits_of_addBlock (m : Module) (id : FuncId) (name : String) :
    Edits m (Step.orElse m ((m.addBlock id name).map Prod.snd)) := by
  unfold Module.addBlock
  split
  · exact .refl
  · exact .single (.block id name)

/-- Every call is made of edits, unless it goes past the builder. -/
theorem edits_of_step {s : Step} (hs : ¬ s.IsDirect) (b : Builder) :
    Edits b.module (s.apply b).module := by
  cases s with
  | addFunction name returns params => exact .single (.function name returns params)
  | addBlock function name => exact edits_of_addBlock _ _ _
  | insert block position i => exact absurd trivial hs
  | setReturned block returned => exact absurd trivial hs
  | newBuilder => exact .refl
  | builderAt block side =>
    rw [Step.apply]
    split
    · next hm =>
      rw [module_of_moveTo hm]
      exact .refl
    · exact .refl
  | moveTo block side => exact (byEdits_moveTo block side).run b
  | add i => exact (byEdits_add i).run b
  | drawName => exact byEdits_drawName.run b
  | ret value => exact (byEdits_ret value).run b
  | alloca type => exact (ByEdits.guard (byEdits_addResult _ _)).run b
  | const type value => exact (ByEdits.guard (byEdits_addResult _ _)).run b
  | load ptr => exact ((byEdits_pointee ptr).bind fun _ => byEdits_addResult _ _).run b
  | store value ptr => exact (byEdits_store value ptr).run b
  | binary op left right => exact (ByEdits.guard (byEdits_addResult _ _)).run b

theorem Edits.keeps {P : Module → Prop} (hedit : ∀ m m', P m → Edit m m' → P m') {m m' : Module}
    (h : Edits m m') (hm : P m) : P m' := by
  induction h with
  | refl => exact hm
  | tail _ he ih => exact hedit _ _ ih he

/-- What holds of a new module and is kept by every edit holds all along a run. -/
theorem Reached.keeps {P : Module → Prop} (hnew : ∀ name, P (.empty name))
    (hedit : ∀ m m', P m → Edit m m' → P m') {b : Builder}
    (h : Reached (fun s => ¬ s.IsDirect) b) : P b.module := by
  induction h with
  | start name => exact hnew name
  | step s hs _ ih => exact Edits.keeps hedit (edits_of_step hs _) ih

/-- Every block satisfies a condition, which may depend on what its function returns. -/
def Module.AllBlocks (R : Ty → Block → Prop) (m : Module) : Prop :=
  ∀ f ∈ m.functions, ∀ k ∈ f.blocks, R f.returns k

/-- A change of one function leaves the others as they are. -/
theorem Module.AllBlocks.modifyFunction {R : Ty → Block → Prop} {m : Module} {id : FuncId}
    {g : Func → Func} (hm : m.AllBlocks R)
    (hg : ∀ f ∈ m.function? id, ∀ k ∈ (g f).blocks, R (g f).returns k) :
    (m.modifyFunction id g).AllBlocks R := by
  intro f hf k hk
  obtain ⟨n, hn⟩ := List.mem_iff_getElem?.1 hf
  simp only [Module.modifyFunction, List.getElem?_modify, Option.map_eq_map, Option.map_eq_some_iff]
    at hn
  obtain ⟨f', hf', rfl⟩ := hn
  split at hk
  · next hid =>
    have hid : m.function? id = some f' := by rw [Module.function?, hid, hf']
    rw [if_pos ‹_›]
    exact hg f' hid k hk
  · rw [if_neg ‹_›]
    exact hm f' (List.mem_of_getElem? hf') k hk

namespace Module.AllBlocks

variable {R : Ty → Block → Prop} {m : Module}

theorem addFunction (hm : m.AllBlocks R) (name : String) (returns : Ty) (params : List Ty) :
    (m.addFunction name returns params).2.AllBlocks R := by
  intro f hf
  rcases List.mem_append.1 hf with hf | hf
  · exact hm f hf
  · cases List.mem_singleton.1 hf
    intro k hk
    cases hk

theorem addBlock (hm : m.AllBlocks R) (hempty : ∀ t name id, R t ⟨name, id, [], false⟩)
    (id : FuncId) (name : String) :
    (m.modifyFunction id fun f =>
      { f with blocks := f.blocks ++ [⟨name, id, [], false⟩] }).AllBlocks R := by
  refine hm.modifyFunction fun f hf k hk => ?_
  rcases List.mem_append.1 hk with hk | hk
  · exact hm f (List.mem_of_getElem? hf) k hk
  · cases List.mem_singleton.1 hk
    exact hempty _ _ _

theorem drawName (hm : m.AllBlocks R) (id : FuncId) :
    (m.modifyFunction id fun f => { f with nextName := f.nextName + 1 }).AllBlocks R :=
  hm.modifyFunction fun f hf => hm f (List.mem_of_getElem? hf)

theorem put (hm : m.AllBlocks R) {id : BlockId} {f : Func} {k : Block} {i : Instr} {offset : Nat}
    (hf : m.function? id.function = some f) (hk : f.blocks[id.index]? = some k)
    (hput : R f.returns k → R f.returns (k.put i offset)) :
    (m.modifyBlock id (Block.put i offset)).AllBlocks R := by
  refine hm.modifyFunction fun f' hf' k' hk' => ?_
  obtain rfl : f' = f := Option.some.inj (hf'.symm.trans hf)
  have hall := hm f' (List.mem_of_getElem? hf)
  obtain ⟨n, hn⟩ := List.mem_iff_getElem?.1 hk'
  simp only [List.getElem?_modify, Option.map_eq_map, Option.map_eq_some_iff] at hn
  obtain ⟨l, hl, rfl⟩ := hn
  split
  · next hn =>
    subst hn
    obtain rfl : l = k := Option.some.inj (hl.symm.trans hk)
    exact hput (hall _ (List.mem_of_getElem? hl))
  · exact hall _ (List.mem_of_getElem? hl)

end Module.AllBlocks

/-- A condition on blocks that holds of an empty one and is kept when a builder puts an instruction
into a block holds of every block all along a run. -/
theorem Reached.allBlocks {R : Ty → Block → Prop}
    (hempty : ∀ t name id, R t ⟨name, id, [], false⟩)
    (hput : ∀ f k i offset, Placeable i offset f k → R f.returns k → R f.returns (k.put i offset))
    {b : Builder} (h : Reached (fun s => ¬ s.IsDirect) b) : b.module.AllBlocks R := by
  refine h.keeps ?_ ?_
  · intro name f hf
    cases hf
  · intro m m' hm he
    cases he with
    | function name returns params => exact hm.addFunction name returns params
    | block id name => exact hm.addBlock hempty id name
    | name id => exact hm.drawName id
    | instr hf hk hp => exact hm.put hf hk (hput _ _ _ _ hp)

end FrontEnd.IR
