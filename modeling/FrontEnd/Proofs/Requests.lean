import FrontEnd.Proofs.Construction

/-! What the calls on a builder come down to. A call looks at its operands first. Then it is refused,
or it asks for an instruction at the builder's place, as it is or with a fresh result (`Request`). So
every call that is not raw does one of a few things (`Change`), and each says which name is drawn on
the way. -/

namespace FrontEnd.IR

/-- The parts of the instruction fit together, in a function that returns the type. -/
def Instr.WellTyped (returns : Ty) : Instr → Prop
  | retVoid => True
  | ret value => value.type.same returns = true
  | alloca result type => type.isVoid = false ∧ result.type.same (.ptr type) = true
  | const result value => value.fits result.type = true
  | load result ptr => ∃ t, ptr.type = .ptr t ∧ result.type.same t = true
  | store value ptr => ∃ t, ptr.type = .ptr t ∧ value.type.same t = true
  | binary result op left right =>
    left.type.same right.type = true ∧
      result.type.same (if op.isComparison then .bool else left.type) = true

/-- What a call asks for once its operands are checked. -/
inductive Request where
  | refused (e : Error)
  | plain (i : Instr)
  /-- An instruction with a result of the type, under a name that is drawn for it. -/
  | fresh (type : Ty) (i : Value → Instr)

def Request.exec : Request → Builder → Builder
  | refused _, b => b
  | plain i, b => (b.run (Build.add i)).2
  | fresh type i, b => (b.run (Build.addResult type i)).2

def Request.answer : Request → Builder → Except (Failure Error) Answer
  | refused e, _ => .error (.error e)
  | plain i, b => (b.run (Build.add i)).1.map fun _ => .done
  | fresh type i, b => (b.run (Build.addResult type i)).1.map .value

def Request.Checked : Request → Prop
  | refused _ => True
  | plain i =>
    i.result? = none ∧
      ∀ returns, (∀ value, i = .ret value → value.type.same returns = true) → i.WellTyped returns
  | fresh type i =>
    ∀ name returns, (i ⟨name, type⟩).result? = some ⟨name, type⟩ ∧
      (i ⟨name, type⟩).WellTyped returns

namespace Step

def request? : Step → Option Request
  | ret value => some (.plain (value.elim .retVoid .ret))
  | alloca type =>
    some (if type.isVoid then .refused .voidAllocation else .fresh (.ptr type) (.alloca · type))
  | const type value =>
    some (if value.fits type then .fresh type (.const · value)
      else .refused (.constantMismatch value type))
  | load ptr =>
    some (match ptr.type.pointee? with
      | some t => .fresh t (.load · ptr)
      | none => .refused (.notAPointer ptr))
  | store value ptr =>
    some (match ptr.type.pointee? with
      | some t =>
        if value.type.same t then .plain (.store value ptr)
        else .refused (.operandMismatch "store" value.type t)
      | none => .refused (.notAPointer ptr))
  | binary op left right =>
    some (if left.type.same right.type then
        .fresh (op.resultType left.type) (.binary · op left right)
      else .refused (.operandMismatch op.text left.type right.type))
  | _ => none

def value? : Step → Option (Build Value)
  | alloca type => some (Build.alloca type)
  | const type value => some (Build.const type value)
  | load ptr => some (Build.load ptr)
  | binary op left right => some (Build.binary op left right)
  | _ => none

/-- The instruction of a call that gives a value, with the value as its result. -/
def instr? (v : Value) : Step → Option Instr
  | alloca type => some (.alloca v type)
  | const _ value => some (.const v value)
  | load ptr => some (.load v ptr)
  | binary op left right => some (.binary v op left right)
  | _ => none

/-- A call that gives a value is refused, or it asks for its instruction with a fresh result. -/
theorem run_of_value {s : Step} {x : Build Value} (h : s.value? = some x) (b : Builder) :
    (∃ e, s.request? = some (.refused e) ∧ b.run x = (.error (.error e), b)) ∨
      ∃ type i, s.request? = some (.fresh type i) ∧ (∀ v, s.instr? v = some (i v)) ∧
        b.run x = b.run (Build.addResult type i) := by
  cases s with
  | alloca type =>
    cases h
    simp only [request?, Build.alloca]
    cases type.isVoid with
    | true => exact .inl ⟨_, rfl, rfl⟩
    | false => exact .inr ⟨_, _, rfl, fun _ => rfl, rfl⟩
  | const type value =>
    cases h
    simp only [request?, Build.const]
    cases value.fits type with
    | true => exact .inr ⟨_, _, rfl, fun _ => rfl, rfl⟩
    | false => exact .inl ⟨_, rfl, rfl⟩
  | load ptr =>
    cases h
    simp only [request?, Build.load, Build.pointee]
    cases ptr.type.pointee? with
    | none => exact .inl ⟨_, rfl, rfl⟩
    | some t => exact .inr ⟨_, _, rfl, fun _ => rfl, rfl⟩
  | binary op left right =>
    cases h
    simp only [request?, Build.binary]
    cases left.type.same right.type with
    | true => exact .inr ⟨_, _, rfl, fun _ => rfl, rfl⟩
    | false => exact .inl ⟨_, rfl, rfl⟩
  | _ => cases h

theorem effect_of_value {s : Step} {x : Build Value} (h : s.value? = some x) (b : Builder) :
    s.apply b = (b.run x).2 ∧ s.answer b = (b.run x).1.map .value := by
  cases s <;> cases h <;> exact ⟨rfl, rfl⟩

/-- A call does what it asks for, and nothing else. -/
theorem effect_of_request {s : Step} {r : Request} (h : s.request? = some r) (b : Builder) :
    s.apply b = r.exec b ∧ s.answer b = r.answer b := by
  cases hv : s.value? with
  | some x =>
    obtain ⟨happly, hanswer⟩ := effect_of_value hv b
    rw [happly, hanswer]
    rcases run_of_value hv b with ⟨e, hr, hrun⟩ | ⟨type, i, hr, -, hrun⟩
    · obtain rfl : r = .refused e := Option.some.inj (h.symm.trans hr)
      rw [hrun]
      exact ⟨rfl, rfl⟩
    · obtain rfl : r = .fresh type i := Option.some.inj (h.symm.trans hr)
      rw [hrun]
      exact ⟨rfl, rfl⟩
  | none =>
    cases s with
    | ret value =>
      cases value with
      | none =>
        cases h
        exact ⟨rfl, rfl⟩
      | some value =>
        cases h
        exact ⟨rfl, rfl⟩
    | store value ptr =>
      cases h
      simp only [apply, answer, Build.store, Build.pointee]
      cases ptr.type.pointee? with
      | none => exact ⟨rfl, rfl⟩
      | some t =>
        simp only [pure_bind]
        cases value.type.same t <;> exact ⟨rfl, rfl⟩
    | _ => cases h <;> cases hv

/-- The operands of an instruction that a call asks for fit together. Only what a return gives has
still to be compared with the function. -/
theorem checked_of_request {s : Step} {r : Request} (h : s.request? = some r) : r.Checked := by
  cases s with
  | ret value =>
    cases value with
    | none =>
      cases h
      exact ⟨rfl, fun _ _ => trivial⟩
    | some value =>
      cases h
      exact ⟨rfl, fun _ hret => hret value rfl⟩
  | alloca type =>
    cases h
    split
    · trivial
    · next hvoid => exact fun _ _ => ⟨rfl, by simpa using hvoid, Ty.same_self _⟩
  | const type value =>
    cases h
    split
    · next hfits => exact fun _ _ => ⟨rfl, hfits⟩
    · trivial
  | load ptr =>
    cases h
    split
    · next hptr => exact fun _ _ => ⟨rfl, _, Ty.pointee?_eq_some_iff.1 hptr, Ty.same_self _⟩
    · trivial
  | store value ptr =>
    cases h
    split
    · next hptr =>
      split
      · next hsame => exact ⟨rfl, fun _ _ => ⟨_, Ty.pointee?_eq_some_iff.1 hptr, hsame⟩⟩
      · trivial
    · trivial
  | binary op left right =>
    cases h
    split
    · next hsame => exact fun _ _ => ⟨rfl, hsame, Ty.same_self _⟩
    · trivial
  | _ => cases h

end Step

structure Builder.StandsIn (b : Builder) (p : Position) (f : Func) (k : Block) : Prop where
  position : b.position = some p
  function : b.module.function? p.block.function = some f
  block : f.blocks[p.block.index]? = some k
  inside : p.offset ≤ k.instrs.length

namespace Builder

def named (id : FuncId) (b : Builder) : Builder :=
  { b with module := b.module.modifyFunction id fun f => { f with nextName := f.nextName + 1 } }

def put (i : Instr) (p : Position) (b : Builder) : Builder :=
  ⟨b.module.modifyBlock p.block (Block.put i p.offset), some { p with offset := p.offset + 1 }⟩

/-- If the builder stands anywhere, it stands in a block. -/
def Placed (b : Builder) : Prop :=
  ∀ p, b.position = some p → ∃ f k, b.StandsIn p f k

theorem placed_ofModule (m : Module) : (ofModule m).Placed := by
  intro p hp
  cases hp

theorem StandsIn.block? {b : Builder} {p : Position} {f : Func} {k : Block}
    (h : b.StandsIn p f k) : b.module.block? p.block = some k :=
  Module.block?_eq_some_iff.2 ⟨f, h.function, h.block⟩

theorem standsIn_of_block? {b : Builder} {p : Position} {k : Block} (hp : b.position = some p)
    (hk : b.module.block? p.block = some k) (hle : p.offset ≤ k.instrs.length) :
    ∃ f, b.StandsIn p f k := by
  obtain ⟨f, hf, hk⟩ := Module.block?_eq_some_iff.1 hk
  exact ⟨f, hp, hf, hk, hle⟩

theorem StandsIn.named {b : Builder} {p : Position} {f : Func} {k : Block} (h : b.StandsIn p f k) :
    (b.named p.block.function).StandsIn p { f with nextName := f.nextName + 1 } k where
  position := h.position
  function := by simp [Builder.named, Module.function?_modifyFunction, h.function]
  block := h.block
  inside := h.inside

theorem block?_named (id : FuncId) (b : Builder) (other : BlockId) :
    (b.named id).module.block? other = b.module.block? other := by
  simp only [Builder.named, Module.block?, Module.function?_modifyFunction]
  split
  · cases b.module.function? other.function <;> rfl
  · rfl

theorem StandsIn.put {b : Builder} {p : Position} {f : Func} {k : Block} (h : b.StandsIn p f k)
    (i : Instr) : (b.put i p).Placed := by
  intro q hq
  have hk : (b.put i p).module.block? p.block = some (k.put i p.offset) := by
    rw [Builder.put, Module.block?_modifyBlock, h.block?, if_pos rfl]
    rfl
  have hle : p.offset + 1 ≤ (k.put i p.offset).instrs.length := by
    rw [Block.put, List.length_insertIdx_of_le_length h.inside]
    exact Nat.succ_le_succ h.inside
  obtain rfl : { p with offset := p.offset + 1 } = q := Option.some.inj hq
  obtain ⟨f', hf'⟩ := standsIn_of_block? hq hk hle
  exact ⟨f', _, hf'⟩

end Builder

/-- Why an instruction is refused at a place in a block of a function. -/
inductive Refusal (i : Instr) (offset : Nat) (f : Func) (k : Block) : Error → Prop
  | storage {result : Value} {type : Ty} :
      i = .alloca result type → type.isVoid = true → Refusal i offset f k .voidAllocation
  | returned {value : Value} : i = .ret value → value.type.same f.returns = false →
      Refusal i offset f k (.returnTypeMismatch f.name value f.returns)
  | notAtEnd : i.isTerminator = true → k.hasReturned = false → offset ≠ k.instrs.length →
      Refusal i offset f k (.terminatorNotAtEnd f.name k.name)
  | closed : k.hasReturned = true → Refusal i offset f k (.blockTerminated f.name k.name)

/-- The names that are drawn in a function do not matter. -/
theorem Refusal.of_named {i : Instr} {offset n : Nat} {f : Func} {k : Block} {e : Error}
    (h : Refusal i offset { f with nextName := n } k e) : Refusal i offset f k e := by
  cases h with
  | storage hi hv => exact .storage hi hv
  | returned hi hs => exact .returned hi hs
  | notAtEnd hi ho hn => exact .notAtEnd hi ho hn
  | closed hr => exact .closed hr

/-- What may stand at a place is not refused there. -/
theorem Refusal.not_placeable {i : Instr} {offset : Nat} {f : Func} {k : Block} {e : Error}
    (h : Refusal i offset f k e) : ¬ Placeable i offset f k := by
  intro hp
  cases h with
  | storage hi hv => cases hv.symm.trans (hp.storage _ _ hi)
  | returned hi hs => cases hs.symm.trans (hp.returned _ hi)
  | notAtEnd hi _ hn => exact hn (hp.atEnd hi)
  | closed hr => cases hr.symm.trans hp.opened

theorem Module.block?_modifyBlock_self {m : Module} {id : BlockId} {k : Block}
    (h : m.block? id = some k) (g : Block → Block) :
    (m.modifyBlock id g).block? id = some (g k) := by
  rw [Module.block?_modifyBlock, if_pos rfl, h]
  rfl

/-- A block that is there can be marked. -/
theorem Module.setReturned_of_block? {m : Module} {id : BlockId} {k : Block}
    (h : m.block? id = some k) :
    m.setReturned id true = .ok (m.modifyBlock id fun b => { b with hasReturned := true }) := by
  obtain ⟨f, hf, hk⟩ := Module.block?_eq_some_iff.1 h
  simp [Module.setReturned, Module.locate, hf, hk]

section Effect

variable {b : Builder} {α β : Type}

theorem bind_ok {x : Build α} {f : α → Build β} {a : α} {b' : Builder} (h : x b = .ok a b') :
    (x >>= f) b = f a b' := by
  simp only [Bind.bind, EStateM.bind, h]

theorem bind_error {x : Build α} {f : α → Build β} {e : Failure Error} {b' : Builder}
    (h : x b = .error e b') : (x >>= f) b = .error e b' := by
  simp only [Bind.bind, EStateM.bind, h]

theorem refusal_of_check {i : Instr} {p : Position} {f : Func} {k : Block} {e : Error}
    (hb : b.StandsIn p f k) (h : Builder.check i p b.module = .error e) :
    Refusal i p.offset f k e := by
  simp only [Builder.check, hb.function, hb.block?] at h
  have hcloses : (if i.isTerminator && !k.hasReturned && p.offset != k.instrs.length then
      Except.error (Error.terminatorNotAtEnd f.name k.name) else .ok ()) = .error e →
      Refusal i p.offset f k e := by
    intro hif
    split at hif
    · next hends =>
      cases hif
      simp only [Bool.and_eq_true, Bool.not_eq_true', bne_iff_ne] at hends
      exact .notAtEnd hends.1.1 hends.1.2 hends.2
    · cases hif
  cases i with
  | alloca result type =>
    dsimp only at h
    split at h
    · next hv =>
      cases h
      exact .storage rfl hv
    · exact hcloses h
  | ret value =>
    dsimp only at h
    split at h
    · exact hcloses h
    · next hs =>
      cases h
      exact .returned rfl (by simpa using hs)
  | _ => exact hcloses h

/-- A builder that stands in a block is not asked for a place past its end, and it can mark the block
that it has put a terminator into. -/
theorem refusal_of_place {i : Instr} {p : Position} {f : Func} {k : Block} {e : Failure Error}
    (hb : b.StandsIn p f k) (h : Builder.place i p b.module = .error e) :
    ∃ e', e = .error e' ∧ Refusal i p.offset f k e' := by
  have hlocate : b.module.locate p.block = .ok (f, k) := by
    simp [Module.locate, hb.function, hb.block]
  unfold Builder.place at h
  split at h
  · next hcheck =>
    cases h
    exact ⟨_, rfl, refusal_of_check hb hcheck⟩
  simp only [Module.insert, hlocate] at h
  split at h
  · next hins =>
    cases h
    split at hins
    · next hr =>
      cases hins
      exact ⟨_, rfl, .closed hr⟩
    split at hins
    · exact absurd hb.inside (by omega)
    · cases hins
  · next hins =>
    split at hins
    · cases hins
    split at hins
    · cases hins
    cases hins
    rw [Module.setReturned_of_block? (Module.block?_modifyBlock_self hb.block? _)] at h
    split at h <;> cases h

/-- Where a builder stands, an instruction is refused and nothing changes, or it may stand there and
is put. -/
theorem add_of_standsIn {p : Position} {f : Func} {k : Block} (hb : b.StandsIn p f k) (i : Instr) :
    (∃ e, Refusal i p.offset f k e ∧ Build.add i b = .error (.error e) b) ∨
      Placeable i p.offset f k ∧ Build.add i b = .ok () (b.put i p) := by
  unfold Build.add Builder.insert
  rw [hb.position]
  cases hplace : Builder.place i p b.module with
  | error e =>
    obtain ⟨e', rfl, hr⟩ := refusal_of_place hb hplace
    exact .inl ⟨e', hr, by simp [hplace]⟩
  | ok m =>
    obtain ⟨f', k', hf', hk', hpl, rfl⟩ := place_cases hplace
    obtain rfl : f' = f := Option.some.inj (hf'.symm.trans hb.function)
    obtain rfl : k' = k := Option.some.inj (hk'.symm.trans hb.block)
    exact .inr ⟨hpl, by simp [hplace, Builder.put]⟩

theorem add_of_unpositioned (hp : b.position = none) (i : Instr) :
    Build.add i b = .error (.error .unpositioned) b := by
  simp only [Build.add, Builder.insert, hp]

/-- Putting an instruction fails and changes nothing, or the instruction may stand there. -/
theorem add_cases (hb : b.Placed) (i : Instr) :
    (∃ e, Build.add i b = .error (.error e) b) ∨
      ∃ p f k, b.StandsIn p f k ∧ Placeable i p.offset f k ∧ Build.add i b = .ok () (b.put i p) := by
  cases hp : b.position with
  | none => exact .inl ⟨_, add_of_unpositioned hp i⟩
  | some p =>
    obtain ⟨f, k, hs⟩ := hb p hp
    rcases add_of_standsIn hs i with ⟨e, -, he⟩ | ⟨hpl, hok⟩
    · exact .inl ⟨e, he⟩
    · exact .inr ⟨p, f, k, hs, hpl, hok⟩

theorem drawName_of_unpositioned (hp : b.position = none) :
    Build.drawName b = .error (.error .unpositioned) b := by
  simp only [Build.drawName, hp]

theorem drawName_of_standsIn {p : Position} {f : Func} {k : Block} (hb : b.StandsIn p f k) :
    Build.drawName b = .ok (toString f.nextName) (b.named p.block.function) := by
  simp [Build.drawName, Module.drawName, hb.position, hb.function, Builder.named]

theorem addResult_of_unpositioned (hp : b.position = none) (type : Ty) (i : Value → Instr) :
    Build.addResult type i b = .error (.error .unpositioned) b :=
  bind_error (drawName_of_unpositioned hp)

theorem addResult_of_standsIn {p : Position} {f : Func} {k : Block} (hb : b.StandsIn p f k)
    (type : Ty) (i : Value → Instr) :
    (∃ e, Refusal (i ⟨toString f.nextName, type⟩) p.offset f k e ∧
      Build.addResult type i b = .error (.error e) (b.named p.block.function)) ∨
    Placeable (i ⟨toString f.nextName, type⟩) p.offset f k ∧
      Build.addResult type i b = .ok ⟨toString f.nextName, type⟩
        ((b.named p.block.function).put (i ⟨toString f.nextName, type⟩) p) := by
  rw [Build.addResult, bind_ok (drawName_of_standsIn hb)]
  rcases add_of_standsIn hb.named (i ⟨toString f.nextName, type⟩) with ⟨e, hr, he⟩ | ⟨hpl, hok⟩
  · exact .inl ⟨e, hr.of_named, bind_error he⟩
  · exact .inr ⟨⟨hpl.opened, hpl.inside, hpl.atEnd, hpl.storage, hpl.returned⟩, bind_ok hok⟩

/-- An instruction with a fresh result: nothing happens to a builder that stands nowhere, else a name
is drawn, and the instruction is then refused or has the name. -/
theorem addResult_cases (hb : b.Placed) (type : Ty) (i : Value → Instr) :
    (b.position = none ∧ ∃ e, Build.addResult type i b = .error (.error e) b) ∨
    ∃ p f k, b.StandsIn p f k ∧
      ((∃ e, Build.addResult type i b = .error (.error e) (b.named p.block.function)) ∨
        Placeable (i ⟨toString f.nextName, type⟩) p.offset f k ∧
        Build.addResult type i b = .ok ⟨toString f.nextName, type⟩
          ((b.named p.block.function).put (i ⟨toString f.nextName, type⟩) p)) := by
  cases hp : b.position with
  | none => exact .inl ⟨rfl, _, addResult_of_unpositioned hp type i⟩
  | some p =>
    obtain ⟨f, k, hs⟩ := hb p hp
    refine .inr ⟨p, f, k, hs, ?_⟩
    rcases addResult_of_standsIn hs type i with ⟨e, -, he⟩ | hok
    · exact .inl ⟨e, he⟩
    · exact .inr hok

end Effect

structure Draw where
  function : FuncId
  name : String
  /-- The caller got the name itself, not a result under it. -/
  handedOut : Bool

def Builder.draw? (handedOut : Bool) (b : Builder) : Option Draw :=
  match b.position, (b.run Build.drawName).1 with
  | some p, .ok name => some ⟨p.block.function, name, handedOut⟩
  | _, _ => none

/-- The name that a request draws, also if the instruction that it was drawn for is then refused. -/
def Request.draw? : Request → Builder → Option Draw
  | fresh _ _, b => b.draw? false
  | _, _ => none

def Step.draw? (s : Step) (b : Builder) : Option Draw :=
  match s.request? with
  | some r => r.draw? b
  | none =>
    match s with
    | drawName => b.draw? true
    | _ => none

/-- What a call that is not raw does to a builder, and the name that it draws. -/
inductive Change (b : Builder) : Option Draw → Builder → Prop
  /-- The module stays. The builder may go elsewhere. -/
  | idle {position : Option Position} :
      Builder.Placed ⟨b.module, position⟩ → Change b none ⟨b.module, position⟩
  | function (name : String) (returns : Ty) (params : List Ty) :
      Change b none (.ofModule (b.module.addFunction name returns params).2)
  | block (id : FuncId) (name : String) :
      Change b none (.ofModule (b.module.modifyFunction id fun f =>
        { f with blocks := f.blocks ++ [⟨name, id, [], false⟩] }))
  | plain {p : Position} {f : Func} {k : Block} {i : Instr} :
      b.StandsIn p f k → Placeable i p.offset f k → i.result? = none → i.WellTyped f.returns →
      Change b none (b.put i p)
  /-- A name alone: for the caller, or for an instruction that is then refused. -/
  | name {p : Position} {f : Func} {k : Block} (handedOut : Bool) : b.StandsIn p f k →
      Change b (some ⟨p.block.function, toString f.nextName, handedOut⟩) (b.named p.block.function)
  | fresh {p : Position} {f : Func} {k : Block} {type : Ty} {i : Instr} :
      b.StandsIn p f k → Placeable i p.offset f k →
      i.result? = some ⟨toString f.nextName, type⟩ → i.WellTyped f.returns →
      Change b (some ⟨p.block.function, toString f.nextName, false⟩)
        ((b.named p.block.function).put i p)

theorem Change.placed {b b' : Builder} {d : Option Draw} (h : Change b d b') : b'.Placed := by
  cases h with
  | idle hp => exact hp
  | function name returns params => exact Builder.placed_ofModule _
  | block id name => exact Builder.placed_ofModule _
  | plain hs _ _ _ => exact hs.put _
  | name handedOut hs =>
    intro q hq
    obtain rfl := Option.some.inj (hq.symm.trans hs.position)
    exact ⟨_, _, hs.named⟩
  | fresh hs _ _ _ => exact hs.named.put _

theorem Builder.draw?_of_standsIn {b : Builder} {p : Position} {f : Func} {k : Block}
    (h : b.StandsIn p f k) (handedOut : Bool) :
    b.draw? handedOut = some ⟨p.block.function, toString f.nextName, handedOut⟩ := by
  simp only [Builder.draw?, Builder.run, drawName_of_standsIn h, h.position]

theorem Builder.draw?_of_unpositioned {b : Builder} (h : b.position = none) (handedOut : Bool) :
    b.draw? handedOut = none := by
  simp only [Builder.draw?, h]

theorem change_of_moveTo {b b' : Builder} {id : BlockId} {side : Side}
    (h : b.moveTo id side = .ok b') : Change b none b' := by
  unfold Builder.moveTo at h
  split at h
  · cases h
  next k hk =>
  cases h
  refine .idle fun p hp => ?_
  obtain rfl := Option.some.inj hp
  obtain ⟨f, hs⟩ := Builder.standsIn_of_block? hp hk (by cases side <;> simp)
  exact ⟨f, k, hs⟩

theorem change_of_drawName {b : Builder} (hb : b.Placed) :
    Change b (b.draw? true) (b.run Build.drawName).2 := by
  cases hp : b.position with
  | none =>
    simp only [Builder.draw?_of_unpositioned hp, Builder.run, drawName_of_unpositioned hp]
    exact .idle hb
  | some p =>
    obtain ⟨f, k, hs⟩ := hb p hp
    simp only [Builder.draw?_of_standsIn hs, Builder.run, drawName_of_standsIn hs]
    exact .name true hs

theorem change_of_plain {b : Builder} (hb : b.Placed) {i : Instr} (hr : (Request.plain i).Checked) :
    Change b none ((Request.plain i).exec b) := by
  obtain ⟨hresult, htyped⟩ := hr
  simp only [Request.exec, Builder.run]
  rcases add_cases hb i with ⟨e, he⟩ | ⟨p, f, k, hs, hpl, hok⟩
  · rw [he]
    exact .idle hb
  · rw [hok]
    exact .plain hs hpl hresult (htyped _ hpl.returned)

theorem change_of_fresh {b : Builder} (hb : b.Placed) {type : Ty} {i : Value → Instr}
    (hr : (Request.fresh type i).Checked) :
    Change b (b.draw? false) ((Request.fresh type i).exec b) := by
  simp only [Request.exec, Builder.run]
  rcases addResult_cases hb type i with ⟨hp, e, he⟩ | ⟨p, f, k, hs, ⟨e, he⟩ | ⟨hpl, hok⟩⟩
  · rw [he, Builder.draw?_of_unpositioned hp]
    exact .idle hb
  · rw [he, Builder.draw?_of_standsIn hs]
    exact .name false hs
  · rw [hok, Builder.draw?_of_standsIn hs]
    obtain ⟨hresult, htyped⟩ := hr (toString f.nextName) f.returns
    exact .fresh hs hpl hresult htyped

theorem change_of_request {b : Builder} (hb : b.Placed) {s : Step} {r : Request}
    (h : s.request? = some r) : Change b (s.draw? b) (s.apply b) := by
  have hr := Step.checked_of_request h
  rw [(Step.effect_of_request h b).1]
  simp only [Step.draw?, h]
  cases r with
  | refused e => exact .idle hb
  | plain i => exact change_of_plain hb hr
  | fresh type i => exact change_of_fresh hb hr

/-- Every call that is not raw is one of the changes. -/
theorem change_of_step {s : Step} (hs : ¬ s.IsRaw) {b : Builder} (hb : b.Placed) :
    Change b (s.draw? b) (s.apply b) := by
  cases hr : s.request? with
  | some r => exact change_of_request hb hr
  | none =>
    cases s with
    | addFunction name returns params => exact .function name returns params
    | addBlock function name =>
      simp only [Step.apply, Module.addBlock]
      split
      · exact .idle (Builder.placed_ofModule _)
      · exact .block function name
    | newBuilder => exact .idle (Builder.placed_ofModule _)
    | builderAt block side =>
      simp only [Step.apply]
      split
      · next hm => exact change_of_moveTo hm
      · exact .idle (Builder.placed_ofModule _)
    | moveTo block side =>
      simp only [Step.apply, Builder.run, Build.moveTo]
      cases hm : b.moveTo block side with
      | error e => exact .idle hb
      | ok b' => exact change_of_moveTo hm
    | drawName => exact change_of_drawName hb
    | insert block position i => exact absurd trivial hs
    | setReturned block returned => exact absurd trivial hs
    | add i => exact absurd trivial hs
    | _ => cases hr

theorem placed_of_reached {b : Builder} (h : Reached (fun s => ¬ s.IsRaw) b) : b.Placed := by
  induction h with
  | start name => exact Builder.placed_ofModule _
  | step s hs _ ih => exact (change_of_step hs ih).placed

end FrontEnd.IR
