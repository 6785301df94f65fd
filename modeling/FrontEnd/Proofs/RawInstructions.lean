import FrontEnd.Proofs.Requests

/-! Instructions that a builder is given as they are. Each kind of instruction has a call of its own,
which looks at its operands before anything is put. A builder that is given the instruction itself
looks at two kinds only: storage is not for void, and what is returned is of the type that the
function returns. So the checks of all other calls can be gone past. -/

namespace FrontEnd.IR

/-- The call for instructions of this kind, with the same operands, type or constant. -/
def Instr.call? : Instr → Option Step
  | retVoid => none
  | ret value => some (.ret (some value))
  | alloca _ type => some (.alloca type)
  | const result value => some (.const result.type value)
  | load _ ptr => some (.load ptr)
  | store value ptr => some (.store value ptr)
  | binary _ op left right => some (.binary op left right)

/-- The kinds of instructions whose types a builder compares itself. -/
def Instr.IsCompared : Instr → Prop
  | ret _ => True
  | alloca _ _ => True
  | _ => False

def Error.IsTyping : Error → Prop
  | returnTypeMismatch _ _ _ => True
  | voidAllocation => True
  | notAPointer _ => True
  | operandMismatch _ _ _ => True
  | constantMismatch _ _ => True
  | _ => False

/-- The call for the instruction is refused here because of its types. -/
def Instr.CallRefused (i : Instr) (b : Builder) (e : Error) : Prop :=
  e.IsTyping ∧ ∃ s, i.call? = some s ∧ s.answer b = .error (.error e)

section Add

variable {b : Builder} {p : Position} {f : Func} {k : Block} {i : Instr} {e : Error}

theorem add_of_placeable (hb : b.StandsIn p f k) (hp : Placeable i p.offset f k) :
    Build.add i b = .ok () (b.put i p) := by
  rcases add_of_standsIn hb i with ⟨e, hr, -⟩ | ⟨-, hok⟩
  · exact absurd hp hr.not_placeable
  · exact hok

/-- An open block takes an instruction that is neither storage nor a return, be its operands what
they may. -/
theorem placeable_of_not_compared (hb : b.StandsIn p f k) (hopen : k.hasReturned = false)
    (hc : ¬ i.IsCompared) (ht : i.isTerminator = false) : Placeable i p.offset f k where
  opened := hopen
  inside := hb.inside
  atEnd h := by simp [ht] at h
  storage result type h := absurd (h ▸ trivial) hc
  returned value h := absurd (h ▸ trivial) hc

theorem addResult_of_placeable {type : Ty} {i : Value → Instr} (hb : b.StandsIn p f k)
    (hp : Placeable (i ⟨toString f.nextName, type⟩) p.offset f k) :
    Build.addResult type i b = .ok ⟨toString f.nextName, type⟩
      ((b.named p.block.function).put (i ⟨toString f.nextName, type⟩) p) := by
  rcases addResult_of_standsIn hb type i with ⟨e, hr, -⟩ | ⟨-, hok⟩
  · exact absurd hp hr.not_placeable
  · exact hok

/-- In an open block storage is refused only if it is for void. -/
theorem isVoid_of_refused {type : Ty} (hb : b.StandsIn p f k) (hopen : k.hasReturned = false)
    (h : (Step.alloca type).answer b = .error (.error e)) :
    type.isVoid = true ∧ e = .voidAllocation := by
  rcases Step.run_of_value (s := .alloca type) rfl b with ⟨e', hr, hrun⟩ | ⟨t, i, hr, -, hrun⟩
  · simp only [Step.answer, hrun, Except.map, Except.error.injEq, Failure.error.injEq] at h
    simp only [Step.request?, Option.some.injEq] at hr
    split at hr
    · next hv =>
      cases hr
      exact ⟨hv, h.symm⟩
    · cases hr
  · simp only [Step.request?, Option.some.injEq] at hr
    split at hr
    · cases hr
    · next hv =>
      cases hr
      have hp : Placeable (.alloca ⟨toString f.nextName, .ptr type⟩ type) p.offset f k := by
        refine ⟨hopen, hb.inside, fun h => (by cases h), ?_, fun _ h => (by cases h)⟩
        rintro _ _ ⟨⟩
        simpa using hv
      have hok := addResult_of_placeable (i := fun v => .alloca v type) hb hp
      rw [Step.answer, hrun, Builder.run, hok] at h
      cases h

/-- A failed instruction leaves the module and the place of the builder as they were. -/
theorem apply_add_of_error {e : Failure Error} (h : (Step.add i).answer b = .error e) :
    (Step.add i).apply b = b := by
  rw [Step.answer, Builder.run, Build.add] at h
  rw [Step.apply, Builder.run, Build.add]
  cases hins : b.insert i with
  | ok b' =>
    rw [hins] at h
    cases h
  | error e' =>
    cases e' with
    | error _ => rfl
    | violation _ => rfl

theorem answer_add_of_void {result : Value} {type : Ty} (hb : b.StandsIn p f k)
    (hv : type.isVoid = true) :
    (Step.add (.alloca result type)).answer b = .error (.error .voidAllocation) := by
  have hcheck : Builder.check (.alloca result type) p b.module = .error .voidAllocation := by
    simp [Builder.check, hb.function, hb.block?, hv]
  simp [Step.answer, Builder.run, Build.add, Builder.insert, hb.position, Builder.place, hcheck,
    Except.map]

end Add

/-- A builder stands in an open block, and the call for an instruction is refused there because of
types. Given the instruction itself, the builder refuses it with the same error and nothing changes
if it is a return or storage; any other instruction is put into the block all the same. -/
theorem add_of_callRefused {b : Builder} {p : Position} {f : Func} {k : Block}
    (hb : b.StandsIn p f k) (hopen : k.hasReturned = false) {i : Instr} {e : Error}
    (h : i.CallRefused b e) :
    (i.IsCompared → (Step.add i).answer b = .error (.error e) ∧ (Step.add i).apply b = b) ∧
    (¬ i.IsCompared → (Step.add i).answer b = .ok .done ∧ (Step.add i).apply b = b.put i p) := by
  obtain ⟨-, s, hs, hanswer⟩ := h
  refine ⟨fun hc => ?_, fun hc => ?_⟩
  · have hadd : (Step.add i).answer b = .error (.error e) := by
      cases i with
      | ret value =>
        cases hs
        exact hanswer
      | alloca result type =>
        cases hs
        obtain ⟨hv, rfl⟩ := isVoid_of_refused hb hopen hanswer
        exact answer_add_of_void hb hv
      | _ => cases hc
    exact ⟨hadd, apply_add_of_error hadd⟩
  · have ht : i.isTerminator = false := by
      cases i with
      | retVoid => cases hs
      | ret value => exact absurd trivial hc
      | _ => rfl
    have hok := add_of_placeable hb (placeable_of_not_compared hb hopen hc ht)
    rw [Step.answer, Step.apply, Builder.run, hok]
    exact ⟨rfl, rfl⟩

def atEmptyBlock : Builder :=
  Step.runAll [.addFunction "f" .i32 [], .addBlock ⟨0⟩ "entry", .builderAt ⟨⟨0⟩, 0⟩ .stop]
    (.ofModule (.empty "m"))

theorem standsIn_atEmptyBlock :
    atEmptyBlock.StandsIn ⟨⟨⟨0⟩, 0⟩, 0⟩ ⟨"f", .i32, [], [⟨"entry", ⟨0⟩, [], false⟩], 0⟩
      ⟨"entry", ⟨0⟩, [], false⟩ :=
  ⟨rfl, rfl, rfl, Nat.le_refl 0⟩

theorem add_of_callRefused_atEmptyBlock :
    Instr.CallRefused (.ret ⟨"x", .bool⟩) atEmptyBlock
      (.returnTypeMismatch "f" ⟨"x", .bool⟩ .i32) ∧
    (Step.add (.ret ⟨"x", .bool⟩)).apply atEmptyBlock = atEmptyBlock ∧
    Instr.CallRefused (.load ⟨"1", .i32⟩ ⟨"0", .i32⟩) atEmptyBlock (.notAPointer ⟨"0", .i32⟩) ∧
    (Step.add (.load ⟨"1", .i32⟩ ⟨"0", .i32⟩)).answer atEmptyBlock = .ok .done := by
  have hret : Instr.CallRefused (.ret ⟨"x", .bool⟩) atEmptyBlock
      (.returnTypeMismatch "f" ⟨"x", .bool⟩ .i32) := ⟨trivial, _, rfl, rfl⟩
  have hload : Instr.CallRefused (.load ⟨"1", .i32⟩ ⟨"0", .i32⟩) atEmptyBlock
      (.notAPointer ⟨"0", .i32⟩) := ⟨trivial, _, rfl, rfl⟩
  exact ⟨hret, ((add_of_callRefused standsIn_atEmptyBlock rfl hret).1 trivial).2, hload,
    ((add_of_callRefused standsIn_atEmptyBlock rfl hload).2 id).1⟩

/-- A truth value as a whole number, a load from and a store to what is no pointer, a store of another
type and a sum of two types. -/
def illTyped : List Instr :=
  [.const ⟨"0", .i32⟩ (.bool true), .load ⟨"1", .i32⟩ ⟨"0", .i32⟩,
    .store ⟨"0", .i32⟩ ⟨"0", .i32⟩, .store ⟨"0", .i32⟩ ⟨"2", .ptr .bool⟩,
    .binary ⟨"3", .i32⟩ .add ⟨"0", .i32⟩ ⟨"4", .bool⟩]

/-- The checks of the calls for constants, loads, stores and binary operations can all be gone
past. -/
theorem not_refused_illTyped :
    (∃ p f k, atEmptyBlock.StandsIn p f k ∧ k.hasReturned = false) ∧
    ∀ i ∈ illTyped, (∃ e, i.CallRefused atEmptyBlock e) ∧
      ¬ ∃ e, (Step.add i).answer atEmptyBlock = .error e := by
  refine ⟨⟨_, _, _, standsIn_atEmptyBlock, rfl⟩, ?_⟩
  simp only [illTyped, List.forall_mem_cons]
  refine ⟨?_, ?_, ?_, ?_, ?_, nofun⟩
  all_goals
    refine ⟨⟨_, ?_, _, rfl, rfl⟩, ?_⟩
    · trivial
    · rintro ⟨e, ⟨⟩⟩

end FrontEnd.IR
