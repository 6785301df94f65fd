import FrontEnd.Proofs.Requests

/-! The instructions of a module that was built through builders fit together: what is loaded or
stored has the type that its place is for, operands agree, and a value that is returned is of the type
that the function declares. A call that gives a value gives the result of what it put. -/

namespace FrontEnd.IR

def Block.WellTyped (returns : Ty) (k : Block) : Prop :=
  ∀ i ∈ k.instrs, i.WellTyped returns

theorem Block.WellTyped.put {returns : Ty} {k : Block} {i : Instr} {offset : Nat}
    (h : k.WellTyped returns) (hi : i.WellTyped returns) (hle : offset ≤ k.instrs.length) :
    (k.put i offset).WellTyped returns := by
  intro j hj
  rcases (List.mem_insertIdx hle).1 hj with rfl | hj
  · exact hi
  · exact h j hj

theorem wellTyped_of_change {b b' : Builder} {d : Option Draw} (h : Change b d b')
    (hb : b.module.AllBlocks Block.WellTyped) : b'.module.AllBlocks Block.WellTyped := by
  cases h with
  | idle _ => exact hb
  | function name returns params => exact hb.addFunction name returns params
  | block id name =>
    refine hb.addBlock (fun t name id i hi => ?_) id name
    cases hi
  | plain hs _ _ htyped =>
    exact hb.put hs.function hs.block fun hk => hk.put htyped hs.inside
  | name handedOut _ => exact hb.drawName _
  | fresh hs _ _ htyped =>
    -- The name is drawn first, and then the function is the same but for its counter.
    exact (hb.drawName _).put hs.named.function hs.named.block fun hk => hk.put htyped hs.inside

theorem wellTyped_of_reached {b : Builder} (h : Reached (fun s => ¬ s.IsRaw) b) :
    b.module.AllBlocks Block.WellTyped := by
  induction h with
  | start name =>
    intro f hf
    cases hf
  | step s hs hr ih => exact wellTyped_of_change (change_of_step hs (placed_of_reached hr)) ih

/-- The call put an instruction where the builder stood, moved behind it and touched no other
block. -/
def Puts (i : Instr) (b b' : Builder) : Prop :=
  ∃ p k, b.position = some p ∧ b.module.block? p.block = some k ∧ p.offset ≤ k.instrs.length ∧
    b'.module.block? p.block = some { k with instrs := k.instrs.insertIdx p.offset i } ∧
    b'.position = some { p with offset := p.offset + 1 } ∧
    ∀ id, id ≠ p.block → b'.module.block? id = b.module.block? id

theorem puts_of_standsIn {b : Builder} {p : Position} {f : Func} {k : Block} (h : b.StandsIn p f k)
    {i : Instr} {v : Value} (hv : i.result? = some v) (id : FuncId) :
    Puts i b ((b.named id).put i p) := by
  have hopen : i.isTerminator = false := by
    cases i with
    | retVoid => cases hv
    | ret value => cases hv
    | _ => rfl
  refine ⟨p, k, h.position, h.block?, h.inside, ?_, rfl, ?_⟩
  · rw [Builder.put, Module.block?_modifyBlock, if_pos rfl, Builder.block?_named, h.block?]
    simp [Block.put, hopen]
  · intro other hne
    rw [Builder.put, Module.block?_modifyBlock, if_neg hne.symm, Builder.block?_named]

/-- A call that gives a value has put its instruction, with that result. -/
theorem puts_of_value {b b' : Builder} (hb : b.Placed) {s : Step} {x : Build Value} {v : Value}
    (hs : s.value? = some x) (hrun : b.run x = (.ok v, b')) :
    ∃ i, s.instr? v = some i ∧ i.result? = some v ∧ Puts i b b' := by
  rcases Step.run_of_value hs b with ⟨e, -, he⟩ | ⟨type, i, hr, hinstr, hfresh⟩
  · rw [he] at hrun
    cases hrun
  rw [hfresh, Builder.run] at hrun
  rcases addResult_cases hb type i with ⟨-, e, he⟩ | ⟨p, f, k, hst, ⟨e, he⟩ | ⟨-, hok⟩⟩
  · rw [he] at hrun
    cases hrun
  · rw [he] at hrun
    cases hrun
  · rw [hok] at hrun
    cases hrun
    obtain ⟨hresult, -⟩ := Step.checked_of_request hr (toString f.nextName) f.returns
    exact ⟨_, hinstr _, hresult, puts_of_standsIn hst hresult _⟩

/-- However a module was built by calls that check their operands, failed ones included: every
instruction fits together. And a call that gives a value has put one instruction, its own, with that
value as its result. -/
theorem typed_of_reached {b : Builder} (h : Reached (fun s => ¬ s.IsRaw) b) :
    (∀ f ∈ b.module.functions, ∀ k ∈ f.blocks, ∀ i ∈ k.instrs, i.WellTyped f.returns) ∧
    ∀ (s : Step) (x : Build Value), s.value? = some x → ∀ v b', b.run x = (.ok v, b') →
      ∃ i, s.instr? v = some i ∧ i.result? = some v ∧ Puts i b b' := by
  refine ⟨wellTyped_of_reached h, ?_⟩
  intro s x hs v b' hrun
  exact puts_of_value (placed_of_reached h) hs hrun

/-- Storage for a number, which is stored and loaded and compared in a second block. A void storage,
a store of another type and a return of one are refused on the way. -/
def storedNumber : List Step :=
  [.addFunction "f" .i32 [.i32], .addBlock ⟨0⟩ "entry", .addBlock ⟨0⟩ "rest",
    .builderAt ⟨⟨0⟩, 0⟩ .stop, .alloca .i32, .alloca .void, .store ⟨"arg0", .i32⟩ ⟨"0", .ptr .i32⟩,
    .store ⟨"arg0", .i32⟩ ⟨"0", .ptr .i8⟩, .moveTo ⟨⟨0⟩, 1⟩ .start, .load ⟨"0", .ptr .i32⟩,
    .binary .lt ⟨"1", .i32⟩ ⟨"arg0", .i32⟩, .ret (some ⟨"2", .bool⟩), .moveTo ⟨⟨0⟩, 0⟩ .start]

theorem typed_storedNumber :
    (∀ s ∈ storedNumber, ¬ s.IsRaw) ∧
    (∀ f ∈ (Step.runAll storedNumber (.ofModule (.empty "m"))).module.functions,
      ∀ k ∈ f.blocks, ∀ i ∈ k.instrs, i.WellTyped f.returns) ∧
    ∃ b', Puts (.const ⟨"3", .bool⟩ (.bool true))
      (Step.runAll storedNumber (.ofModule (.empty "m"))) b' := by
  have hsteps : ∀ s ∈ storedNumber, ¬ s.IsRaw := by
    simp [storedNumber, Step.IsRaw, Step.IsDirect]
  obtain ⟨htyped, hvalue⟩ := typed_of_reached ((Reached.start "m").runAll hsteps)
  obtain ⟨i, hi, -, hputs⟩ := hvalue (.const .bool (.bool true)) _ rfl ⟨"3", .bool⟩ _ rfl
  cases hi
  exact ⟨hsteps, htyped, _, hputs⟩

end FrontEnd.IR
