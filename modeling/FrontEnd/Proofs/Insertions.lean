import FrontEnd.Proofs.Naming
import FrontEnd.Proofs.Refusals

/-! Where the instructions of a visit end up. A builder that stands in a block has some instructions
in front of it and some behind it, and a call that leaves it there puts one instruction in between or
none. So the instructions of a visit stand in a row, in the order of the calls, and the builder stands
behind the last of them. -/

namespace FrontEnd.IR

def Side.offset (k : Block) : Side → Nat
  | start => 0
  | stop => k.instrs.length

theorem Side.length_take_offset (side : Side) (k : Block) :
    (k.instrs.take (side.offset k)).length = side.offset k := by
  cases side with
  | start => rfl
  | stop => rw [offset, List.take_length]

namespace Step

/-- The instruction that a call has put, by its answer. -/
def putFor (r : Except (Failure Error) Answer) (s : Step) : Option Instr :=
  r.toOption.bind fun a => s.putBy a

def insertions (steps : List Step) (answers : List (Except (Failure Error) Answer)) : List Instr :=
  (steps.zip answers).filterMap fun c => c.1.putFor c.2

theorem insertions_cons (s : Step) (steps : List Step) (r : Except (Failure Error) Answer)
    (answers : List (Except (Failure Error) Answer)) :
    insertions (s :: steps) (r :: answers) = (s.putFor r).toList ++ insertions steps answers := by
  rw [insertions, List.zip_cons_cons, List.filterMap_cons]
  cases s.putFor r <;> rfl

theorem draws_append (steps more : List Step) (b : Builder) :
    draws (steps ++ more) b = draws steps b ++ draws more (runAll steps b) := by
  induction steps generalizing b with
  | nil => rfl
  | cons s steps ih =>
    rw [List.cons_append, draws, draws, ih, List.append_assoc]
    rfl

end Step

/-- The builder stands in a block, in front of some of its instructions and behind the others. -/
structure Builder.Between (b : Builder) (id : BlockId) (front back : List Instr) : Prop where
  position : b.position = some ⟨id, front.length⟩
  block : ∃ k, b.module.block? id = some k ∧ k.instrs = front ++ back

theorem Builder.Between.standsIn {b : Builder} {id : BlockId} {front back : List Instr}
    (h : b.Between id front back) : ∃ f k, b.StandsIn ⟨id, front.length⟩ f k := by
  obtain ⟨k, hk, hinstrs⟩ := h.block
  obtain ⟨f, hb⟩ := Builder.standsIn_of_block? h.position hk (by simp [hinstrs])
  exact ⟨f, k, hb⟩

/-- Instructions are put where a builder stands in a block, in a row, and nothing else changes but
that so many names are drawn in the function. -/
structure Inserts (id : BlockId) (put : List Instr) (names : Nat) (b b' : Builder) : Prop where
  between : ∀ {front back}, b.Between id front back → b'.Between id (front ++ put) back
  others : ∀ other, other ≠ id → b'.module.block? other = b.module.block? other
  counter : b'.module.counter id.function = b.module.counter id.function + names

namespace Inserts

variable {id : BlockId} {put put' : List Instr} {names names' : Nat} {b b' b'' : Builder}

theorem refl (id : BlockId) (b : Builder) : Inserts id [] 0 b b where
  between h := by rwa [List.append_nil]
  others _ _ := rfl
  counter := rfl

theorem trans (h : Inserts id put names b b') (h' : Inserts id put' names' b' b'') :
    Inserts id (put ++ put') (names + names') b b'' where
  between hb := by
    rw [← List.append_assoc]
    exact h'.between (h.between hb)
  others other hne := (h'.others other hne).trans (h.others other hne)
  counter := by rw [h'.counter, h.counter, Nat.add_assoc]

end Inserts

theorem insertIdx_length_append {α : Type} (front back : List α) (a : α) :
    (front ++ back).insertIdx front.length a = front ++ a :: back := by
  induction front with
  | nil => rfl
  | cons x front ih =>
    rw [List.cons_append, List.length_cons, List.insertIdx_succ_cons, ih, List.cons_append]

section Call

variable {b b' : Builder} {p : Position} {f : Func} {k : Block}

theorem inserts_named (hb : b.StandsIn p f k) :
    Inserts p.block [] 1 b (b.named p.block.function) where
  between {front back} h := by
    obtain ⟨k, hk, hinstrs⟩ := h.block
    rw [List.append_nil]
    exact ⟨h.position, k, (Builder.block?_named ..).trans hk, hinstrs⟩
  others other _ := Builder.block?_named ..
  counter := by
    rw [Module.counter_of_function? hb.named.function, Module.counter_of_function? hb.function]

theorem inserts_put (hb : b.StandsIn p f k) (i : Instr) : Inserts p.block [i] 0 b (b.put i p) where
  between {front back} h := by
    have hp := Option.some.inj (hb.position.symm.trans h.position)
    have hoffset : p.offset = front.length := congrArg Position.offset hp
    obtain ⟨k, hk, hinstrs⟩ := h.block
    refine ⟨by simp [Builder.put, hoffset], _, Module.block?_modifyBlock_self hk _, ?_⟩
    rw [Block.put, hinstrs, hoffset, insertIdx_length_append, List.append_assoc]
    rfl
  others other hne := by rw [Builder.put, Module.block?_modifyBlock, if_neg hne.symm]
  counter := Builder.counter_put ..

variable {s : Step} {d : Option Draw} {r : Except (Failure Error) Answer}

/-- What a call does is read off its answer: it puts its instruction if it succeeds. -/
theorem Outcome.inserts (hb : b.StandsIn p f k) (h : Outcome b p f k s d r b') :
    Inserts p.block (s.putFor r).toList d.toList.length b b' := by
  cases h with
  | refused => exact .refl _ _
  | burnt => exact inserts_named hb
  | named d hs =>
    subst hs
    exact inserts_named hb
  | @plain i hput _ =>
    have hfor : s.putFor (.ok .done) = some i := hput
    rw [hfor]
    exact inserts_put hb i
  | @fresh d v i hput _ =>
    have hfor : s.putFor (.ok (.value v)) = some i := hput
    rw [hfor]
    exact (inserts_named hb).trans (inserts_put hb.named i)

/-- A call that fails breaks no precondition, and it does find its block. -/
theorem Outcome.not_isLost (h : Outcome b p f k s d r b') {e : Failure Error}
    (he : r = .error e) : ∃ e', e = .error e' ∧ ¬ e'.IsLost := by
  cases h with
  | refused hlost =>
    cases he
    exact ⟨_, rfl, hlost⟩
  | burnt =>
    cases he
    exact ⟨_, rfl, id⟩
  | _ => cases he

end Call

/-- Calls that leave the builder in its block, one after the other. -/
theorem inserts_of_all_stay {steps : List Step} (hs : ∀ s ∈ steps, s.Stays) {b : Builder}
    {id : BlockId} {front back : List Instr} (hb : b.Between id front back) :
    Inserts id (Step.insertions steps (Step.answers steps b)) (Step.draws steps b).length b
        (Step.runAll steps b) ∧
      ∀ e, .error e ∈ Step.answers steps b → ∃ e', e = .error e' ∧ ¬ e'.IsLost := by
  induction steps generalizing b front with
  | nil => exact ⟨.refl _ _, nofun⟩
  | cons s steps ih =>
    obtain ⟨hfirst, hrest⟩ := List.forall_mem_cons.1 hs
    obtain ⟨f, k, hstands⟩ := hb.standsIn
    have houtcome := outcome_of_stays hfirst hstands
    have hinserts := houtcome.inserts hstands
    obtain ⟨hrun, hanswers⟩ := ih hrest (hinserts.between hb)
    rw [Step.answers, Step.insertions_cons, Step.draws, List.length_append]
    refine ⟨hinserts.trans hrun, fun e he => ?_⟩
    rcases List.mem_cons.1 he with hhead | htail
    · exact houtcome.not_isLost hhead.symm
    · exact hanswers e htail

/-- The counter goes up only, so on the way it is not above its value at the end. -/
theorem counter_take_le {steps : List Step} (hs : ∀ s ∈ steps, s.Stays) {b : Builder}
    {id : BlockId} {front back : List Instr} (hb : b.Between id front back) (n : Nat) :
    (Step.runAll (steps.take n) b).module.counter id.function ≤
      b.module.counter id.function + (Step.draws steps b).length := by
  have htake : ∀ s ∈ steps.take n, s.Stays := fun s hmem => hs s (List.mem_of_mem_take hmem)
  obtain ⟨⟨-, -, hcounter⟩, -⟩ := inserts_of_all_stay htake hb
  have hdraws := Step.draws_append (steps.take n) (steps.drop n) b
  rw [List.take_append_drop] at hdraws
  rw [hcounter, hdraws, List.length_append]
  omega

theorem Visit.between_opening {b : Builder} {v : Visit} {k : Block}
    (hk : b.module.block? v.block = some k) :
    (v.opening.apply b).Between v.block (k.instrs.take (v.side.offset k))
      (k.instrs.drop (v.side.offset k)) := by
  rw [(opening_of_some hk).2]
  refine ⟨?_, k, hk, (List.take_append_drop _ _).symm⟩
  rw [Side.length_take_offset]
  cases v.side <;> rfl

theorem Visit.module_opening {b : Builder} {v : Visit} {k : Block}
    (hk : b.module.block? v.block = some k) : (v.opening.apply b).module = b.module := by
  rw [(opening_of_some hk).2]

/-- In every visit that finds its block: the instructions of the calls that succeed stand in a row
where the builder went to, in the order of the calls, and the builder ends up behind them. All other
blocks are as before. No call breaks a precondition or loses its block, and as long as a word of 32
bits has room for the names that are drawn, the counter of the function is one all along. -/
theorem insertions_contiguous (b : Builder) (v : Visit) {k : Block}
    (hk : b.module.block? v.block = some k)
    (hnames : b.module.counter v.block.function +
      (Step.draws v.calls (v.opening.apply b)).length < UInt32.size) :
    let offset := v.side.offset k
    let put := Step.insertions v.calls (Step.answers v.calls (v.opening.apply b))
    v.opening.answer b = .ok .done ∧
    (v.opening.apply b).position = some ⟨v.block, offset⟩ ∧
    (∃ k', (Step.runAll v.steps b).module.block? v.block = some k' ∧
      k'.instrs = k.instrs.take offset ++ put ++ k.instrs.drop offset ∧
      offset + put.length ≤ k'.instrs.length) ∧
    (Step.runAll v.steps b).position = some ⟨v.block, offset + put.length⟩ ∧
    (∀ other, other ≠ v.block →
      (Step.runAll v.steps b).module.block? other = b.module.block? other) ∧
    (∀ e, .error e ∈ Step.answers v.calls (v.opening.apply b) →
      ∃ e', e = .error e' ∧ ¬ e'.IsLost) ∧
    ∀ n, (Step.runAll (v.calls.take n) (v.opening.apply b)).module.counter v.block.function <
      UInt32.size := by
  intro offset put
  have hopen := Visit.between_opening hk
  have hmodule := Visit.module_opening hk
  have hlength : (k.instrs.take offset).length = offset := v.side.length_take_offset k
  obtain ⟨hinserts, hanswers⟩ := inserts_of_all_stay v.stays hopen
  obtain ⟨hposition, k', hk', hinstrs⟩ := hinserts.between hopen
  rw [List.length_append, hlength] at hposition
  refine ⟨(Visit.opening_of_some hk).1, ?_, ⟨k', hk', hinstrs, ?_⟩, hposition, ?_, hanswers, ?_⟩
  · rw [hopen.position, hlength]
  · rw [hinstrs, List.length_append, List.length_append, hlength]
    exact Nat.le_add_right _ _
  · intro other hne
    rw [← hmodule]
    exact hinserts.others other hne
  · intro n
    have hle := counter_take_le v.stays hopen n
    rw [hmodule] at hle
    exact Nat.lt_of_le_of_lt hle hnames

/-- Calls in front of an instruction. A storage of no type and an end of the block are refused there,
and a name is drawn for the caller. -/
def visitStart : Visit :=
  ⟨false, ⟨⟨0⟩, 0⟩, .start, [.alloca .void, .drawName, .alloca .i8, .ret (some ⟨"0", .i32⟩),
    .const .bool (.bool true)], by simp [Step.Stays]⟩

theorem insertions_contiguous_visitStart :
    let b := (Step.const .i32 (.int 1)).apply atEmptyBlock
    b.module.counter ⟨0⟩ + (Step.draws visitStart.calls (visitStart.opening.apply b)).length <
      UInt32.size ∧
    (∃ k', (Step.runAll visitStart.steps b).module.block? ⟨⟨0⟩, 0⟩ = some k' ∧
      k'.instrs = [.alloca ⟨"2", .ptr .i8⟩ .i8, .const ⟨"3", .bool⟩ (.bool true),
        .const ⟨"0", .i32⟩ (.int 1)]) ∧
    (Step.runAll visitStart.steps b).position = some ⟨⟨⟨0⟩, 0⟩, 2⟩ := by
  intro b
  have hk : b.module.block? visitStart.block =
      some ⟨"entry", ⟨0⟩, [.const ⟨"0", .i32⟩ (.int 1)], false⟩ := rfl
  have hnames : b.module.counter ⟨0⟩ +
      (Step.draws visitStart.calls (visitStart.opening.apply b)).length < UInt32.size := by decide
  have hput : Step.insertions visitStart.calls
      (Step.answers visitStart.calls (visitStart.opening.apply b)) =
      [.alloca ⟨"2", .ptr .i8⟩ .i8, .const ⟨"3", .bool⟩ (.bool true)] := by rfl
  obtain ⟨-, -, ⟨k', hk', hinstrs, -⟩, hposition, -⟩ :=
    insertions_contiguous b visitStart hk hnames
  rw [hput] at hinstrs hposition
  exact ⟨hnames, ⟨k', hk', hinstrs⟩, hposition⟩

end FrontEnd.IR
