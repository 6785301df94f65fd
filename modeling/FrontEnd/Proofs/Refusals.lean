import FrontEnd.Proofs.Isolation
import FrontEnd.Proofs.RawInstructions

/-! Refused calls. A call that fails leaves the module and the place of the builder as they were, with
one exception: a call that gives a value draws the name of the value first, and the name stays drawn
if the block has returned already. No other check is made behind the draw. -/

namespace FrontEnd.IR

def Error.IsTerminated : Error → Prop
  | blockTerminated _ _ => True
  | _ => False

/-- Something that a builder relies on is not there, or a mark would be taken back. -/
def Error.IsLost : Error → Prop
  | unknownBlock _ => True
  | unknownFunction _ => True
  | cannotUnreturn _ _ => True
  | _ => False

namespace Step

def GivesValue : Step → Prop
  | alloca _ => True
  | const _ _ => True
  | load _ => True
  | binary _ _ _ => True
  | _ => False

def IsOnBuilder : Step → Prop
  | moveTo _ _ => True
  | s => s.Stays

/-- The instruction that a call puts if it succeeds with the answer. -/
def putBy (a : Answer) : Step → Option Instr
  | add i => some i
  | ret value => some (value.elim .retVoid .ret)
  | store value ptr => some (.store value ptr)
  | s =>
    match a with
    | .value v => s.instr? v
    | _ => none

end Step

/-- How a request belongs to a call: a refusal is about types, and an instruction is that of the
call. -/
def Request.Of (s : Step) : Request → Prop
  | refused e => e.IsTyping
  | plain i => ¬ s.GivesValue ∧ s.putBy .done = some i
  | fresh _ i => s.GivesValue ∧ ∀ v, s.putBy (.value v) = some (i v)

theorem Step.of_request {s : Step} {r : Request} (h : s.request? = some r) : r.Of s := by
  cases s with
  | ret value =>
    cases h
    exact ⟨id, rfl⟩
  | alloca type =>
    cases h
    split
    · trivial
    · exact ⟨trivial, fun _ => rfl⟩
  | const type value =>
    cases h
    split
    · exact ⟨trivial, fun _ => rfl⟩
    · trivial
  | load ptr =>
    cases h
    split
    · exact ⟨trivial, fun _ => rfl⟩
    · trivial
  | store value ptr =>
    cases h
    split
    · split
      · exact ⟨id, rfl⟩
      · trivial
    · trivial
  | binary op left right =>
    cases h
    split
    · exact ⟨trivial, fun _ => rfl⟩
    · trivial
  | _ => cases h

/-- The calls that leave a builder in its block ask for something, or they give an instruction as it
is, or draw a name. -/
theorem Step.Stays.cases {s : Step} (hs : s.Stays) :
    (∃ r, s.request? = some r) ∨ (∃ i, s = .add i) ∨ s = .drawName := by
  cases s with
  | add i => exact .inr (.inl ⟨i, rfl⟩)
  | drawName => exact .inr (.inr rfl)
  | ret value => exact .inl ⟨_, rfl⟩
  | alloca type => exact .inl ⟨_, rfl⟩
  | const type value => exact .inl ⟨_, rfl⟩
  | load ptr => exact .inl ⟨_, rfl⟩
  | store value ptr => exact .inl ⟨_, rfl⟩
  | binary op left right => exact .inl ⟨_, rfl⟩
  | _ => cases hs

theorem Error.not_isTerminated_of_isTyping {e : Error} (h : e.IsTyping) : ¬ e.IsTerminated := by
  cases e <;> first | exact id | cases h

theorem Error.not_isLost_of_isTyping {e : Error} (h : e.IsTyping) : ¬ e.IsLost := by
  cases e <;> first | exact id | cases h

theorem Refusal.not_isLost {i : Instr} {offset : Nat} {f : Func} {k : Block} {e : Error}
    (h : Refusal i offset f k e) : ¬ e.IsLost := by
  cases h <;> exact id

/-- An instruction with a result whose parts fit together is refused only where the block has
returned. -/
theorem Refusal.closed_of_checked {type : Ty} {i : Value → Instr}
    (hc : (Request.fresh type i).Checked) {name : String} {offset : Nat} {f : Func} {k : Block}
    {e : Error} (h : Refusal (i ⟨name, type⟩) offset f k e) :
    k.hasReturned = true ∧ e = .blockTerminated f.name k.name := by
  obtain ⟨hresult, htyped⟩ := hc name f.returns
  cases h with
  | storage hi hv =>
    rw [hi] at htyped
    cases hv.symm.trans htyped.1
  | returned hi _ =>
    rw [hi] at hresult
    cases hresult
  | notAtEnd hi _ _ =>
    cases hinstr : i ⟨name, type⟩ with
    | retVoid =>
      rw [hinstr] at hresult
      cases hresult
    | ret value =>
      rw [hinstr] at hresult
      cases hresult
    | _ =>
      rw [hinstr] at hi
      cases hi
  | closed hr => exact ⟨hr, rfl⟩

/-- What comes of a call on a builder that stands in a block and stays there: the name that is drawn,
the answer, and the builder behind the call. -/
inductive Outcome (b : Builder) (p : Position) (f : Func) (k : Block) (s : Step) :
    Option Draw → Except (Failure Error) Answer → Builder → Prop
  | refused {e : Error} : ¬ e.IsLost → (s.GivesValue → ¬ e.IsTerminated) →
      Outcome b p f k s none (.error (.error e)) b
  /-- The name of a value is drawn, and the block has returned. -/
  | burnt (d : Draw) : s.GivesValue → k.hasReturned = true →
      Outcome b p f k s (some d) (.error (.error (.blockTerminated f.name k.name)))
        (b.named p.block.function)
  | named (d : Draw) : s = .drawName →
      Outcome b p f k s (some d) (.ok (.name (toString f.nextName))) (b.named p.block.function)
  | plain {i : Instr} : s.putBy .done = some i → Placeable i p.offset f k →
      Outcome b p f k s none (.ok .done) (b.put i p)
  | fresh (d : Draw) {v : Value} {i : Instr} : s.putBy (.value v) = some i →
      Placeable i p.offset f k →
      Outcome b p f k s (some d) (.ok (.value v)) ((b.named p.block.function).put i p)

section Outcome

variable {b : Builder} {p : Position} {f : Func} {k : Block} {s : Step}

theorem outcome_of_plain (hb : b.StandsIn p f k) {i : Instr} (hs : ¬ s.GivesValue)
    (hput : s.putBy .done = some i) :
    Outcome b p f k s none ((Request.plain i).answer b) ((Request.plain i).exec b) := by
  simp only [Request.answer, Request.exec, Builder.run]
  rcases add_of_standsIn hb i with ⟨e, hr, he⟩ | ⟨hpl, hok⟩
  · rw [he]
    exact .refused hr.not_isLost fun h => absurd h hs
  · rw [hok]
    exact .plain hput hpl

theorem outcome_of_fresh (hb : b.StandsIn p f k) {type : Ty} {i : Value → Instr}
    (hc : (Request.fresh type i).Checked) (hs : s.GivesValue)
    (hput : ∀ v, s.putBy (.value v) = some (i v)) :
    Outcome b p f k s (b.draw? false) ((Request.fresh type i).answer b)
      ((Request.fresh type i).exec b) := by
  simp only [Request.answer, Request.exec, Builder.run, Builder.draw?_of_standsIn hb]
  rcases addResult_of_standsIn hb type i with ⟨e, hr, he⟩ | ⟨hpl, hok⟩
  · obtain ⟨hclosed, rfl⟩ := hr.closed_of_checked hc
    rw [he]
    exact .burnt _ hs hclosed
  · rw [hok]
    exact .fresh _ (hput _) hpl

/-- Every call that leaves a builder in its block has one of the outcomes. -/
theorem outcome_of_stays (hs : s.Stays) (hb : b.StandsIn p f k) :
    Outcome b p f k s (s.draw? b) (s.answer b) (s.apply b) := by
  rcases hs.cases with ⟨r, hr⟩ | ⟨i, rfl⟩ | rfl
  · obtain ⟨happly, hanswer⟩ := Step.effect_of_request hr b
    have hof := Step.of_request hr
    simp only [happly, hanswer, Step.draw?, hr]
    cases r with
    | refused e =>
      exact .refused (Error.not_isLost_of_isTyping hof)
        fun _ => Error.not_isTerminated_of_isTyping hof
    | plain i => exact outcome_of_plain hb hof.1 hof.2
    | fresh type i => exact outcome_of_fresh hb (Step.checked_of_request hr) hof.1 hof.2
  · exact outcome_of_plain hb id rfl
  · have hdraw : Step.drawName.draw? b =
        some ⟨p.block.function, toString f.nextName, true⟩ := Builder.draw?_of_standsIn hb true
    rw [hdraw, Step.answer, Step.apply, Builder.run, drawName_of_standsIn hb]
    exact .named _ rfl

/-- A builder that stands nowhere refuses every call. -/
theorem refused_of_unpositioned (hs : s.Stays) (hp : b.position = none) :
    ∃ e : Error, ¬ e.IsTerminated ∧ s.answer b = .error (.error e) ∧ s.apply b = b := by
  rcases hs.cases with ⟨r, hr⟩ | ⟨i, rfl⟩ | rfl
  · obtain ⟨happly, hanswer⟩ := Step.effect_of_request hr b
    rw [happly, hanswer]
    cases r with
    | refused e =>
      exact ⟨e, Error.not_isTerminated_of_isTyping (Step.of_request hr), rfl, rfl⟩
    | plain i =>
      rw [Request.answer, Request.exec, Builder.run, add_of_unpositioned hp]
      exact ⟨.unpositioned, id, rfl, rfl⟩
    | fresh type i =>
      rw [Request.answer, Request.exec, Builder.run, addResult_of_unpositioned hp]
      exact ⟨.unpositioned, id, rfl, rfl⟩
  · rw [Step.answer, Step.apply, Builder.run, add_of_unpositioned hp]
    exact ⟨.unpositioned, id, rfl, rfl⟩
  · rw [Step.answer, Step.apply, Builder.run, drawName_of_unpositioned hp]
    exact ⟨.unpositioned, id, rfl, rfl⟩

end Outcome

/-- Puts an instruction at the builder's place part by part: it is put into the block, the builder
moves behind it, and a terminator marks the block. What a part has done is not taken back if a later
one fails. -/
def Build.addInParts (i : Instr) : Build Unit := fun b =>
  match b.position with
  | none => .error (.error .unpositioned) b
  | some p =>
    match Builder.check i p b.module with
    | .error e => .error (.error e) b
    | .ok () =>
      match b.module.insert p.block p.offset i with
      | .error e => .error e b
      | .ok m =>
        let moved : Builder := ⟨m, some { p with offset := p.offset + 1 }⟩
        if i.isTerminator then
          match m.setReturned p.block true with
          | .error e => .error (.error e) moved
          | .ok m' => .ok () { moved with module := m' }
        else .ok () moved

/-- It is all the same, as a block that has just taken an instruction can be marked. -/
theorem Build.addInParts_eq (i : Instr) : Build.addInParts i = Build.add i := by
  funext b
  unfold Build.addInParts Build.add Builder.insert
  cases b.position with
  | none => rfl
  | some p =>
    dsimp only
    unfold Builder.place
    cases Builder.check i p b.module with
    | error e => rfl
    | ok _ =>
      dsimp only
      cases hins : b.module.insert p.block p.offset i with
      | error e => rfl
      | ok m =>
        obtain ⟨f, k, hf, hk, -, -, rfl⟩ := Module.insert_cases hins
        have hblock := Module.block?_eq_some_iff.2 ⟨f, hf, hk⟩
        dsimp only
        rw [Module.setReturned_of_block? (Module.block?_modifyBlock_self hblock _)]
        cases i.isTerminator <;> rfl

/-- A call on a module that fails, or a builder that does not find its block, changes nothing. -/
theorem apply_of_error {b : Builder} {s : Step} (hs : ¬ s.Stays) {e : Failure Error}
    (h : s.answer b = .error e) :
    (s.apply b).module = b.module ∧ (s.IsOnBuilder → (s.apply b).position = b.position) := by
  cases s with
  | addFunction name returns params => cases h
  | newBuilder => cases h
  | addBlock function name =>
    rw [Step.answer] at h
    rw [Step.apply]
    cases hadd : b.module.addBlock function name with
    | error _ => exact ⟨rfl, fun h => h.elim⟩
    | ok r =>
      rw [hadd] at h
      cases h
  | insert block position i =>
    rw [Step.answer] at h
    rw [Step.apply]
    cases hins : b.module.insert block position i with
    | error _ => exact ⟨rfl, fun h => h.elim⟩
    | ok m =>
      rw [hins] at h
      cases h
  | setReturned block returned =>
    rw [Step.answer] at h
    rw [Step.apply]
    cases hset : b.module.setReturned block returned with
    | error _ => exact ⟨rfl, fun h => h.elim⟩
    | ok m =>
      rw [hset] at h
      cases h
  | builderAt block side =>
    rw [Step.answer] at h
    rw [Step.apply]
    cases hat : Builder.ofBlock b.module block side with
    | error _ => exact ⟨rfl, fun h => h.elim⟩
    | ok b' =>
      rw [hat] at h
      cases h
  | moveTo block side =>
    rw [Step.answer, Builder.run, Build.moveTo] at h
    rw [Step.apply, Builder.run, Build.moveTo]
    cases hmove : b.moveTo block side with
    | error _ => exact ⟨rfl, fun _ => rfl⟩
    | ok b' =>
      rw [hmove] at h
      cases h
  | _ => exact absurd trivial hs

/-- The builders on any module whose place is unset or was set by going to a block; from there on they
move only by calls that leave them in the block. -/
inductive Builder.Steered : Builder → Prop
  | unset (m : Module) : Steered (.ofModule m)
  | moved {b b' : Builder} {id : BlockId} {side : Side} : b.moveTo id side = .ok b' → Steered b'
  | called {b : Builder} {s : Step} : s.Stays → Steered b → Steered (s.apply b)

theorem Outcome.placed {b b' : Builder} {p : Position} {f : Func} {k : Block} {s : Step}
    {d : Option Draw} {r : Except (Failure Error) Answer} (hb : b.StandsIn p f k)
    (h : Outcome b p f k s d r b') : b'.Placed := by
  have hplaced : ∀ {c : Builder} {g : Func}, c.StandsIn p g k → c.Placed := by
    intro c g hc q hq
    obtain rfl := Option.some.inj (hq.symm.trans hc.position)
    exact ⟨g, k, hc⟩
  cases h with
  | refused => exact hplaced hb
  | burnt => exact hplaced hb.named
  | named => exact hplaced hb.named
  | plain => exact hb.put _
  | fresh => exact hb.named.put _

/-- A builder that is steered stands in a block, if anywhere. -/
theorem Builder.Steered.placed {b : Builder} (h : b.Steered) : b.Placed := by
  induction h with
  | unset m => exact Builder.placed_ofModule m
  | moved hmove => exact (change_of_moveTo hmove).placed
  | @called b s hs _ ih =>
    cases hp : b.position with
    | none =>
      obtain ⟨-, -, -, happly⟩ := refused_of_unpositioned hs hp
      rwa [happly]
    | some p =>
      obtain ⟨f, k, hb⟩ := ih p hp
      exact (outcome_of_stays hs hb).placed hb

/-- A call that fails changes neither the module nor the place of the builder. The one exception are
the calls that give a value: where the block has returned, and only there, the counter of the
builder's function goes up by one. An instruction that is put part by part comes to the same, so no
part is done without the others. -/
theorem failed_call_atomic {b : Builder} (hb : b.Steered) {s : Step} {e : Error}
    (h : s.answer b = .error (.error e)) :
    (s.IsOnBuilder → (s.apply b).position = b.position) ∧
    (¬ (s.GivesValue ∧ e.IsTerminated) → (s.apply b).module = b.module) ∧
    (s.GivesValue ∧ e.IsTerminated → ∃ p f, b.position = some p ∧
      b.module.function? p.block.function = some f ∧
      (s.apply b).module =
        b.module.modifyFunction p.block.function fun f => { f with nextName := f.nextName + 1 }) ∧
    ∀ i, Build.addInParts i = Build.add i := by
  by_cases hs : s.Stays
  · cases hp : b.position with
    | none =>
      obtain ⟨e', he', hanswer, happly⟩ := refused_of_unpositioned hs hp
      cases hanswer.symm.trans h
      rw [happly]
      exact ⟨fun _ => hp, fun _ => rfl, fun hburnt => absurd hburnt.2 he', Build.addInParts_eq⟩
    | some p =>
      obtain ⟨f, k, hstands⟩ := hb.placed p hp
      have houtcome := outcome_of_stays hs hstands
      rw [h] at houtcome
      generalize s.draw? b = d, s.apply b = b' at houtcome
      cases houtcome with
      | refused _ hnot =>
        exact ⟨fun _ => hp, fun _ => rfl, fun hburnt => absurd hburnt.2 (hnot hburnt.1),
          Build.addInParts_eq⟩
      | burnt d hvalue =>
        exact ⟨fun _ => hp, fun hnot => absurd ⟨hvalue, trivial⟩ hnot,
          fun _ => ⟨p, f, rfl, hstands.function, rfl⟩, Build.addInParts_eq⟩
  · obtain ⟨hmodule, hposition⟩ := apply_of_error hs h
    have hvalue : ¬ s.GivesValue := by
      intro hv
      cases s <;> first | exact hs trivial | exact hv
    exact ⟨hposition, fun _ => hmodule, fun hburnt => absurd hburnt.1 hvalue, Build.addInParts_eq⟩

def atClosedBlock : Builder :=
  (Step.ret (some ⟨"x", .i32⟩)).apply atEmptyBlock

/-- There a constant costs a name. A second end does not, and neither does a store that is refused for
its types. -/
theorem failed_call_atomic_atClosedBlock :
    atClosedBlock.Steered ∧
    (Step.const .i32 (.int 1)).answer atClosedBlock =
      .error (.error (.blockTerminated "f" "entry")) ∧
    ((Step.const .i32 (.int 1)).apply atClosedBlock).module =
      atClosedBlock.module.modifyFunction ⟨0⟩ (fun f => { f with nextName := f.nextName + 1 }) ∧
    (Step.ret none).answer atClosedBlock = .error (.error (.blockTerminated "f" "entry")) ∧
    ((Step.ret none).apply atClosedBlock).module = atClosedBlock.module ∧
    (Step.store ⟨"x", .i32⟩ ⟨"y", .i32⟩).answer atClosedBlock =
      .error (.error (.notAPointer ⟨"y", .i32⟩)) ∧
    ((Step.store ⟨"x", .i32⟩ ⟨"y", .i32⟩).apply atClosedBlock).module = atClosedBlock.module := by
  have hempty : atEmptyBlock.Steered :=
    @Builder.Steered.moved (.ofModule atEmptyBlock.module) _ ⟨⟨0⟩, 0⟩ .stop rfl
  have hsteered : atClosedBlock.Steered := .called trivial hempty
  have hconst : (Step.const .i32 (.int 1)).answer atClosedBlock =
      .error (.error (.blockTerminated "f" "entry")) := rfl
  have hret : (Step.ret none).answer atClosedBlock =
      .error (.error (.blockTerminated "f" "entry")) := rfl
  have hstore : (Step.store ⟨"x", .i32⟩ ⟨"y", .i32⟩).answer atClosedBlock =
      .error (.error (.notAPointer ⟨"y", .i32⟩)) := rfl
  obtain ⟨-, -, hburnt, -⟩ := failed_call_atomic hsteered hconst
  obtain ⟨p, f, hp, -, hmodule⟩ := hburnt ⟨trivial, trivial⟩
  obtain rfl : ⟨⟨⟨0⟩, 0⟩, 1⟩ = p := Option.some.inj hp
  exact ⟨hsteered, hconst, hmodule, hret, (failed_call_atomic hsteered hret).2.1 (fun h => h.1),
    hstore, (failed_call_atomic hsteered hstore).2.1 (fun h => h.1)⟩

end FrontEnd.IR
