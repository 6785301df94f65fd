import FrontEnd.Proofs.BareTypes
import Mathlib.Data.List.Forall2
import Mathlib.Data.Option.Basic

/-! Types that are the same cannot be told apart. A builder without the fields of structs with a
name does with a call without such fields what the builder does with the call, and so does a whole
run. So calls that differ in such fields only are answered alike, one after the other. -/

namespace FrontEnd.IR

namespace Builder

theorem check_bare (i : Instr) (p : Position) (m : Module) :
    check i.bare p m.bare = bareChecked id (check i p m) := by
  unfold check
  rw [Module.function?_bare, Module.block?_bare]
  cases m.function? p.block.function with
  | none => rfl
  | some f =>
    cases m.block? p.block with
    | none => rfl
    | some k =>
      simp only [Option.map_some, Instr.isTerminator_bare, Block.bare, Func.bare, List.length_map]
      cases i with
      | alloca result type =>
        simp only [Instr.bare, Ty.isVoid_bare]
        split
        · rfl
        · split <;> rfl
      | ret value =>
        simp only [Instr.bare, Value.bare, Ty.same_bare]
        split
        · split <;> rfl
        · rfl
      | _ =>
        dsimp only [Instr.bare]
        split <;> rfl

theorem place_bare (i : Instr) (p : Position) (m : Module) :
    place i.bare p m.bare = bareResult Module.bare (place i p m) := by
  rw [place, place, check_bare, Module.insert_bare]
  cases check i p m with
  | error e => rfl
  | ok _ =>
    dsimp only [bareChecked]
    cases m.insert p.block p.offset i with
    | error e => cases e <;> rfl
    | ok m' =>
      dsimp only [bareResult]
      rw [Instr.isTerminator_bare]
      split
      · rw [Module.setReturned_bare, mapError_bareChecked]
        rfl
      · rfl

theorem moveTo_bare (id : BlockId) (side : Side) (b : Builder) :
    b.bare.moveTo id side = bareChecked bare (b.moveTo id side) := by
  rw [moveTo, moveTo, bare, Module.block?_bare]
  cases b.module.block? id with
  | none => rfl
  | some k => cases side <;> simp [bareChecked, bare, Block.bare]

theorem insert_bare (i : Instr) (b : Builder) :
    b.bare.insert i.bare = bareResult bare (b.insert i) := by
  rw [insert, insert, bare]
  cases b.position with
  | none => rfl
  | some p =>
    dsimp only
    rw [place_bare]
    cases place i p b.module with
    | error e => cases e <;> rfl
    | ok m => rfl

end Builder

/-- The second step does to a bare builder what the first does to the builder. -/
def Bares {α : Type} (g : α → α) (x y : Build α) : Prop :=
  ∀ b : Builder, y b.bare = match x b with
    | .ok a b' => .ok (g a) b'.bare
    | .error (.error e) b' => .error (.error e.bare) b'.bare
    | .error (.violation v) b' => .error (.violation v) b'.bare

section Bares

variable {α β : Type} {g : α → α} {h : β → β}

theorem bares_pure (a : α) : Bares g (pure a) (pure (g a)) :=
  fun _ => rfl

theorem bares_refuse (e : Error) : Bares g (Build.refuse e) (Build.refuse e.bare) :=
  fun _ => rfl

theorem Bares.bind {x y : Build α} {f k : α → Build β} (hx : Bares g x y)
    (hf : ∀ a, Bares h (f a) (k (g a))) : Bares h (x >>= f) (y >>= k) := by
  intro b
  simp only [Bind.bind, EStateM.bind, hx b]
  cases x b with
  | ok a b' => exact hf a b'
  | error e b' => cases e <;> rfl

/-- A check in front of a step, if both have it and refuse alike. -/
theorem Bares.guard {c : Prop} [Decidable c] {e : Error} {x y : Build α} (hx : Bares g x y) :
    Bares g (if c then Build.refuse e >>= fun _ : Unit => x else x)
      (if c then Build.refuse e.bare >>= fun _ : Unit => y else y) := by
  split
  · exact Bares.bind (g := id) (bares_refuse e) fun _ => hx
  · exact hx

theorem bares_moveTo (id : BlockId) (side : Side) :
    Bares (fun u => u) (Build.moveTo id side) (Build.moveTo id side) := by
  intro b
  simp only [Build.moveTo, Builder.moveTo_bare]
  cases b.moveTo id side <;> rfl

theorem bares_add (i : Instr) : Bares id (Build.add i) (Build.add i.bare) := by
  intro b
  simp only [Build.add, Builder.insert_bare]
  cases b.insert i with
  | ok b' => rfl
  | error e => cases e <;> rfl

theorem bares_drawName : Bares id Build.drawName Build.drawName := by
  rintro ⟨m, _ | p⟩
  · rfl
  · simp only [Build.drawName, Builder.bare, Module.drawName_bare]
    cases m.drawName p.block.function <;> rfl

theorem bares_addResult {i j : Value → Instr} (hi : ∀ v, (i v).bare = j v.bare) (type : Ty) :
    Bares Value.bare (Build.addResult type i) (Build.addResult type.bare j) := by
  refine bares_drawName.bind fun name => ?_
  refine Bares.bind (g := id) ?_ fun _ => bares_pure _
  have hadd := bares_add (i ⟨name, type⟩)
  rwa [hi] at hadd

theorem bares_pointee (ptr : Value) :
    Bares Ty.bare (Build.pointee ptr) (Build.pointee ptr.bare) := by
  unfold Build.pointee
  simp only [Value.bare, Ty.pointee?_bare]
  cases ptr.type.pointee? with
  | none => exact bares_refuse (.notAPointer ptr)
  | some t => exact bares_pure t

theorem bares_ret (value : Option Value) :
    Bares id (Build.ret value) (Build.ret (value.map Value.bare)) := by
  cases value with
  | none => exact bares_add .retVoid
  | some value => exact bares_add (.ret value)

theorem bares_alloca (type : Ty) :
    Bares Value.bare (Build.alloca type) (Build.alloca type.bare) := by
  unfold Build.alloca
  rw [Ty.isVoid_bare]
  exact (bares_addResult (fun _ => rfl) (.ptr type)).guard

theorem bares_const (type : Ty) (value : Const) :
    Bares Value.bare (Build.const type value) (Build.const type.bare value) := by
  unfold Build.const
  rw [Const.fits_bare]
  exact (bares_addResult (fun _ => rfl) type).guard

theorem bares_load (ptr : Value) :
    Bares Value.bare (Build.load ptr) (Build.load ptr.bare) :=
  (bares_pointee ptr).bind fun t => bares_addResult (fun _ => rfl) t

theorem bares_store (value ptr : Value) :
    Bares id (Build.store value ptr) (Build.store value.bare ptr.bare) := by
  refine (bares_pointee ptr).bind fun t => ?_
  simp only [Value.bare, Ty.same_bare]
  exact (bares_add (.store value ptr)).guard

theorem bares_binary (op : BinaryOp) (left right : Value) :
    Bares Value.bare (Build.binary op left right) (Build.binary op left.bare right.bare) := by
  have htype : op.resultType left.type.bare = (op.resultType left.type).bare := by
    unfold BinaryOp.resultType
    split <;> rfl
  unfold Build.binary
  simp only [Value.bare, Ty.same_bare, htype]
  exact (bares_addResult (fun _ => rfl) _).guard

/-- The same of the outcome, answered in one way or another. -/
theorem Bares.answered {x y : Build α} (hx : Bares g x y) {f : α → Answer}
    (hf : ∀ a, f (g a) = (f a).bare) (b : Builder) :
    (b.bare.run y).1.map f = bareResult Answer.bare ((b.run x).1.map f) ∧
      (b.bare.run y).2 = (b.run x).2.bare := by
  simp only [Builder.run, hx b]
  rcases x b with ⟨a, b'⟩ | ⟨e | v, b'⟩
  · exact ⟨congrArg Except.ok (hf a), rfl⟩
  · exact ⟨rfl, rfl⟩
  · exact ⟨rfl, rfl⟩

end Bares

namespace Step

/-- A call on a bare builder, without the fields of structs with a name in it, is answered the same
way but for such fields, and leaves the bare builder that the call leaves. -/
theorem answer_apply_bare (s : Step) (b : Builder) :
    s.bare.answer b.bare = bareResult Answer.bare (s.answer b) ∧
      s.bare.apply b.bare = (s.apply b).bare := by
  cases s with
  | addFunction name returns params =>
    obtain ⟨hid, hm⟩ := b.module.bare_addFunction name returns params
    exact ⟨by rw [bare, answer, Builder.bare, hid]; rfl, by rw [bare, apply, Builder.bare, hm]; rfl⟩
  | addBlock function name =>
    simp only [bare, answer, apply, Builder.bare, Module.addBlock_bare]
    cases b.module.addBlock function name <;> exact ⟨rfl, rfl⟩
  | insert block position i =>
    simp only [bare, answer, apply, Builder.bare, Module.insert_bare]
    rcases b.module.insert block position i with (e | v) | m <;> exact ⟨rfl, rfl⟩
  | setReturned block returned =>
    simp only [bare, answer, apply, Builder.bare, Module.setReturned_bare]
    cases b.module.setReturned block returned <;> exact ⟨rfl, rfl⟩
  | newBuilder => exact ⟨rfl, rfl⟩
  | builderAt block side =>
    have hmove := (Builder.ofModule b.module).moveTo_bare block side
    simp only [bare, answer, apply, Builder.ofBlock]
    have : Builder.ofModule b.bare.module = (Builder.ofModule b.module).bare := rfl
    rw [this, hmove]
    cases (Builder.ofModule b.module).moveTo block side <;> exact ⟨rfl, rfl⟩
  | moveTo block side => exact (bares_moveTo block side).answered (fun _ => rfl) b
  | add i => exact (bares_add i).answered (fun _ => rfl) b
  | drawName => exact bares_drawName.answered (fun _ => rfl) b
  | ret value => exact (bares_ret value).answered (fun _ => rfl) b
  | alloca type => exact (bares_alloca type).answered (fun _ => rfl) b
  | const type value => exact (bares_const type value).answered (fun _ => rfl) b
  | load ptr => exact (bares_load ptr).answered (fun _ => rfl) b
  | store value ptr => exact (bares_store value ptr).answered (fun _ => rfl) b
  | binary op left right => exact (bares_binary op left right).answered (fun _ => rfl) b

end Step

/-- Nothing that is asked of a type tells one from the other. -/
structure Ty.Indistinct (t u : Ty) : Prop where
  text : t.text = u.text
  isVoid : t.isVoid = u.isVoid
  isInt : t.isInt = u.isInt
  isFloat : t.isFloat = u.isFloat
  fits : ∀ c : Const, c.fits t = c.fits u
  pointee : Option.Rel (fun t' u' => t'.same u' = true) t.pointee? u.pointee?

theorem Ty.indistinct_of_same {t u : Ty} (h : t.same u = true) : t.Indistinct u := by
  have hbare := same_iff_bare.1 h
  have seen : ∀ {α : Type} {f : Ty → α}, (∀ t, f t.bare = f t) → f t = f u := by
    intro α f hf
    rw [← hf t, ← hf u, hbare]
  refine ⟨seen text_bare, seen isVoid_bare, seen isInt_bare, seen isFloat_bare,
    fun c => seen c.fits_bare, ?_⟩
  have hpointee := congrArg pointee? hbare
  rw [pointee?_bare, pointee?_bare] at hpointee
  cases ht : t.pointee? <;> cases hu : u.pointee? <;> rw [ht, hu] at hpointee
  · exact .none
  · cases hpointee
  · cases hpointee
  · exact .some (same_iff_bare.2 (Option.some.inj hpointee))

/-- The builders differ at most in types, and there by types that are the same. -/
def Builder.Alike (b b' : Builder) : Prop :=
  b.bare = b'.bare

def Step.Alike (s s' : Step) : Prop :=
  s.bare = s'.bare

/-- The errors are of one kind, and differ at most by types that are the same. -/
def Error.Alike (e e' : Error) : Prop :=
  e.bare = e'.bare

def Answer.Alike : Answer → Answer → Prop
  | value v, value v' => v.name = v'.name ∧ v.type.same v'.type = true
  | a, a' => a = a'

/-- Two calls that both succeed with one name and one type of result, or both fail with one kind of
error and one message. -/
inductive AnsweredAlike : Except (Failure Error) Answer → Except (Failure Error) Answer → Prop
  | ok {a a' : Answer} : a.Alike a' → AnsweredAlike (.ok a) (.ok a')
  | error {e e' : Error} : e.Alike e' → e.message = e'.message →
      AnsweredAlike (.error (.error e)) (.error (.error e'))
  | violation (v : Violation) : AnsweredAlike (.error (.violation v)) (.error (.violation v))

theorem Answer.alike_of_bare {a a' : Answer} (h : a.bare = a'.bare) : a.Alike a' := by
  cases a with
  | value v =>
    cases a' with
    | value v' =>
      obtain ⟨hname, htype⟩ := Value.mk.inj (Answer.value.inj h)
      exact ⟨hname, Ty.same_iff_bare.2 htype⟩
    | _ => cases h
  | _ => cases a' <;> first | exact h | cases h

theorem answeredAlike_of_bare {r r' : Except (Failure Error) Answer}
    (h : bareResult Answer.bare r = bareResult Answer.bare r') : AnsweredAlike r r' := by
  rcases r with (e | v) | a <;> rcases r' with (e' | v') | a' <;>
    simp only [bareResult, reduceCtorEq, Except.error.injEq, Except.ok.injEq, Failure.error.injEq,
      Failure.violation.injEq] at h
  · exact .error h (by rw [← e.message_bare, h, e'.message_bare])
  · subst h
    exact .violation v
  · exact .ok (Answer.alike_of_bare h)

/-- Calls that are alike, on builders that are alike. -/
theorem answeredAlike_step {s s' : Step} {b b' : Builder} (hs : s.Alike s') (hb : b.Alike b') :
    AnsweredAlike (s.answer b) (s'.answer b') ∧ (s.apply b).Alike (s'.apply b') := by
  obtain ⟨hr, hm⟩ := s.answer_apply_bare b
  obtain ⟨hr', hm'⟩ := s'.answer_apply_bare b'
  rw [hs, hb] at hr hm
  exact ⟨answeredAlike_of_bare (hr.symm.trans hr'), hm.symm.trans hm'⟩

theorem answeredAlike_run {steps steps' : List Step} (hs : List.Forall₂ Step.Alike steps steps')
    {b b' : Builder} (hb : b.Alike b') :
    List.Forall₂ AnsweredAlike (Step.answers steps b) (Step.answers steps' b') ∧
      (Step.runAll steps b).Alike (Step.runAll steps' b') := by
  induction hs generalizing b b' with
  | nil => exact ⟨.nil, hb⟩
  | cons h _ ih =>
    obtain ⟨hanswer, happly⟩ := answeredAlike_step h hb
    obtain ⟨hanswers, hrun⟩ := ih happly
    exact ⟨.cons hanswer hanswers, hrun⟩

theorem Builder.Alike.handedOver {b b' : Builder} (h : b.Alike b') :
    b.module.text = b'.module.text ∧
      handOff textBackend b.module = handOff textBackend b'.module := by
  have hm : b.module.bare = b'.module.bare := congrArg Builder.module h
  have htext : b.module.text = b'.module.text := by
    rw [← b.module.text_bare, hm, b'.module.text_bare]
  have hverify : b.module.verify = b'.module.verify := by
    rw [← b.module.verify_bare, hm, b'.module.verify_bare]
  refine ⟨htext, ?_⟩
  simp only [handOff, hverify, textBackend, htext]

/-- To be the same is an equivalence on types, and nothing tells types that are the same from each
other: not their texts, kinds, constants or pointees, and not any run of calls. Calls that differ in
such types only, on builders that differ in such types only, are answered alike one after the other,
and what is then handed over is the same text. -/
theorem same_types_indistinct :
    Equivalence (fun t u : Ty => t.same u = true) ∧
    (∀ t u : Ty, t.same u = true → t.Indistinct u) ∧
    ∀ (steps steps' : List Step) (b b' : Builder), List.Forall₂ Step.Alike steps steps' →
      b.Alike b' →
      List.Forall₂ AnsweredAlike (Step.answers steps b) (Step.answers steps' b') ∧
      (Step.runAll steps b).Alike (Step.runAll steps' b') ∧
      (Step.runAll steps b).module.text = (Step.runAll steps' b').module.text ∧
      handOff textBackend (Step.runAll steps b).module =
        handOff textBackend (Step.runAll steps' b').module := by
  refine ⟨⟨Ty.same_self, fun h => ?_, fun h h' => ?_⟩, fun t u h => Ty.indistinct_of_same h, ?_⟩
  · exact Ty.same_iff_bare.2 (Ty.same_iff_bare.1 h).symm
  · exact Ty.same_iff_bare.2 ((Ty.same_iff_bare.1 h).trans (Ty.same_iff_bare.1 h'))
  · intro steps steps' b b' hs hb
    obtain ⟨hanswers, hrun⟩ := answeredAlike_run hs hb
    exact ⟨hanswers, hrun, hrun.handedOver⟩

def point (fields : List Ty) : Ty :=
  .struct (some "Point") fields

def returningPoint (fields : List Ty) : Builder :=
  Step.runAll [.addFunction "f" (point fields) [.ptr (point [])], .addBlock ⟨0⟩ "entry",
    .builderAt ⟨⟨0⟩, 0⟩ .stop] (.ofModule (.empty "m"))

/-- Loads a point, tries to store a number over it, and returns it. -/
def pointCalls (fields : List Ty) : List Step :=
  [.load ⟨"arg0", .ptr (point fields)⟩, .store ⟨"x", .i32⟩ ⟨"arg0", .ptr (point fields)⟩,
    .ret (some ⟨"0", point fields⟩)]

/-- Whatever points are said to be made of, one is loaded and returned, and no number is stored. -/
theorem same_types_indistinct_points :
    Step.answers (pointCalls [.i32]) (returningPoint [.i8]) =
      [.ok (.value ⟨"0", point [.i32]⟩),
        .error (.error (.operandMismatch "store" .i32 (point [.i32]))), .ok .done] ∧
    (point [.i32]).same (point [.f32, .bool]) = true ∧
    (point [.i32]).Indistinct (point [.f32, .bool]) ∧
    List.Forall₂ Step.Alike (pointCalls [.i32]) (pointCalls [.f32, .bool]) ∧
    (returningPoint [.i8]).Alike (returningPoint []) ∧
    List.Forall₂ AnsweredAlike (Step.answers (pointCalls [.i32]) (returningPoint [.i8]))
      (Step.answers (pointCalls [.f32, .bool]) (returningPoint [])) := by
  obtain ⟨-, htypes, hruns⟩ := same_types_indistinct
  have hs : List.Forall₂ Step.Alike (pointCalls [.i32]) (pointCalls [.f32, .bool]) :=
    .cons rfl (.cons rfl (.cons rfl .nil))
  have hb : (returningPoint [.i8]).Alike (returningPoint []) := rfl
  exact ⟨rfl, rfl, htypes _ _ rfl, hs, hb, (hruns _ _ _ _ hs hb).1⟩

end FrontEnd.IR
