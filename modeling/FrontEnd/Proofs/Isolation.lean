import FrontEnd.Proofs.Construction

/-! Functions do not see each other. A builder that goes to a block and stays there looks at the
function of that block only, and changes no other one. So a run that is made of such visits falls
apart by functions: what a visit answers and what a function ends up with are the same without the
visits to other functions, and in every order that keeps the visits to each function in their
order. -/

namespace FrontEnd.IR

/-- Only that function has changed from one module to the other, and it has no other blocks. -/
structure Module.OnlyIn (id : FuncId) (m m' : Module) : Prop where
  name : m'.name = m.name
  others : ∀ other, other ≠ id → m'.function? other = m.function? other
  blocks : ∀ block, (m'.block? block).isSome = (m.block? block).isSome

namespace Module.OnlyIn

variable {id : FuncId} {m m' m'' : Module}

theorem refl (id : FuncId) (m : Module) : m.OnlyIn id m :=
  ⟨rfl, fun _ _ => rfl, fun _ => rfl⟩

theorem trans (h : m.OnlyIn id m') (h' : m'.OnlyIn id m'') : m.OnlyIn id m'' where
  name := h'.name.trans h.name
  others other hne := (h'.others other hne).trans (h.others other hne)
  blocks block := (h'.blocks block).trans (h.blocks block)

theorem modifyFunction (id : FuncId) {g : Func → Func}
    (hg : ∀ f, (g f).blocks.length = f.blocks.length) : m.OnlyIn id (m.modifyFunction id g) where
  name := rfl
  others other hne := by rw [function?_modifyFunction, if_neg hne.symm]
  blocks block := by
    simp only [block?, function?_modifyFunction]
    split
    · cases m.function? block.function with
      | none => rfl
      | some f =>
        simp only [Option.map_some, Option.bind_eq_bind, Option.bind_some]
        simp only [Option.isSome_eq_isSome, List.getElem?_eq_none_iff, hg]
    · rfl

theorem modifyBlock (block : BlockId) (g : Block → Block) :
    m.OnlyIn block.function (m.modifyBlock block g) :=
  .modifyFunction _ fun _ => List.length_modify ..

end Module.OnlyIn

/-- The builders stand at one place of that function, or nowhere, and for both it is the same. -/
structure Builder.Agree (id : FuncId) (b b' : Builder) : Prop where
  function : b.module.function? id = b'.module.function? id
  position : b.position = b'.position
  inside : ∀ p ∈ b.position, p.block.function = id

section Place

variable {id : FuncId} {m m' : Module}

theorem block?_congr {block : BlockId} (h : m.function? block.function = m'.function? block.function) :
    m.block? block = m'.block? block := by
  simp only [Module.block?, h]

theorem locate_congr {block : BlockId} (h : m.function? block.function = m'.function? block.function) :
    m.locate block = m'.locate block := by
  simp only [Module.locate, h]

theorem modifyBlock_congr (block : BlockId) (g : Block → Block)
    (h : m.function? id = m'.function? id) :
    (m.modifyBlock block g).function? id = (m'.modifyBlock block g).function? id := by
  simp only [Module.modifyBlock, Module.function?_modifyFunction, h]

/-- One operation on both modules: it fails alike, or makes one change of a block. -/
def Together {ε : Type} (block : BlockId) (m m' : Module) (r r' : Except ε Module) : Prop :=
  (∃ e, r = .error e ∧ r' = .error e) ∨
    ∃ g, r = .ok (m.modifyBlock block g) ∧ r' = .ok (m'.modifyBlock block g)

theorem together_insert {block : BlockId} (position : Nat) (i : Instr)
    (h : m.function? block.function = m'.function? block.function) :
    Together block m m' (m.insert block position i) (m'.insert block position i) := by
  unfold Module.insert
  rw [locate_congr h]
  split
  · exact .inl ⟨_, rfl, rfl⟩
  split
  · exact .inl ⟨_, rfl, rfl⟩
  split
  · exact .inl ⟨_, rfl, rfl⟩
  · exact .inr ⟨_, rfl, rfl⟩

theorem together_setReturned {block : BlockId} (returned : Bool)
    (h : m.function? block.function = m'.function? block.function) :
    Together block m m' (m.setReturned block returned) (m'.setReturned block returned) := by
  unfold Module.setReturned
  rw [locate_congr h]
  split
  · exact .inl ⟨_, rfl, rfl⟩
  split
  · exact .inl ⟨_, rfl, rfl⟩
  · exact .inr ⟨_, rfl, rfl⟩

/-- Whether an instruction may stand at a place depends on the function there alone. -/
theorem together_place (i : Instr) {p : Position}
    (h : m.function? p.block.function = m'.function? p.block.function) :
    Together p.block m m' (Builder.place i p m) (Builder.place i p m') := by
  have hcheck : Builder.check i p m = Builder.check i p m' := by
    simp only [Builder.check, h, block?_congr h]
  unfold Builder.place
  rw [hcheck]
  split
  · exact .inl ⟨_, rfl, rfl⟩
  rcases together_insert p.offset i h with ⟨e, he, he'⟩ | ⟨g, hok, hok'⟩
  · exact .inl ⟨e, by rw [he], by rw [he']⟩
  rw [hok, hok']
  dsimp only
  split
  · rcases together_setReturned true (modifyBlock_congr p.block g h) with
      ⟨e, he, he'⟩ | ⟨g', hret, hret'⟩
    · exact .inl ⟨.error e, by rw [he]; rfl, by rw [he']; rfl⟩
    · refine .inr ⟨g' ∘ g, ?_, ?_⟩
      · rw [hret, Module.modifyBlock_modifyBlock]
        rfl
      · rw [hret', Module.modifyBlock_modifyBlock]
        rfl
  · exact .inr ⟨g, rfl, rfl⟩

end Place

section Local

variable {α β : Type} {id : FuncId}

/-- Two outcomes of a step are the same, and so is the function behind it. -/
inductive SameOutcome (id : FuncId) :
    EStateM.Result (Failure Error) Builder α → EStateM.Result (Failure Error) Builder α → Prop
  | ok (a : α) {b b' : Builder} : b.Agree id b' → SameOutcome id (.ok a b) (.ok a b')
  | error (e : Failure Error) {b b' : Builder} :
      b.Agree id b' → SameOutcome id (.error e b) (.error e b')

/-- A step of construction that sees and changes only the function in which the builder stands. -/
structure Local (x : Build α) : Prop where
  agree : ∀ {id b b'}, b.Agree id b' → SameOutcome id (x b) (x b')
  ok : ∀ {id b a b'}, (∀ p ∈ b.position, p.block.function = id) → x b = .ok a b' →
    b.module.OnlyIn id b'.module
  error : ∀ {id b e b'}, (∀ p ∈ b.position, p.block.function = id) → x b = .error e b' →
    b.module.OnlyIn id b'.module

theorem Local.pure (a : α) : Local (pure a : Build α) where
  agree h := .ok a h
  ok _ h := by
    cases h
    exact .refl _ _
  error _ h := by cases h

theorem local_refuse (e : Error) : Local (Build.refuse e : Build α) where
  agree h := .error _ h
  ok _ h := by cases h
  error _ h := by
    cases h
    exact .refl _ _

/-- A step leaves the builder in its function. -/
theorem Local.inside {x : Build α} (hx : Local x) {b b' : Builder} {a : α}
    (hb : ∀ p ∈ b.position, p.block.function = id) (h : x b = .ok a b') :
    ∀ p ∈ b'.position, p.block.function = id := by
  have hself := hx.agree ⟨rfl, rfl, hb⟩
  rw [h] at hself
  cases hself with
  | ok _ hagree => exact hagree.inside

theorem Local.bind {x : Build α} {f : α → Build β} (hx : Local x) (hf : ∀ a, Local (f a)) :
    Local (x >>= f) where
  agree {id b b'} h := by
    have hsame := hx.agree h
    simp only [Bind.bind, EStateM.bind]
    generalize x b = r, x b' = r' at hsame
    cases hsame with
    | ok a hagree => exact (hf a).agree hagree
    | error e hagree => exact .error e hagree
  ok {id b c b'} hb h := by
    simp only [Bind.bind, EStateM.bind] at h
    split at h
    · next hxb => exact (hx.ok hb hxb).trans ((hf _).ok (hx.inside hb hxb) h)
    · cases h
  error {id b e b'} hb h := by
    simp only [Bind.bind, EStateM.bind] at h
    split at h
    · next hxb => exact (hx.ok hb hxb).trans ((hf _).error (hx.inside hb hxb) h)
    · next hxb =>
      cases h
      exact hx.error hb hxb

theorem Local.guard {c : Prop} [Decidable c] {e : Error} {x : Build α} (hx : Local x) :
    Local (if c then Build.refuse e >>= fun _ : Unit => x else x) := by
  split
  · exact (local_refuse e).bind fun _ => hx
  · exact hx

theorem add_eq_ok {i : Instr} {b b' : Builder} (h : Build.add i b = .ok () b') :
    ∃ p m, b.position = some p ∧ Builder.place i p b.module = .ok m ∧
      b' = ⟨m, some { p with offset := p.offset + 1 }⟩ := by
  unfold Build.add Builder.insert at h
  split at h
  · next hins =>
    cases h
    split at hins
    · cases hins
    split at hins
    · cases hins
    · next hp _ _ hplace =>
      cases hins
      exact ⟨_, _, hp, hplace, rfl⟩
  · cases h

theorem local_add (i : Instr) : Local (Build.add i) where
  agree {id b b'} h := by
    unfold Build.add Builder.insert
    rw [← h.position]
    cases hp : b.position with
    | none => exact .error _ h
    | some p =>
      have hfun : p.block.function = id := h.inside p hp
      have hsame : b.module.function? p.block.function = b'.module.function? p.block.function := by
        rw [hfun]
        exact h.function
      have hplace := together_place i hsame
      dsimp only
      rcases hplace with ⟨e, he, he'⟩ | ⟨g, hok, hok'⟩
      · rw [he, he']
        exact .error e h
      · rw [hok, hok']
        refine .ok () ⟨modifyBlock_congr p.block g h.function, rfl, ?_⟩
        rintro q ⟨⟩
        exact hfun
  ok {id b a b'} hb h := by
    obtain ⟨p, m, hp, hplace, rfl⟩ := add_eq_ok h
    obtain ⟨-, -, -, -, -, rfl⟩ := place_cases hplace
    have hfun : p.block.function = id := hb p hp
    exact hfun ▸ .modifyBlock _ _
  error {id b e b'} _ h := by
    unfold Build.add at h
    split at h
    · cases h
    · cases h
      exact .refl _ _

theorem local_drawName : Local Build.drawName where
  agree {id b b'} h := by
    unfold Build.drawName Module.drawName
    rw [← h.position]
    cases hp : b.position with
    | none => exact .error _ h
    | some p =>
      obtain rfl : p.block.function = id := h.inside p hp
      dsimp only
      rw [← h.function]
      cases hf : b.module.function? p.block.function with
      | none => exact .error _ h
      | some f =>
        refine .ok _ ⟨?_, rfl, ?_⟩
        · simp only [Module.function?_modifyFunction, h.function]
        · rintro q ⟨⟩
          rfl
  ok {id b a b'} hb h := by
    unfold Build.drawName Module.drawName at h
    split at h
    · cases h
    next p hp =>
    obtain rfl : p.block.function = id := hb p hp
    split at h
    · next hdraw =>
      cases h
      split at hdraw
      · cases hdraw
      · cases hdraw
        exact .modifyFunction _ fun _ => rfl
    · cases h
  error {id b e b'} _ h := by
    unfold Build.drawName at h
    split at h
    · cases h
      exact .refl _ _
    split at h
    · cases h
    · cases h
      exact .refl _ _

theorem local_addResult (type : Ty) (i : Value → Instr) : Local (Build.addResult type i) :=
  local_drawName.bind fun _ => (local_add _).bind fun _ => .pure _

theorem local_pointee (ptr : Value) : Local (Build.pointee ptr) := by
  unfold Build.pointee
  split
  · exact .pure _
  · exact local_refuse _

theorem local_ret (value : Option Value) : Local (Build.ret value) := by
  cases value with
  | none => exact local_add _
  | some value => exact local_add _

theorem Local.run {x : Build α} (hx : Local x) {b b' : Builder} (h : b.Agree id b') :
    (b.run x).1 = (b'.run x).1 ∧ (b.run x).2.Agree id (b'.run x).2 := by
  have hsame := hx.agree h
  unfold Builder.run
  generalize x b = r, x b' = r' at hsame
  cases hsame with
  | ok a hagree => exact ⟨rfl, hagree⟩
  | error e hagree =>
    cases e with
    | error e => exact ⟨rfl, hagree⟩
    | violation v => exact ⟨rfl, h⟩

theorem Local.run_onlyIn {x : Build α} (hx : Local x) {b : Builder}
    (hb : ∀ p ∈ b.position, p.block.function = id) : b.module.OnlyIn id (b.run x).2.module := by
  unfold Builder.run
  split
  · next h => exact hx.ok hb h
  · next h => exact hx.error hb h
  · exact .refl _ _

end Local

namespace Step

/-- The calls on a builder that leave it in its block. -/
def Stays : Step → Prop
  | add _ => True
  | drawName => True
  | ret _ => True
  | alloca _ => True
  | const _ _ => True
  | load _ => True
  | store _ _ => True
  | binary _ _ _ => True
  | _ => False

theorem exists_local {s : Step} (hs : s.Stays) :
    ∃ (α : Type) (x : Build α) (f : α → Answer), Local x ∧
      (∀ b, s.answer b = (b.run x).1.map f) ∧ ∀ b, s.apply b = (b.run x).2 := by
  cases s with
  | add i => exact ⟨_, _, _, local_add i, fun _ => rfl, fun _ => rfl⟩
  | drawName => exact ⟨_, _, _, local_drawName, fun _ => rfl, fun _ => rfl⟩
  | ret value => exact ⟨_, _, _, local_ret value, fun _ => rfl, fun _ => rfl⟩
  | alloca type =>
    exact ⟨_, _, _, Local.guard (local_addResult _ _), fun _ => rfl, fun _ => rfl⟩
  | const type value =>
    exact ⟨_, _, _, Local.guard (local_addResult _ _), fun _ => rfl, fun _ => rfl⟩
  | load ptr =>
    exact ⟨_, _, _, (local_pointee ptr).bind fun _ => local_addResult _ _, fun _ => rfl,
      fun _ => rfl⟩
  | store value ptr =>
    exact ⟨_, _, _, (local_pointee ptr).bind fun _ => (local_add _).guard, fun _ => rfl,
      fun _ => rfl⟩
  | binary op left right =>
    exact ⟨_, _, _, Local.guard (local_addResult _ _), fun _ => rfl, fun _ => rfl⟩
  | _ => cases hs

variable {id : FuncId} {b b' : Builder}

/-- A call sees no other function. -/
theorem agree_of_stays {s : Step} (hs : s.Stays) (h : b.Agree id b') :
    s.answer b = s.answer b' ∧ (s.apply b).Agree id (s.apply b') := by
  obtain ⟨α, x, f, hx, hanswer, happly⟩ := exists_local hs
  obtain ⟨hfst, hsnd⟩ := hx.run h
  rw [hanswer, hanswer, happly, happly, hfst]
  exact ⟨rfl, hsnd⟩

/-- A call changes no other function. -/
theorem onlyIn_of_stays {s : Step} (hs : s.Stays) (hb : ∀ p ∈ b.position, p.block.function = id) :
    b.module.OnlyIn id (s.apply b).module := by
  obtain ⟨α, x, f, hx, -, happly⟩ := exists_local hs
  rw [happly]
  exact hx.run_onlyIn hb

theorem agree_of_all_stay {steps : List Step} (hs : ∀ s ∈ steps, s.Stays) (h : b.Agree id b') :
    answers steps b = answers steps b' ∧ (runAll steps b).Agree id (runAll steps b') := by
  induction steps generalizing b b' with
  | nil => exact ⟨rfl, h⟩
  | cons s steps ih =>
    obtain ⟨hfirst, hrest⟩ := List.forall_mem_cons.1 hs
    obtain ⟨hanswer, hagree⟩ := agree_of_stays hfirst h
    obtain ⟨hanswers, hlast⟩ := ih hrest hagree
    rw [answers, answers, hanswer, hanswers]
    exact ⟨rfl, hlast⟩

theorem onlyIn_of_all_stay {steps : List Step} (hs : ∀ s ∈ steps, s.Stays)
    (hb : ∀ p ∈ b.position, p.block.function = id) :
    b.module.OnlyIn id (runAll steps b).module := by
  induction steps generalizing b with
  | nil => exact .refl _ _
  | cons s steps ih =>
    obtain ⟨hfirst, hrest⟩ := List.forall_mem_cons.1 hs
    have hself : b.Agree id b := ⟨rfl, rfl, hb⟩
    exact (onlyIn_of_stays hfirst hb).trans (ih hrest (agree_of_stays hfirst hself).2.inside)

end Step

/-- Calls at one block in a row: a builder goes there, and each call leaves it there. -/
structure Visit where
  /-- Whether a new builder is made for it. -/
  fresh : Bool
  block : BlockId
  side : Side
  calls : List Step
  stays : ∀ s ∈ calls, s.Stays

namespace Visit

def opening (v : Visit) : Step :=
  if v.fresh then .builderAt v.block v.side else .moveTo v.block v.side

def steps (v : Visit) : List Step :=
  v.opening :: v.calls

def isIn (id : FuncId) (v : Visit) : Bool :=
  v.block.function = id

def after (vs : List Visit) (b : Builder) : Builder :=
  Step.runAll (vs.flatMap steps) b

def trace : List Visit → Builder → List (Visit × List (Except (Failure Error) Answer))
  | [], _ => []
  | v :: vs, b => (v, Step.answers v.steps b) :: trace vs (Step.runAll v.steps b)

def AllOpen : List Visit → Builder → Prop
  | [], _ => True
  | v :: vs, b => v.opening.answer b = .ok .done ∧ AllOpen vs (Step.runAll v.steps b)

variable {b b' : Builder} {v : Visit} {vs : List Visit} {id : FuncId}

theorem after_cons (v : Visit) (vs : List Visit) (b : Builder) :
    after (v :: vs) b = after vs (Step.runAll v.steps b) := by
  simp only [after, Step.runAll, List.flatMap_cons, List.foldl_append]

/-- A block that is there is found, wherever the builder was before. -/
theorem opening_of_some {k : Block} (hk : b.module.block? v.block = some k) :
    v.opening.answer b = .ok .done ∧ v.opening.apply b =
      ⟨b.module, some ⟨v.block, match v.side with | .start => 0 | .stop => k.instrs.length⟩⟩ := by
  unfold opening
  split
  · cases v.side <;> simp [Step.answer, Step.apply, Builder.ofBlock, Builder.ofModule,
      Builder.moveTo, hk, Except.map, mapError_eq_ok_iff]
  · cases v.side <;> simp [Step.answer, Step.apply, Builder.run, Build.moveTo, Builder.moveTo, hk,
      Except.map]

theorem answer_opening_iff :
    v.opening.answer b = .ok .done ↔ (b.module.block? v.block).isSome = true := by
  cases hk : b.module.block? v.block with
  | some k => simp [(opening_of_some hk).1]
  | none =>
    unfold opening
    split
    · simp [Step.answer, Builder.ofBlock, Builder.ofModule, Builder.moveTo, hk, Except.map,
        mapError_eq_ok_iff]
    · simp [Step.answer, Builder.run, Build.moveTo, Builder.moveTo, hk, Except.map]

/-- Builders that may stand apart agree once they are at a block of a function that is the same for
both. -/
theorem agree_opening (ho : v.opening.answer b = .ok .done)
    (h : b.module.function? v.block.function = b'.module.function? v.block.function) :
    v.opening.answer b' = .ok .done ∧
      (v.opening.apply b).Agree v.block.function (v.opening.apply b') := by
  obtain ⟨k, hk⟩ := Option.isSome_iff_exists.1 (answer_opening_iff.1 ho)
  have hk' : b'.module.block? v.block = some k := (block?_congr h).symm.trans hk
  rw [(opening_of_some hk).2, (opening_of_some hk').2]
  refine ⟨(opening_of_some hk').1, h, rfl, ?_⟩
  rintro p ⟨⟩
  rfl

/-- A visit answers the same and does the same to its function, whatever the others are. -/
theorem agree_steps (ho : v.opening.answer b = .ok .done)
    (h : b.module.function? v.block.function = b'.module.function? v.block.function) :
    Step.answers v.steps b = Step.answers v.steps b' ∧
      (Step.runAll v.steps b).module.function? v.block.function =
        (Step.runAll v.steps b').module.function? v.block.function := by
  obtain ⟨ho', hagree⟩ := agree_opening ho h
  obtain ⟨hanswers, hlast⟩ := Step.agree_of_all_stay v.stays hagree
  rw [steps, Step.answers, Step.answers, ho, ho', hanswers]
  exact ⟨rfl, hlast.function⟩

/-- A visit leaves all other functions as they are. -/
theorem onlyIn_steps (ho : v.opening.answer b = .ok .done) :
    b.module.OnlyIn v.block.function (Step.runAll v.steps b).module := by
  obtain ⟨k, hk⟩ := Option.isSome_iff_exists.1 (answer_opening_iff.1 ho)
  have hopen := (opening_of_some hk).2
  rw [steps, Step.runAll, List.foldl_cons, hopen]
  refine Step.onlyIn_of_all_stay (b := ⟨b.module, some _⟩) v.stays ?_
  rintro p ⟨⟩
  rfl

/-- No visit adds a block, so a block that is found at some time was there at first. -/
theorem allOpen_iff : AllOpen vs b ↔ ∀ v ∈ vs, (b.module.block? v.block).isSome = true := by
  induction vs generalizing b with
  | nil => simp [AllOpen]
  | cons v vs ih =>
    rw [AllOpen, List.forall_mem_cons, ih, ← answer_opening_iff]
    refine and_congr_right fun ho => ?_
    simp only [(onlyIn_steps ho).blocks]

/-- Step by step the run and the run without the visits to other functions agree. -/
theorem trace_filter (ho : AllOpen vs b) (h : b.module.function? id = b'.module.function? id) :
    (trace vs b).filter (fun r => r.1.isIn id) = trace (vs.filter (isIn id)) b' ∧
      (after vs b).module.function? id = (after (vs.filter (isIn id)) b').module.function? id := by
  induction vs generalizing b b' with
  | nil => exact ⟨rfl, h⟩
  | cons v vs ih =>
    obtain ⟨hv, hvs⟩ := ho
    rw [after_cons, trace]
    by_cases hid : v.block.function = id
    · subst hid
      have hin : v.isIn v.block.function = true := by simp [isIn]
      obtain ⟨hanswers, hfunction⟩ := agree_steps hv h
      obtain ⟨htrace, hafter⟩ := ih hvs hfunction
      simp only [List.filter_cons, hin, if_true, trace, after_cons, htrace, hanswers]
      exact ⟨trivial, hafter⟩
    · have hout : v.isIn id = false := by simpa [isIn] using hid
      simp only [List.filter_cons, hout, Bool.false_eq_true, if_false]
      exact ih hvs (((onlyIn_steps hv).others id (Ne.symm hid)).trans h)

theorem name_after (ho : AllOpen vs b) : (after vs b).module.name = b.module.name := by
  induction vs generalizing b with
  | nil => rfl
  | cons v vs ih =>
    obtain ⟨hv, hvs⟩ := ho
    rw [after_cons, ih hvs, (onlyIn_steps hv).name]

/-- A visit is among the visits to its own function. -/
theorem mem_of_filter_eq {ws : List Visit}
    (h : ∀ id, ws.filter (isIn id) = vs.filter (isIn id)) {w : Visit} (hw : w ∈ ws) : w ∈ vs := by
  have hmem : w ∈ ws.filter (isIn w.block.function) := List.mem_filter.2 ⟨hw, by simp [isIn]⟩
  rw [h] at hmem
  exact (List.mem_filter.1 hmem).1

end Visit

theorem Module.ext_function? {m m' : Module} (hname : m.name = m'.name)
    (h : ∀ id, m.function? id = m'.function? id) : m = m' := by
  obtain ⟨name, functions⟩ := m
  obtain ⟨name', functions'⟩ := m'
  obtain rfl : name = name' := hname
  obtain rfl : functions = functions' := List.ext_getElem? fun n => h ⟨n⟩
  rfl

/-- In every run of visits that find their blocks, on any module: without the visits to all other
functions, the visits to a function answer what they answer in the whole run, and the function ends
up the same. So the visits may be made in any order that keeps the order of those to each function:
all answers and the module at the end are the same. -/
theorem functions_isolated (b : Builder) {vs : List Visit} (h : Visit.AllOpen vs b) :
    (∀ id,
      Visit.trace (vs.filter (Visit.isIn id)) b = (Visit.trace vs b).filter (fun r => r.1.isIn id) ∧
      (Visit.after (vs.filter (Visit.isIn id)) b).module.function? id =
        (Visit.after vs b).module.function? id) ∧
    ∀ ws : List Visit, (∀ id, ws.filter (Visit.isIn id) = vs.filter (Visit.isIn id)) →
      (∀ id, (Visit.trace ws b).filter (fun r => r.1.isIn id) =
        (Visit.trace vs b).filter (fun r => r.1.isIn id)) ∧
      (Visit.after ws b).module = (Visit.after vs b).module := by
  refine ⟨fun id => ?_, fun ws hws => ?_⟩
  · obtain ⟨htrace, hafter⟩ := Visit.trace_filter h (rfl : b.module.function? id = _)
    exact ⟨htrace.symm, hafter.symm⟩
  · have hopen : Visit.AllOpen ws b := by
      rw [Visit.allOpen_iff] at h ⊢
      exact fun w hw => h w (Visit.mem_of_filter_eq hws hw)
    have hparts := fun id => Visit.trace_filter h (rfl : b.module.function? id = _)
    have hparts' := fun id => Visit.trace_filter hopen (rfl : b.module.function? id = _)
    refine ⟨fun id => ?_, Module.ext_function? ?_ fun id => ?_⟩
    · rw [(hparts id).1, (hparts' id).1, hws id]
    · rw [Visit.name_after h, Visit.name_after hopen]
    · rw [(hparts id).2, (hparts' id).2, hws id]

def twoFunctions : Builder :=
  Step.runAll [.addFunction "f" .i32 [], .addFunction "g" .void [], .addBlock ⟨0⟩ "entry",
    .addBlock ⟨1⟩ "entry"] (.ofModule (.empty "m"))

/-- The first one is filled behind its end, and then from its start. A storage of no type and a
return in front of an instruction are refused. -/
def fillFirst : List Visit :=
  [⟨true, ⟨⟨0⟩, 0⟩, .stop, [.const .i32 (.int 1), .alloca .void], by simp [Step.Stays]⟩,
    ⟨false, ⟨⟨0⟩, 0⟩, .start, [.drawName, .add .retVoid, .alloca .i8], by simp [Step.Stays]⟩]

/-- The second one is ended at once, and refuses a storage whose name is drawn already. -/
def fillSecond : List Visit :=
  [⟨false, ⟨⟨1⟩, 0⟩, .stop, [.drawName, .ret none, .alloca .i8], by simp [Step.Stays]⟩]

theorem functions_isolated_byTurns :
    Visit.AllOpen (fillFirst.take 1 ++ fillSecond ++ fillFirst.drop 1) twoFunctions ∧
    Visit.trace fillFirst twoFunctions =
      (Visit.trace (fillFirst.take 1 ++ fillSecond ++ fillFirst.drop 1) twoFunctions).filter
        (fun r => r.1.isIn ⟨0⟩) ∧
    (Visit.after (fillSecond ++ fillFirst) twoFunctions).module =
      (Visit.after (fillFirst.take 1 ++ fillSecond ++ fillFirst.drop 1) twoFunctions).module := by
  have hopen : Visit.AllOpen (fillFirst.take 1 ++ fillSecond ++ fillFirst.drop 1) twoFunctions :=
    ⟨rfl, rfl, rfl, trivial⟩
  obtain ⟨hparts, horders⟩ := functions_isolated twoFunctions hopen
  refine ⟨hopen, (hparts ⟨0⟩).1, (horders (fillSecond ++ fillFirst) fun id => ?_).2⟩
  by_cases hid : (⟨0⟩ : FuncId) = id
  · subst hid
    rfl
  · simp [fillFirst, fillSecond, Visit.isIn, List.filter_cons, hid]

end FrontEnd.IR
