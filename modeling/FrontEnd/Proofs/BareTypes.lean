import FrontEnd.IR.HandOff
import FrontEnd.Proofs.Construction
import Mathlib.Data.List.InsertIdx

/-! Types without the fields of structs with a name. Two types are the same just if this leaves the
same of them (`Ty.same_iff_bare`). Leaving such fields out everywhere, in values, instructions,
blocks and functions, changes nothing about what a module looks up, takes in or shows. -/

namespace FrontEnd.IR

namespace Ty

mutual

/-- The type without the fields of its structs that have a name. -/
def bare : Ty → Ty
  | void => void
  | bool => bool
  | i8 => i8
  | i16 => i16
  | i32 => i32
  | i64 => i64
  | f32 => f32
  | f64 => f64
  | ptr t => ptr (bare t)
  | fn r ps => fn (bare r) (bareAll ps)
  | struct name fs => struct name (if name.isSome then [] else bareAll fs)

def bareAll : List Ty → List Ty
  | [] => []
  | t :: ts => bare t :: bareAll ts

end

theorem bareAll_eq_map (ts : List Ty) : bareAll ts = ts.map bare := by
  induction ts with
  | nil => rfl
  | cons t ts ih => rw [bareAll, ih, List.map_cons]

theorem sameAll_iff_bareAll {ts us : List Ty}
    (h : ∀ t ∈ ts, ∀ u, t.same u = true ↔ t.bare = u.bare) :
    sameAll ts us = true ↔ bareAll ts = bareAll us := by
  induction ts generalizing us with
  | nil => cases us <;> simp [sameAll, bareAll]
  | cons t ts ih =>
    obtain ⟨ht, hts⟩ := List.forall_mem_cons.1 h
    cases us with
    | nil => simp [sameAll, bareAll]
    | cons u us => simp [sameAll, bareAll, ht u, ih hts]

/-- Types are the same just if they are equal without the fields of structs with a name. -/
theorem same_iff_bare {t u : Ty} : t.same u = true ↔ t.bare = u.bare := by
  induction t generalizing u with
  | ptr t ih => cases u <;> simp [same, bare, ih]
  | fn r ps ihr ihps =>
    cases u <;> simp [same, bare, ihr, sameAll_iff_bareAll fun t ht u => ihps t ht]
  | struct name fs ih =>
    cases u with
    | struct name' gs =>
      cases name <;> cases name' <;>
        simp [same, bare, sameAll_iff_bareAll fun t ht u => ih t ht]
    | _ => simp [same, bare]
  | _ => cases u <;> simp [same, bare]

theorem texts_bareAll {ts : List Ty} (h : ∀ t ∈ ts, t.bare.text = t.text) :
    texts (bareAll ts) = texts ts := by
  rw [texts_eq_map, texts_eq_map, bareAll_eq_map, List.map_map]
  exact List.map_congr_left h

@[simp]
theorem text_bare (t : Ty) : t.bare.text = t.text := by
  induction t with
  | ptr t ih => rw [bare, text, text, ih]
  | fn r ps ihr ihps => rw [bare, text, text, ihr, texts_bareAll ihps]
  | struct name fs ih =>
    cases name with
    | none => simp [bare, text, texts_bareAll ih]
    | some name => simp [bare, text]
  | _ => rfl

@[simp]
theorem isVoid_bare (t : Ty) : t.bare.isVoid = t.isVoid := by
  cases t <;> rfl

@[simp]
theorem isInt_bare (t : Ty) : t.bare.isInt = t.isInt := by
  cases t <;> rfl

@[simp]
theorem isFloat_bare (t : Ty) : t.bare.isFloat = t.isFloat := by
  cases t <;> rfl

@[simp]
theorem pointee?_bare (t : Ty) : t.bare.pointee? = t.pointee?.map bare := by
  cases t <;> rfl

@[simp]
theorem bare_bare (t : Ty) : t.bare.bare = t.bare := by
  induction t with
  | ptr t ih => rw [bare, bare, ih]
  | fn r ps ihr ihps =>
    rw [bare, bare, ihr, bareAll_eq_map, bareAll_eq_map, List.map_map]
    congr 1
    exact List.map_congr_left ihps
  | struct name fs ih =>
    cases name with
    | none =>
      simp only [bare, bareAll_eq_map, Option.isSome_none, Bool.false_eq_true, if_false,
        List.map_map]
      congr 1
      exact List.map_congr_left ih
    | some name => rfl
  | _ => rfl

/-- Whether types are the same can be seen without the fields of structs with a name. -/
@[simp]
theorem same_bare (t u : Ty) : t.bare.same u.bare = t.same u := by
  rw [Bool.eq_iff_iff, same_iff_bare, same_iff_bare, bare_bare, bare_bare]

end Ty

@[simp]
theorem Const.fits_bare (c : Const) (t : Ty) : c.fits t.bare = c.fits t := by
  cases c <;> cases t <;> rfl

/-! Everything that has types in it, without the fields of structs with a name. -/

def Value.bare (v : Value) : Value :=
  { v with type := v.type.bare }

namespace Instr

def bare : Instr → Instr
  | retVoid => retVoid
  | ret value => ret value.bare
  | alloca result type => alloca result.bare type.bare
  | const result value => const result.bare value
  | load result ptr => load result.bare ptr.bare
  | store value ptr => store value.bare ptr.bare
  | binary result op left right => binary result.bare op left.bare right.bare

@[simp]
theorem isTerminator_bare (i : Instr) : i.bare.isTerminator = i.isTerminator := by
  cases i <;> rfl

@[simp]
theorem text_bare (i : Instr) : i.bare.text = i.text := by
  cases i <;> simp [bare, text, Value.bare, Value.text]

end Instr

def Block.bare (k : Block) : Block :=
  { k with instrs := k.instrs.map Instr.bare }

def Func.bare (f : Func) : Func :=
  { f with returns := f.returns.bare, params := f.params.map Ty.bare,
           blocks := f.blocks.map Block.bare }

def Module.bare (m : Module) : Module :=
  { m with functions := m.functions.map Func.bare }

def Builder.bare (b : Builder) : Builder :=
  { b with module := b.module.bare }

def Error.bare : Error → Error
  | returnTypeMismatch function value expected =>
    returnTypeMismatch function value.bare expected.bare
  | notAPointer value => notAPointer value.bare
  | operandMismatch op left right => operandMismatch op left.bare right.bare
  | constantMismatch value type => constantMismatch value type.bare
  | e => e

@[simp]
theorem Error.message_bare (e : Error) : e.bare.message = e.message := by
  unfold message
  cases e with
  | returnTypeMismatch function value expected =>
    dsimp only [bare, Value.bare, Value.text]
    rw [Ty.text_bare, Ty.text_bare]
  | notAPointer value =>
    dsimp only [bare, Value.bare, Value.text]
    rw [Ty.text_bare]
  | operandMismatch op left right =>
    dsimp only [bare]
    rw [Ty.text_bare, Ty.text_bare]
  | constantMismatch value type =>
    dsimp only [bare]
    rw [Ty.text_bare]
  | _ => rfl

def Answer.bare : Answer → Answer
  | value v => value v.bare
  | a => a

def Step.bare : Step → Step
  | addFunction name returns params => addFunction name returns.bare (params.map Ty.bare)
  | insert block position i => insert block position i.bare
  | add i => add i.bare
  | ret value => ret (value.map Value.bare)
  | alloca type => alloca type.bare
  | const type value => const type.bare value
  | load ptr => load ptr.bare
  | store value ptr => store value.bare ptr.bare
  | binary op left right => binary op left.bare right.bare
  | s => s

/-- What comes of an operation that may be refused, with its result and its error bare. -/
def bareChecked {α : Type} (g : α → α) : Except Error α → Except Error α
  | .ok a => .ok (g a)
  | .error e => .error e.bare

def bareResult {α : Type} (g : α → α) : Except (Failure Error) α → Except (Failure Error) α
  | .ok a => .ok (g a)
  | .error (.error e) => .error (.error e.bare)
  | .error (.violation v) => .error (.violation v)

theorem mapError_bareChecked {α : Type} (g : α → α) (r : Except Error α) :
    (bareChecked g r).mapError .error = bareResult g (r.mapError .error) := by
  cases r <;> rfl

/-- A change of one item goes through a map that the change goes through. -/
theorem map_modify {α β : Type} {f : α → β} {g : α → α} {g' : β → β} (h : ∀ a, f (g a) = g' (f a))
    (as : List α) (n : Nat) : (as.modify n g).map f = (as.map f).modify n g' := by
  induction as generalizing n with
  | nil => cases n <;> rfl
  | cons a as ih =>
    cases n with
    | zero => simp [h]
    | succ n => simp [ih]

namespace Module

variable {m : Module}

theorem function?_bare (id : FuncId) (m : Module) :
    m.bare.function? id = (m.function? id).map Func.bare :=
  List.getElem?_map

theorem block?_bare (id : BlockId) (m : Module) :
    m.bare.block? id = (m.block? id).map Block.bare := by
  simp only [block?, function?_bare]
  cases m.function? id.function with
  | none => rfl
  | some f => exact List.getElem?_map

/-- A change that can be made to bare functions as well. -/
theorem bare_modifyFunction {g g' : Func → Func} (h : ∀ f, (g f).bare = g' f.bare) (id : FuncId) :
    (m.modifyFunction id g).bare = m.bare.modifyFunction id g' := by
  rw [modifyFunction, bare, map_modify h]
  rfl

theorem bare_modifyBlock {g g' : Block → Block} (h : ∀ k, (g k).bare = g' k.bare) (id : BlockId) :
    (m.modifyBlock id g).bare = m.bare.modifyBlock id g' := by
  refine bare_modifyFunction (fun f => ?_) _
  rw [Func.bare, map_modify h]
  rfl

theorem bare_addFunction (name : String) (returns : Ty) (params : List Ty) (m : Module) :
    (m.bare.addFunction name returns.bare (params.map Ty.bare)).1 =
        (m.addFunction name returns params).1 ∧
      (m.bare.addFunction name returns.bare (params.map Ty.bare)).2 =
        (m.addFunction name returns params).2.bare := by
  simp [addFunction, bare, Func.bare]

theorem addBlock_bare (id : FuncId) (name : String) (m : Module) :
    m.bare.addBlock id name = bareChecked (fun r => (r.1, r.2.bare)) (m.addBlock id name) := by
  rw [addBlock, addBlock, function?_bare]
  cases m.function? id with
  | none => rfl
  | some f =>
    have hm : (m.modifyFunction id fun f =>
        { f with blocks := f.blocks ++ [⟨name, id, [], false⟩] }).bare =
        m.bare.modifyFunction id fun f =>
          { f with blocks := f.blocks ++ [⟨name, id, [], false⟩] } :=
      bare_modifyFunction (fun f => by simp [Func.bare, Block.bare]) id
    simp [bareChecked, hm, Func.bare]

theorem drawName_bare (id : FuncId) (m : Module) :
    m.bare.drawName id = bareChecked (fun r => (r.1, r.2.bare)) (m.drawName id) := by
  rw [drawName, drawName, function?_bare]
  cases m.function? id with
  | none => rfl
  | some f =>
    have hm : (m.modifyFunction id fun f => { f with nextName := f.nextName + 1 }).bare =
        m.bare.modifyFunction id fun f => { f with nextName := f.nextName + 1 } := by
      apply bare_modifyFunction
      exact fun f => rfl
    simp [bareChecked, hm, Func.bare]

theorem locate_bare (id : BlockId) (m : Module) :
    m.bare.locate id = bareChecked (fun r => (r.1.bare, r.2.bare)) (m.locate id) := by
  rw [locate, locate, function?_bare]
  cases m.function? id.function with
  | none => rfl
  | some f =>
    simp only [Option.map_some, Func.bare, List.getElem?_map]
    cases f.blocks[id.index]? <;> rfl

theorem insert_bare (id : BlockId) (position : Nat) (i : Instr) (m : Module) :
    m.bare.insert id position i.bare = bareResult bare (m.insert id position i) := by
  rw [insert, insert, locate_bare]
  cases m.locate id with
  | error e => rfl
  | ok r =>
    obtain ⟨f, k⟩ := r
    have hm : (m.modifyBlock id fun b => { b with instrs := b.instrs.insertIdx position i }).bare =
        m.bare.modifyBlock id fun b => { b with instrs := b.instrs.insertIdx position i.bare } :=
      bare_modifyBlock (fun k => by simp [Block.bare, List.map_insertIdx]) id
    simp only [bareChecked, Func.bare, Block.bare, List.length_map]
    split
    · rfl
    · split
      · rfl
      · rw [bareResult, hm]

theorem setReturned_bare (id : BlockId) (returned : Bool) (m : Module) :
    m.bare.setReturned id returned = bareChecked bare (m.setReturned id returned) := by
  rw [setReturned, setReturned, locate_bare]
  cases m.locate id with
  | error e => rfl
  | ok r =>
    obtain ⟨f, k⟩ := r
    have hm : (m.modifyBlock id fun b => { b with hasReturned := returned }).bare =
        m.bare.modifyBlock id fun b => { b with hasReturned := returned } := by
      apply bare_modifyBlock
      exact fun k => rfl
    simp only [bareChecked, Func.bare, Block.bare]
    split
    · rfl
    · simp only [hm]

end Module

/-! What is written of a module and what is said of its blocks is the same for a bare module. -/

namespace Func

theorem blockLines_bare (k : Block) : blockLines k.bare = blockLines k := by
  simp [blockLines, Block.bare, Function.comp_def]

theorem param?_bare (n : Nat) (f : Func) : f.bare.param? n = (f.param? n).map Value.bare := by
  simp [param?, Func.bare, Value.bare, Function.comp_def]

theorem text_bare (f : Func) : f.bare.text = f.text := by
  have hblocks : f.bare.blocks.flatMap blockLines = f.blocks.flatMap blockLines := by
    rw [Func.bare, List.flatMap_map]
    simp only [blockLines_bare]
  have htypes : f.bare.params.map Ty.text = f.params.map Ty.text := by
    simp [Func.bare, Function.comp_def]
  have hparams : ((List.range f.bare.params.length).filterMap f.bare.param?).map
      (fun p => p.text ++ ": " ++ p.type.text) =
      ((List.range f.params.length).filterMap f.param?).map
        fun p => p.text ++ ": " ++ p.type.text := by
    have hlength : f.bare.params.length = f.params.length := List.length_map ..
    simp only [hlength, List.map_filterMap, param?_bare, Option.map_map]
    simp [Function.comp_def, Value.bare, Value.text]
  have hdeclared : f.bare.isDeclaration = f.isDeclaration := List.isEmpty_map ..
  have hreturns : f.bare.returns.text = f.returns.text := f.returns.text_bare
  rw [text, text, hdeclared, htypes, hreturns, hblocks]
  dsimp only
  rw [hparams]
  rfl

end Func

namespace Module

theorem text_bare (m : Module) : m.bare.text = m.text := by
  simp [text, bare, Func.text_bare, Function.comp_def]

theorem openBlock?_bare (m : Module) :
    m.bare.openBlock? = m.openBlock?.map fun r => (r.1.bare, r.2.bare) := by
  rw [openBlock?, openBlock?, bare, List.findSome?_map, List.map_findSome?]
  congr 1
  funext f
  simp only [Function.comp_apply, Func.bare, List.find?_map, Option.map_map]
  rfl

theorem verify_bare (m : Module) : m.bare.verify = m.verify := by
  rw [verify, verify, openBlock?_bare]
  cases m.openBlock? <;> rfl

end Module

end FrontEnd.IR
