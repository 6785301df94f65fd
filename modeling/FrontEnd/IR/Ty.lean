/-! Types of the intermediate representation, and when two of them are the same: structs with a name
by that name alone, structs without one by their fields, all else part by part. -/

namespace FrontEnd.IR

inductive Ty where
  | void | bool | i8 | i16 | i32 | i64 | f32 | f64
  | ptr (pointee : Ty)
  | fn (returns : Ty) (params : List Ty)
  | struct (name : Option String) (fields : List Ty)

namespace Ty

/-- What holds of a type when it holds of its parts holds of every type. -/
@[induction_eliminator]
theorem ind {motive : Ty → Prop} (void : motive void) (bool : motive bool) (i8 : motive i8)
    (i16 : motive i16) (i32 : motive i32) (i64 : motive i64) (f32 : motive f32) (f64 : motive f64)
    (ptr : ∀ t, motive t → motive (ptr t))
    (fn : ∀ r ps, motive r → (∀ t ∈ ps, motive t) → motive (fn r ps))
    (struct : ∀ name fs, (∀ t ∈ fs, motive t) → motive (struct name fs)) : ∀ t, motive t :=
  @Ty.rec motive (fun ts => ∀ t ∈ ts, motive t) void bool i8 i16 i32 i64 f32 f64 ptr fn struct
    (by simp) (fun _ _ h hs => by simpa using ⟨h, hs⟩)

mutual

def same : Ty → Ty → Bool
  | void, void => true
  | bool, bool => true
  | i8, i8 => true
  | i16, i16 => true
  | i32, i32 => true
  | i64, i64 => true
  | f32, f32 => true
  | f64, f64 => true
  | ptr a, ptr b => same a b
  | fn r ps, fn s qs => same r s && sameAll ps qs
  | struct (some m) _, struct (some n) _ => m = n
  | struct none fs, struct none gs => sameAll fs gs
  | _, _ => false

def sameAll : List Ty → List Ty → Bool
  | [], [] => true
  | a :: as, b :: bs => same a b && sameAll as bs
  | _, _ => false

end

theorem sameAll_self {ts : List Ty} (h : ∀ t ∈ ts, t.same t = true) : sameAll ts ts = true := by
  induction ts with
  | nil => rfl
  | cons t ts ih =>
    rw [sameAll, h t List.mem_cons_self, ih fun u hu => h u (List.mem_cons_of_mem t hu)]
    rfl

@[simp]
theorem same_self (t : Ty) : t.same t = true := by
  induction t with
  | ptr t ih => rw [same, ih]
  | fn r ps ihr ihps =>
    rw [same, ihr, sameAll_self ihps]
    rfl
  | struct name fs ih =>
    cases name with
    | none => rw [same, sameAll_self ih]
    | some name => simp [same]
  | _ => rfl

def isVoid : Ty → Bool
  | void => true
  | _ => false

def isInt : Ty → Bool
  | i8 | i16 | i32 | i64 => true
  | _ => false

def isFloat : Ty → Bool
  | f32 | f64 => true
  | _ => false

def pointee? : Ty → Option Ty
  | ptr t => some t
  | _ => none

theorem pointee?_eq_some_iff {t u : Ty} : t.pointee? = some u ↔ t = ptr u := by
  cases t <;> simp [pointee?]

mutual

def text : Ty → String
  | void => "void"
  | bool => "bool"
  | i8 => "i8"
  | i16 => "i16"
  | i32 => "i32"
  | i64 => "i64"
  | f32 => "f32"
  | f64 => "f64"
  | ptr t => text t ++ "*"
  | fn r ps => "fn(" ++ ", ".intercalate (texts ps) ++ ") -> " ++ text r
  | struct (some name) _ => "%" ++ name
  | struct none fs => "\x7b " ++ ", ".intercalate (texts fs) ++ " \x7d"

def texts : List Ty → List String
  | [] => []
  | t :: ts => text t :: texts ts

end

theorem texts_eq_map (ts : List Ty) : texts ts = ts.map text := by
  induction ts with
  | nil => rfl
  | cons t ts ih => rw [texts, ih, List.map_cons]

end Ty

end FrontEnd.IR
