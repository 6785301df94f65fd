import FrontEnd.Proofs.BareTypes
import FrontEnd.Proofs.Scanning
import Mathlib.Logic.Function.Iterate

/-! What the text of a type tells about it. The star of a pointer stands behind the text of what it
points to, and the text of a function type ends with that of the type it returns. So a star behind
a function type is read as a star of what the function returns, and a pointer to a function looks
like a function that returns a pointer. Besides that, and besides the fields of structs with a name,
the text tells everything: it determines the type with all stars moved to where they are read
(`Ty.shown`). -/

namespace FrontEnd.IR.Ty

open FrontEnd.Segment

/-- The type that a star behind a type makes of it, as it is read. -/
def starred : Ty → Ty
  | fn r ps => fn (starred r) ps
  | t => ptr t

mutual

/-- The type as its text shows it: every star where it is read, and no fields of structs with a
name. -/
def shown : Ty → Ty
  | ptr t => starred (shown t)
  | fn r ps => fn (shown r) (shownAll ps)
  | struct (some name) _ => struct (some name) []
  | struct none fs => struct none (shownAll fs)
  | t => t

def shownAll : List Ty → List Ty
  | [] => []
  | t :: ts => shown t :: shownAll ts

end

mutual

/-- The names of structs that are shown have only letters, digits and underscores in them. -/
def NamesPlain : Ty → Prop
  | ptr t => NamesPlain t
  | fn r ps => NamesPlain r ∧ AllNamesPlain ps
  | struct (some name) _ => ∀ c ∈ name.toList, isWordPart c = true
  | struct none fs => AllNamesPlain fs
  | _ => True

def AllNamesPlain : List Ty → Prop
  | [] => True
  | t :: ts => NamesPlain t ∧ AllNamesPlain ts

end

theorem shownAll_eq_map (ts : List Ty) : shownAll ts = ts.map shown := by
  induction ts with
  | nil => rfl
  | cons t ts ih => rw [shownAll, ih, List.map_cons]

theorem allNamesPlain_iff {ts : List Ty} : AllNamesPlain ts ↔ ∀ t ∈ ts, t.NamesPlain := by
  induction ts with
  | nil => simp [AllNamesPlain]
  | cons t ts ih => rw [AllNamesPlain, ih, List.forall_mem_cons]

/-! The text of a type that is shown is the text of the type. -/

theorem text_starred (t : Ty) : t.starred.text = t.text ++ "*" := by
  induction t with
  | fn r ps ih _ => simp only [starred, text, ih, String.append_assoc]
  | _ => rfl

theorem texts_shownAll {ts : List Ty} (h : ∀ t ∈ ts, t.shown.text = t.text) :
    texts (shownAll ts) = texts ts := by
  rw [texts_eq_map, texts_eq_map, shownAll_eq_map, List.map_map]
  exact List.map_congr_left h

theorem text_shown (t : Ty) : t.shown.text = t.text := by
  induction t with
  | ptr t ih => rw [shown, text_starred, ih, text]
  | fn r ps ihr ihps => rw [shown, text, text, ihr, texts_shownAll ihps]
  | struct name fs ih =>
    cases name with
    | none => rw [shown, text, text, texts_shownAll ih]
    | some name => rfl
  | _ => rfl

/-! A text is read from the left: its first characters say what kind of type it is of, as soon as
that is no pointer. -/

def chars (t : Ty) : List Char :=
  t.text.toList

def moreChars : List Ty → List Char
  | [] => []
  | t :: ts => ',' :: ' ' :: (t.chars ++ moreChars ts)

def listChars : List Ty → List Char
  | [] => []
  | t :: ts => t.chars ++ moreChars ts

theorem toList_intercalate_texts (ts : List Ty) :
    (", ".intercalate (texts ts)).toList = listChars ts := by
  induction ts with
  | nil => rfl
  | cons t ts ih =>
    cases ts with
    | nil => simp [texts, listChars, moreChars, chars]
    | cons u ts =>
      rw [texts, texts, String.intercalate_cons_cons, ← texts, String.toList_append,
        String.toList_append, ih]
      simp [listChars, moreChars, chars]

theorem chars_ptr (t : Ty) : (ptr t).chars = t.chars ++ ['*'] := by
  simp [chars, text]

inductive Lead where
  /-- The text starts with one of the types that are a single word. -/
  | word (t : Ty)
  | fn | named | fields

def lead? : List Char → Option (Lead × List Char)
  | 'v' :: 'o' :: 'i' :: 'd' :: cs => some (.word void, cs)
  | 'b' :: 'o' :: 'o' :: 'l' :: cs => some (.word bool, cs)
  | 'i' :: '8' :: cs => some (.word i8, cs)
  | 'i' :: '1' :: '6' :: cs => some (.word i16, cs)
  | 'i' :: '3' :: '2' :: cs => some (.word i32, cs)
  | 'i' :: '6' :: '4' :: cs => some (.word i64, cs)
  | 'f' :: '3' :: '2' :: cs => some (.word f32, cs)
  | 'f' :: '6' :: '4' :: cs => some (.word f64, cs)
  | 'f' :: 'n' :: '(' :: cs => some (.fn, cs)
  | '%' :: cs => some (.named, cs)
  | '\x7b' :: ' ' :: cs => some (.fields, cs)
  | _ => none

/-- The kind of a type that is no pointer. -/
def lead : Ty → Lead
  | fn _ _ => .fn
  | struct (some _) _ => .named
  | struct none _ => .fields
  | t => .word t

/-- What follows the first characters of a type that is no pointer. -/
def body : Ty → List Char
  | fn r ps => listChars ps ++ (')' :: ' ' :: '-' :: '>' :: ' ' :: r.chars)
  | struct (some name) _ => name.toList
  | struct none fs => listChars fs ++ [' ', '\x7d']
  | _ => []

theorem lead?_chars {t : Ty} (ht : t.pointee? = none) (rest : List Char) :
    lead? (t.chars ++ rest) = some (t.lead, t.body ++ rest) := by
  cases t with
  | ptr t => cases ht
  | fn r ps => simp [chars, text, lead?, lead, body, ← toList_intercalate_texts]
  | struct name fs =>
    cases name with
    | none => simp [chars, text, lead?, lead, body, ← toList_intercalate_texts]
    | some name => simp [chars, text, lead?, lead, body]
  | _ => rfl

theorem lead_unique {t u : Ty} (ht : t.pointee? = none) (hu : u.pointee? = none)
    {rest rest' : List Char} (h : t.chars ++ rest = u.chars ++ rest') :
    t.lead = u.lead ∧ t.body ++ rest = u.body ++ rest' := by
  have hlead := (lead?_chars ht rest).symm.trans (h ▸ lead?_chars hu rest')
  exact Prod.mk.inj (Option.some.inj hlead)

theorem eq_of_lead {t u : Ty} (h : u.lead = .word t) : u = t := by
  cases u with
  | fn r ps => cases h
  | struct name fs => cases name <;> cases h
  | _ =>
    cases h
    rfl

/-! Pointers are stars behind a type that is no pointer. -/

def stars (n : Nat) : List Char :=
  List.replicate n '*'

theorem starred_iterate_fn (n : Nat) (r : Ty) (ps : List Ty) :
    starred^[n] (fn r ps) = fn (starred^[n] r) ps := by
  induction n generalizing r with
  | zero => rfl
  | succ n ih => rw [Function.iterate_succ_apply, starred, ih, Function.iterate_succ_apply]

theorem exists_root (t : Ty) : ∃ (root : Ty) (n : Nat), root.pointee? = none ∧
    t.chars = root.chars ++ stars n ∧ t.shown = starred^[n] root.shown ∧
    (t.NamesPlain → root.NamesPlain) := by
  induction t with
  | ptr t ih =>
    obtain ⟨root, n, hroot, hchars, hshown, hplain⟩ := ih
    refine ⟨root, n + 1, hroot, ?_, ?_, hplain⟩
    · rw [chars_ptr, hchars, stars, stars, List.append_assoc, List.replicate_succ']
    · rw [shown, hshown, Function.iterate_succ_apply']
  | _ => exact ⟨_, 0, rfl, (List.append_nil _).symm, rfl, id⟩

/-- What can follow a type inside another one: a comma, a parenthesis or a blank. -/
def Ends (rest : List Char) : Prop :=
  ∀ c ∈ rest.head?, c = ',' ∨ c = ')' ∨ c = ' '

/-- No name goes on with stars and what follows them. -/
theorem not_isWordPart_of_ends {rest : List Char} (h : Ends rest) (n : Nat) :
    ∀ c ∈ (stars n ++ rest).head?, isWordPart c = false := by
  intro c hc
  cases n with
  | zero => obtain rfl | rfl | rfl := h c hc <;> decide
  | succ n =>
    cases hc
    decide

theorem stars_unique {rest rest' : List Char} (h : Ends rest) (h' : Ends rest') {n m : Nat}
    (heq : stars n ++ rest = stars m ++ rest') : n = m ∧ rest = rest' := by
  have hrun : ∀ (n : Nat) {r : List Char}, Ends r → (stars n ++ r).takeWhile (· = '*') = stars n ∧
      (stars n ++ r).dropWhile (· = '*') = r := by
    intro n r hr
    refine takeWhile_run (fun c hc => by simpa using List.eq_of_mem_replicate hc) fun c hc => ?_
    obtain rfl | rfl | rfl := hr c hc <;> decide
  obtain ⟨htake, hdrop⟩ := hrun n h
  obtain ⟨htake', hdrop'⟩ := hrun m h'
  rw [heq] at htake hdrop
  refine ⟨?_, hdrop.symm.trans hdrop'⟩
  simpa [stars] using congrArg List.length (htake.symm.trans htake')

/-- Whatever follows, the text of the type is that of types that are shown alike only. -/
def Unique (t : Ty) : Prop :=
  ∀ {u : Ty} {n m : Nat} {rest rest' : List Char}, u.NamesPlain → Ends rest → Ends rest' →
    t.chars ++ (stars n ++ rest) = u.chars ++ (stars m ++ rest') →
    starred^[n] t.shown = starred^[m] u.shown ∧ rest = rest'

section Items

variable {c : Char} {rest rest' : List Char}

theorem chars_ne_close (hc : c = ')' ∨ c = ' ') (t : Ty) : t.chars ++ rest ≠ c :: rest' := by
  intro h
  obtain ⟨root, n, hroot, hchars, -⟩ := exists_root t
  have hlead := lead?_chars hroot (stars n ++ rest)
  rw [← List.append_assoc, ← hchars, h] at hlead
  obtain rfl | rfl := hc <;> cases hlead

theorem ends_moreChars (hc : c = ')' ∨ c = ' ') (ts : List Ty) :
    Ends (moreChars ts ++ c :: rest) := by
  intro d hd
  cases ts with
  | nil =>
    cases hd
    exact .inr hc
  | cons t ts =>
    cases hd
    exact .inl rfl

theorem more_unique (hc : c = ')' ∨ c = ' ') {ts us : List Ty} (ht : ∀ t ∈ ts, Unique t)
    (hu : AllNamesPlain us) (h : moreChars ts ++ c :: rest = moreChars us ++ c :: rest') :
    shownAll ts = shownAll us ∧ rest = rest' := by
  have hcomma : c ≠ ',' := by obtain rfl | rfl := hc <;> decide
  induction ts generalizing us with
  | nil =>
    cases us with
    | nil => exact ⟨rfl, (List.cons.inj h).2⟩
    | cons u us => exact absurd (List.cons.inj h).1 hcomma
  | cons t ts ih =>
    obtain ⟨hfirst, hmore⟩ := List.forall_mem_cons.1 ht
    cases us with
    | nil => exact absurd (List.cons.inj h).1.symm hcomma
    | cons u us =>
      simp only [moreChars, List.cons_append, List.append_assoc, List.cons.injEq, true_and] at h
      obtain ⟨hshown, hrest⟩ := hfirst (n := 0) (m := 0) hu.1 (ends_moreChars hc ts)
        (ends_moreChars hc us) h
      obtain ⟨hall, hend⟩ := ih hmore hu.2 hrest
      exact ⟨congrArg₂ List.cons hshown hall, hend⟩

/-- A list in brackets is that of lists that are shown alike only. -/
theorem list_unique (hc : c = ')' ∨ c = ' ') {ts us : List Ty} (ht : ∀ t ∈ ts, Unique t)
    (hu : AllNamesPlain us) (h : listChars ts ++ c :: rest = listChars us ++ c :: rest') :
    shownAll ts = shownAll us ∧ rest = rest' := by
  cases ts with
  | nil =>
    cases us with
    | nil => exact ⟨rfl, (List.cons.inj h).2⟩
    | cons u us =>
      rw [listChars, listChars, List.append_assoc] at h
      exact absurd h.symm (chars_ne_close hc u)
  | cons t ts =>
    obtain ⟨hfirst, hmore⟩ := List.forall_mem_cons.1 ht
    cases us with
    | nil =>
      rw [listChars, listChars, List.append_assoc] at h
      exact absurd h (chars_ne_close hc t)
    | cons u us =>
      rw [listChars, listChars, List.append_assoc, List.append_assoc] at h
      obtain ⟨hshown, hrest⟩ := hfirst (n := 0) (m := 0) hu.1 (ends_moreChars hc ts)
        (ends_moreChars hc us) h
      obtain ⟨hall, hend⟩ := more_unique hc hmore hu.2 hrest
      exact ⟨congrArg₂ List.cons hshown hall, hend⟩

end Items

/-- For a type that is no pointer, only types of its kind have to be looked at. -/
theorem unique_of_lead {t : Ty} (ht : t.pointee? = none)
    (h : ∀ {u : Ty} {n m : Nat} {rest rest' : List Char}, u.NamesPlain → Ends rest → Ends rest' →
      t.lead = u.lead → t.body ++ (stars n ++ rest) = u.body ++ (stars m ++ rest') →
      starred^[n] t.shown = starred^[m] u.shown ∧ rest = rest') : Unique t := by
  intro u n m rest rest' hu he he' heq
  obtain ⟨root, k, hroot, hchars, hshown, hplain⟩ := exists_root u
  have hstars : u.chars ++ (stars m ++ rest') = root.chars ++ (stars (m + k) ++ rest') := by
    rw [hchars, stars, stars, stars, Nat.add_comm, ← List.replicate_append_replicate]
    simp only [List.append_assoc]
  obtain ⟨hlead, hbody⟩ := lead_unique ht hroot (heq.trans hstars)
  rw [hshown, ← Function.iterate_add_apply]
  exact h (hplain hu) he he' hlead hbody

theorem unique_fn {r : Ty} {ps : List Ty} (hr : Unique r) (hps : ∀ t ∈ ps, Unique t) :
    Unique (fn r ps) := by
  refine unique_of_lead rfl fun {u n m rest rest'} hu he he' hlead h => ?_
  cases u with
  | fn s qs =>
    simp only [body, List.append_assoc, List.cons_append] at h
    rw [NamesPlain] at hu
    obtain ⟨hall, htail⟩ := list_unique (.inl rfl) hps hu.2 h
    simp only [List.cons.injEq, true_and] at htail
    obtain ⟨hshown, hend⟩ := hr hu.1 he he' htail
    rw [shown, shown, starred_iterate_fn, starred_iterate_fn, hshown, hall]
    exact ⟨rfl, hend⟩
  | struct name fs => cases name <;> cases hlead
  | _ => cases hlead

theorem unique_named {name : String} (hname : ∀ c ∈ name.toList, isWordPart c = true)
    (fs : List Ty) : Unique (struct (some name) fs) := by
  refine unique_of_lead rfl fun {u n m rest rest'} hu he he' hlead h => ?_
  cases u with
  | struct name' gs =>
    cases name' with
    | none => cases hlead
    | some name' =>
      rw [NamesPlain] at hu
      obtain ⟨htake, hdrop⟩ := takeWhile_run hname (not_isWordPart_of_ends he n)
      obtain ⟨htake', hdrop'⟩ := takeWhile_run hu (not_isWordPart_of_ends he' m)
      simp only [body] at h
      rw [h] at htake hdrop
      obtain rfl : name = name' := String.toList_injective (htake.symm.trans htake')
      obtain ⟨rfl, hend⟩ := stars_unique he he' (hdrop.symm.trans hdrop')
      exact ⟨rfl, hend⟩
  | _ => cases hlead

theorem unique_fields {fs : List Ty} (hfs : ∀ t ∈ fs, Unique t) : Unique (struct none fs) := by
  refine unique_of_lead rfl fun {u n m rest rest'} hu he he' hlead h => ?_
  cases u with
  | struct name gs =>
    cases name with
    | some name => cases hlead
    | none =>
      simp only [body, List.append_assoc, List.cons_append, List.nil_append] at h
      rw [NamesPlain] at hu
      obtain ⟨hall, htail⟩ := list_unique (.inr rfl) hfs hu h
      obtain ⟨rfl, hend⟩ := stars_unique he he' (List.cons.inj htail).2
      rw [shown, shown, hall]
      exact ⟨rfl, hend⟩
  | _ => cases hlead

theorem unique_word {t : Ty} (ht : t.pointee? = none) (hlead : t.lead = .word t)
    (hbody : t.body = []) : Unique t := by
  refine unique_of_lead ht fun {u n m rest rest'} hu he he' hl h => ?_
  obtain rfl := eq_of_lead (hl.symm.trans hlead)
  rw [hbody] at h
  obtain ⟨rfl, hend⟩ := stars_unique he he' h
  exact ⟨rfl, hend⟩

theorem unique_of_namesPlain {t : Ty} (ht : t.NamesPlain) : Unique t := by
  induction t with
  | ptr t ih =>
    intro u n m rest rest' hu he he' h
    have hstar : (ptr t).chars ++ (stars n ++ rest) = t.chars ++ (stars (n + 1) ++ rest) := by
      rw [chars_ptr, List.append_assoc]
      rfl
    exact ih ht hu he he' (hstar.symm.trans h)
  | fn r ps ihr ihps =>
    rw [NamesPlain, allNamesPlain_iff] at ht
    exact unique_fn (ihr ht.1) fun t hmem => ihps t hmem (ht.2 t hmem)
  | struct name fs ih =>
    cases name with
    | some name => exact unique_named (by rwa [NamesPlain] at ht) fs
    | none =>
      rw [NamesPlain, allNamesPlain_iff] at ht
      exact unique_fields fun t hmem => ih t hmem (ht t hmem)
  | _ => exact unique_word rfl rfl rfl

/-! Where nothing points to a function, all stars are read where they belong. -/

mutual

/-- No pointer that is shown points to a function. -/
def NoFnPtr : Ty → Prop
  | ptr t => (∀ r ps, t ≠ fn r ps) ∧ NoFnPtr t
  | fn r ps => NoFnPtr r ∧ AllNoFnPtr ps
  | struct name fs => name = none → AllNoFnPtr fs
  | _ => True

def AllNoFnPtr : List Ty → Prop
  | [] => True
  | t :: ts => NoFnPtr t ∧ AllNoFnPtr ts

end

theorem shownAll_eq_bareAll {ts : List Ty} (h : ∀ t ∈ ts, t.NoFnPtr → t.shown = t.bare)
    (hts : AllNoFnPtr ts) : shownAll ts = bareAll ts := by
  induction ts with
  | nil => rfl
  | cons t ts ih =>
    obtain ⟨hfirst, hmore⟩ := List.forall_mem_cons.1 h
    rw [shownAll, bareAll, hfirst hts.1, ih hmore hts.2]

theorem shown_eq_bare {t : Ty} (h : t.NoFnPtr) : t.shown = t.bare := by
  induction t with
  | ptr t ih =>
    rw [NoFnPtr] at h
    rw [shown, bare, ih h.2]
    cases t with
    | fn r ps => exact absurd rfl (h.1 r ps)
    | _ => rfl
  | fn r ps ihr ihps =>
    rw [NoFnPtr] at h
    rw [shown, bare, ihr h.1, shownAll_eq_bareAll ihps h.2]
  | struct name fs ih =>
    cases name with
    | some name => rfl
    | none =>
      rw [NoFnPtr] at h
      rw [shown, bare, shownAll_eq_bareAll ih (h rfl)]
      rfl
  | _ => rfl

/-- The text of a type tells just what the type is with every star where it is read. So among types
in which nothing points to a function, those with one text are the same. -/
theorem text_eq_iff_shown {t u : Ty} (ht : t.NamesPlain) (hu : u.NamesPlain) :
    (t.text = u.text ↔ t.shown = u.shown) ∧
    (t.NoFnPtr → u.NoFnPtr → (t.text = u.text ↔ t.same u = true)) := by
  have hshown : t.text = u.text ↔ t.shown = u.shown := by
    constructor
    · intro h
      have hend : Ends [] := by simp [Ends]
      have hchars : t.chars ++ (stars 0 ++ []) = u.chars ++ (stars 0 ++ []) := by
        rw [chars, chars, h]
      exact (unique_of_namesPlain ht hu hend hend hchars).1
    · intro h
      rw [← t.text_shown, h, u.text_shown]
  refine ⟨hshown, fun ht hu => ?_⟩
  rw [hshown, shown_eq_bare ht, shown_eq_bare hu, same_iff_bare]

/-- A function of a point and a number whose result has stars in it and behind it. -/
def manyStars (fields : List Ty) : Ty :=
  fn (ptr (ptr (struct none [ptr i8, fn (ptr bool) []])))
    [ptr (struct (some "Point_2") fields), i64]

theorem text_eq_iff_shown_manyStars :
    (manyStars [f32]).NamesPlain ∧ (manyStars []).NamesPlain ∧
    (manyStars [f32]).NoFnPtr ∧ (manyStars []).NoFnPtr ∧
    (manyStars [f32]).text = "fn(%Point_2*, i64) -> \x7b i8*, fn() -> bool* \x7d**" ∧
    ((manyStars [f32]).text = (manyStars []).text ↔
      (manyStars [f32]).same (manyStars []) = true) := by
  have hname : ∀ c ∈ "Point_2".toList, isWordPart c = true := List.all_eq_true.1 (by decide)
  have hplain : ∀ fields, (manyStars fields).NamesPlain := by
    intro fields
    simp only [manyStars, NamesPlain, AllNamesPlain, and_true, true_and]
    exact hname
  have hnone : ∀ fields, (manyStars fields).NoFnPtr := by
    intro fields
    simp [manyStars, NoFnPtr, AllNoFnPtr]
  exact ⟨hplain _, hplain _, hnone _, hnone _, by decide +kernel,
    (text_eq_iff_shown (hplain _) (hplain _)).2 (hnone _) (hnone _)⟩

/-- A pointer to a function and a function that returns a pointer have one text, and a message that
tells them apart names it twice. -/
theorem not_same_of_text_fnPtr :
    (ptr (fn i32 [])).NamesPlain ∧ (fn (ptr i32) []).NamesPlain ∧
    (ptr (fn i32 [])).text = (fn (ptr i32) []).text ∧
    (ptr (fn i32 [])).same (fn (ptr i32) []) = false ∧
    (Error.returnTypeMismatch "f" ⟨"x", ptr (fn i32 [])⟩ (fn (ptr i32) [])).message =
      "value %x cannot be returned by function `f` " ++
        "as it is of type fn() -> i32*, not fn() -> i32*" := by
  refine ⟨?_, ?_, by decide +kernel, rfl, by decide +kernel⟩
  · simp only [NamesPlain, AllNamesPlain, and_true]
  · simp only [NamesPlain, AllNamesPlain, and_true]

end FrontEnd.IR.Ty
