import FrontEnd.IR.HandOff
import FrontEnd.Proofs.Construction

/-! How blocks end. In a module that was built through builders a terminator stands only at the end
of its block, and a block counts as returned exactly if it has one. So a module is verified exactly
if all its blocks are complete, and a backend sees no other. -/

namespace FrontEnd.IR

namespace Block

/-- Terminators stand only at the end, and the block counts as returned exactly if one is there. -/
structure EndsOnce (k : Block) : Prop where
  last : ∀ n i, k.instrs[n]? = some i → i.isTerminator = true → n + 1 = k.instrs.length
  flag : k.hasReturned = true ↔ ∃ i, k.instrs.getLast? = some i ∧ i.isTerminator = true

/-- The last instruction is a terminator, and there is no other one. -/
def Complete (k : Block) : Prop :=
  ∃ front t, k.instrs = front ++ [t] ∧ t.isTerminator = true ∧ ∀ i ∈ front, i.isTerminator = false

theorem endsOnce_of_open {k : Block} (hr : k.hasReturned = false)
    (hi : ∀ i ∈ k.instrs, i.isTerminator = false) : k.EndsOnce := by
  refine ⟨?_, ?_⟩
  · intro n i hn ht
    have hf := hi i (List.mem_of_getElem? hn)
    simp [hf] at ht
  · simp only [hr, Bool.false_eq_true, false_iff, not_exists, not_and]
    intro i hl
    simp [hi i (List.mem_of_getLast? hl)]

theorem endsOnce_of_complete {k : Block} (hr : k.hasReturned = true) (hc : k.Complete) :
    k.EndsOnce := by
  obtain ⟨front, t, hk, ht, hf⟩ := hc
  refine ⟨?_, ?_⟩
  · intro n i hn hi
    rw [hk, List.getElem?_append] at hn
    split at hn
    · have := hf i (List.mem_of_getElem? hn)
      simp [this] at hi
    · have hlt := (List.getElem?_eq_some_iff.1 hn).1
      simp only [List.length_singleton] at hlt
      simp only [hk, List.length_append, List.length_singleton]
      omega
  · simp [hr, hk, ht]

theorem EndsOnce.isTerminator_eq_false {k : Block} (h : k.EndsOnce) (hr : k.hasReturned = false) :
    ∀ i ∈ k.instrs, i.isTerminator = false := by
  intro i hi
  obtain ⟨n, hn⟩ := List.mem_iff_getElem?.1 hi
  cases ht : i.isTerminator with
  | false => rfl
  | true =>
    have hlast := h.last n i hn ht
    have hflag : k.hasReturned = true := by
      refine h.flag.2 ⟨i, ?_, ht⟩
      rw [List.getLast?_eq_getElem?, ← hlast, Nat.add_sub_cancel, hn]
    simp [hr] at hflag

theorem EndsOnce.complete {k : Block} (h : k.EndsOnce) (hr : k.hasReturned = true) :
    k.Complete := by
  obtain ⟨t, hl, ht⟩ := h.flag.1 hr
  obtain ⟨front, hk⟩ := List.getLast?_eq_some_iff.1 hl
  refine ⟨front, t, hk, ht, ?_⟩
  intro i hi
  obtain ⟨n, hn⟩ := List.mem_iff_getElem?.1 hi
  have hlt := (List.getElem?_eq_some_iff.1 hn).1
  cases hit : i.isTerminator with
  | false => rfl
  | true =>
    have hat : k.instrs[n]? = some i := by rw [hk, List.getElem?_append_left hlt, hn]
    have hlast := h.last n i hat hit
    simp only [hk, List.length_append, List.length_singleton] at hlast
    omega

theorem EndsOnce.hasReturned_iff {k : Block} (h : k.EndsOnce) :
    k.hasReturned = true ↔ k.Complete := by
  refine ⟨h.complete, ?_⟩
  rintro ⟨front, t, hk, ht, -⟩
  exact h.flag.2 ⟨t, by simp [hk], ht⟩

/-- A builder puts a terminator only behind all other instructions of an open block. -/
theorem EndsOnce.put {f : Func} {k : Block} {i : Instr} {offset : Nat}
    (hp : Placeable i offset f k) (h : k.EndsOnce) : (k.put i offset).EndsOnce := by
  have hopen := h.isTerminator_eq_false hp.opened
  cases hi : i.isTerminator with
  | false =>
    apply endsOnce_of_open
    · simp [Block.put, hp.opened, hi]
    · intro j hj
      rcases (List.mem_insertIdx hp.inside).1 hj with rfl | hj
      · exact hi
      · exact hopen j hj
  | true =>
    apply endsOnce_of_complete
    · simp [Block.put, hi]
    · refine ⟨k.instrs, i, ?_, hi, hopen⟩
      rw [Block.put, hp.atEnd hi, List.insertIdx_length_self]

end Block

theorem endsOnce_of_reached {b : Builder} (h : Reached (fun s => ¬ s.IsDirect) b) :
    b.module.AllBlocks fun _ k => k.EndsOnce := by
  refine h.allBlocks ?_ ?_
  · intro t name id
    exact Block.endsOnce_of_open rfl (by simp)
  · intro f k i offset hp hk
    exact hk.put hp

theorem Module.verify_eq_ok_iff {m : Module} :
    m.verify = .ok () ↔ m.AllBlocks fun _ k => k.hasReturned = true := by
  have hopen : m.openBlock? = none ↔ m.AllBlocks fun _ k => k.hasReturned = true := by
    simp [openBlock?, AllBlocks]
  rw [← hopen]
  unfold verify
  cases m.openBlock? with
  | none => simp
  | some found => simp

theorem handOff_of_verified {σ ε α : Type} (backend : Backend σ ε α) {m : Module}
    (h : m.verify = .ok ()) (s : σ) : handOff backend m s = backend.emit m s := by
  simp [handOff, h]

theorem handOff_of_not_verified {σ ε α : Type} (backend : Backend σ ε α) {m : Module}
    (h : m.verify ≠ .ok ()) (s : σ) : ∃ e, handOff backend m s = .error (backend.reject e) s := by
  unfold handOff
  cases hv : m.verify with
  | error e => exact ⟨e, rfl⟩
  | ok u => exact absurd hv h

/-- However a module was built through builders, its terminators stand only at the ends of blocks,
and the blocks with one are those that count as returned. It is verified exactly if every block is
complete, and only then does a backend see it: otherwise its state stays as it was. -/
theorem blocks_end_of_reached {b : Builder} (h : Reached (fun s => ¬ s.IsDirect) b) :
    (b.module.AllBlocks fun _ k => k.EndsOnce) ∧
    (b.module.verify = .ok () ↔ b.module.AllBlocks fun _ k => k.Complete) ∧
    ∀ {σ ε α : Type} (backend : Backend σ ε α) (s : σ),
      (b.module.AllBlocks (fun _ k => k.Complete) ∧
        handOff backend b.module s = backend.emit b.module s) ∨
      (¬ b.module.AllBlocks (fun _ k => k.Complete) ∧
        ∃ e, handOff backend b.module s = .error (backend.reject e) s) := by
  have hends := endsOnce_of_reached h
  have hverify : b.module.verify = .ok () ↔ b.module.AllBlocks fun _ k => k.Complete := by
    rw [Module.verify_eq_ok_iff]
    constructor
    · intro hr f hf k hk
      exact (hends f hf k hk).complete (hr f hf k hk)
    · intro hc f hf k hk
      exact (hends f hf k hk).hasReturned_iff.2 (hc f hf k hk)
  refine ⟨hends, hverify, ?_⟩
  intro σ ε α backend s
  by_cases hv : b.module.verify = .ok ()
  · exact .inl ⟨hverify.1 hv, handOff_of_verified backend hv s⟩
  · exact .inr ⟨mt hverify.2 hv, handOff_of_not_verified backend hv s⟩

/-- A block that is filled by two builders. A return at its start and one behind its end are refused
on the way. -/
def filledTwice : List Step :=
  [.addFunction "f" .i32 [], .addBlock ⟨0⟩ "entry", .builderAt ⟨⟨0⟩, 0⟩ .stop, .const .i32 (.int 1),
    .moveTo ⟨⟨0⟩, 0⟩ .start, .ret (some ⟨"0", .i32⟩), .newBuilder, .moveTo ⟨⟨0⟩, 0⟩ .stop,
    .ret (some ⟨"0", .i32⟩), .add .retVoid]

theorem blocks_end_filledTwice :
    (∀ s ∈ filledTwice, ¬ s.IsDirect) ∧
    (Step.runAll filledTwice (.ofModule (.empty "m"))).module.AllBlocks fun _ k => k.Complete := by
  have hsteps : ∀ s ∈ filledTwice, ¬ s.IsDirect := by simp [filledTwice, Step.IsDirect]
  have hreached := (Reached.start "m").runAll hsteps
  exact ⟨hsteps, (blocks_end_of_reached hreached).2.1.1 rfl⟩

/-- A value that is returned has the type that the function returns. -/
theorem ret_type_of_reached {b : Builder} (h : Reached (fun s => ¬ s.IsDirect) b) :
    b.module.AllBlocks fun t k => ∀ v, .ret v ∈ k.instrs → v.type.same t = true := by
  refine h.allBlocks ?_ ?_
  · intro t name id v hv
    cases hv
  · intro f k i offset hp hk v hv
    rcases (List.mem_insertIdx hp.inside).1 hv with hi | hv
    · exact hp.returned v hi.symm
    · exact hk v hv

/-- The block returns what the function declares: nothing if that is void, else a value of that
type. -/
def Block.ReturnsDeclared (f : Func) (k : Block) : Prop :=
  if f.returns.isVoid then k.instrs.getLast? = some .retVoid
  else ∃ v, k.instrs.getLast? = some (.ret v) ∧ v.type.same f.returns = true

/-- Every block of a verified module ends in a return without a value, or in one with a value of the
type that the function returns. So it returns what is declared exactly if it has no value to return
just where the declared type has none; no builder checks that. -/
theorem last_of_verified {b : Builder} (h : Reached (fun s => ¬ s.IsRaw) b)
    (hv : b.module.verify = .ok ()) :
    ∀ f ∈ b.module.functions, ∀ k ∈ f.blocks,
      (k.instrs.getLast? = some .retVoid ∨
        ∃ v, k.instrs.getLast? = some (.ret v) ∧ v.type.same f.returns = true) ∧
      (k.ReturnsDeclared f ↔ (f.returns.isVoid = true ↔ k.instrs.getLast? = some .retVoid)) := by
  intro f hf k hk
  have hreached : Reached (fun s => ¬ s.IsDirect) b := by
    refine h.mono fun s hs hd => hs ?_
    cases s with
    | insert block position i => trivial
    | setReturned block returned => trivial
    | _ => cases hd
  have hends := endsOnce_of_reached hreached f hf k hk
  have htypes := ret_type_of_reached hreached f hf k hk
  obtain ⟨front, t, hkt, ht, -⟩ := hends.complete (Module.verify_eq_ok_iff.1 hv f hf k hk)
  have hlast : k.instrs.getLast? = some t := by simp [hkt]
  -- The last instruction is a terminator, and there are only the two returns.
  have hcases : k.instrs.getLast? = some .retVoid ∨
      ∃ v, k.instrs.getLast? = some (.ret v) ∧ v.type.same f.returns = true := by
    cases t with
    | retVoid => exact .inl hlast
    | ret v => exact .inr ⟨v, hlast, htypes v (by simp [hkt])⟩
    | _ => cases ht
  refine ⟨hcases, ?_⟩
  unfold Block.ReturnsDeclared
  rcases hcases with hr | ⟨v, hr, hs⟩
  · cases f.returns.isVoid <;> simp [hr]
  · cases f.returns.isVoid <;> simp [hr, hs]

theorem last_of_verified_filledTwice :
    (∀ s ∈ filledTwice.take 9, ¬ s.IsRaw) ∧
    ∀ f ∈ (Step.runAll (filledTwice.take 9) (.ofModule (.empty "m"))).module.functions,
      ∀ k ∈ f.blocks, k.instrs.getLast? = some .retVoid ∨
        ∃ v, k.instrs.getLast? = some (.ret v) ∧ v.type.same f.returns = true := by
  have hsteps : ∀ s ∈ filledTwice.take 9, ¬ s.IsRaw := by
    simp [filledTwice, Step.IsRaw, Step.IsDirect]
  have hreached := (Reached.start "m").runAll hsteps
  exact ⟨hsteps, fun f hf k hk => (last_of_verified hreached rfl f hf k hk).1⟩

/-- A function that returns a whole number, ended by a return without a value. -/
def bareReturn : List Step :=
  [.addFunction "f" .i32 [], .addBlock ⟨0⟩ "entry", .builderAt ⟨⟨0⟩, 0⟩ .stop, .ret none]

/-- It was built through a builder and is verified, but it does not return what it declares. -/
theorem not_returnsDeclared_bareReturn :
    ∃ b : Builder, Reached (fun s => ¬ s.IsRaw) b ∧ b.module.verify = .ok () ∧
      ∃ f ∈ b.module.functions, ∃ k ∈ f.blocks, ¬ k.ReturnsDeclared f := by
  have hsteps : ∀ s ∈ bareReturn, ¬ s.IsRaw := by
    simp [bareReturn, Step.IsRaw, Step.IsDirect]
  refine ⟨_, (Reached.start "m").runAll hsteps, rfl, _, List.mem_cons_self, _,
    List.mem_cons_self, ?_⟩
  rintro ⟨v, hv, -⟩
  cases hv

end FrontEnd.IR
