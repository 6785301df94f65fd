import FrontEnd.Proofs.RenderedExpr
import FrontEnd.Proofs.Rounding

/-! The text of a double reads back as the double. Whether the digits of a decimal are written with an
exponent or with zeros around them, what is read has the same significant digits and the same
magnitude, so it is rounded to the same double. Hence no two doubles that literals stand for have one
text, and none has the text of a whole number. -/

namespace FrontEnd.Number

open FrontEnd.Grammar FrontEnd.Segment

theorem digitsFrom_append (n : Nat) (cs ds : List Char) :
    digitsFrom n (cs ++ ds) = digitsFrom (digitsFrom n cs) ds :=
  List.foldl_append

theorem digitsFrom_zeros (n k : Nat) : digitsFrom n (List.replicate k '0') = n * 10 ^ k := by
  induction k generalizing n with
  | zero => simp [digitsFrom]
  | succ k ih =>
    have hstep : digitsFrom n (List.replicate (k + 1) '0') =
        digitsFrom (10 * n) (List.replicate k '0') := by
      rw [List.replicate_succ, digitsFrom, List.foldl_cons]
      rfl
    rw [hstep, ih, Nat.pow_succ, Nat.mul_comm 10, Nat.mul_assoc, Nat.mul_comm 10]

theorem digitsFrom_toDigits (n : Nat) : digitsFrom 0 (Nat.toDigits 10 n) = n :=
  Nat.ofDigitChars_ten_toDigits

theorem toList_toString_ofNat (n : Nat) : (toString (Int.ofNat n)).toList = Nat.toDigits 10 n := by
  simp [toString, Int.repr]

theorem toList_toString_negSucc (n : Nat) :
    (toString (Int.negSucc n)).toList = '-' :: Nat.toDigits 10 (n + 1) := by
  simp [toString, Int.repr]

theorem readSigned?_toString (z : Int) : readSigned? (toString z).toList = some z := by
  cases z with
  | ofNat n =>
    have hsign : unsigned (Nat.toDigits 10 n) = (false, Nat.toDigits 10 n) :=
      unsigned_of_isDigit fun c hc => isDigit_of_mem_toDigits (List.mem_of_mem_head? hc)
    rw [toList_toString_ofNat, readSigned?, hsign]
    simp [readNat?_toDigits]
  | negSucc n =>
    rw [toList_toString_negSucc, readSigned?, unsigned]
    simp [readNat?_toDigits, Int.negSucc_eq]

section Parts

variable {whole fraction tail : List Char}

theorem toLower_of_isDigit {c : Char} (h : Text.isDigit c = true) : c.toLower = c := by
  have hc : c.val.toNat ≤ 57 := (isDigit_iff.1 h).2
  refine dif_neg ?_
  rintro ⟨hge, -⟩
  have hnat : 65 ≤ c.val.toNat := UInt32.le_iff_toNat_le.1 hge
  omega

/-- The words that stand for no number begin with a letter. -/
theorem not_word_of_isDigit {cs : List Char} (hne : cs ≠ [])
    (h : ∀ c ∈ cs.head?, Text.isDigit c = true) :
    ¬ (cs.map Char.toLower = "inf".toList ∨ cs.map Char.toLower = "infinity".toList) ∧
      ¬ cs.map Char.toLower = "nan".toList := by
  obtain ⟨c, cs, rfl⟩ := List.exists_cons_of_ne_nil hne
  have hc := h c rfl
  have hi : c ≠ 'i' := by
    rintro rfl
    exact absurd hc (by decide)
  have hn : c ≠ 'n' := by
    rintro rfl
    exact absurd hc (by decide)
  simp [toLower_of_isDigit hc, hi, hn]

/-- Digits with a point among them, and what follows them. -/
theorem readMagnitude?_of_point (negative : Bool) (hw : whole ≠ [])
    (hdw : ∀ c ∈ whole, Text.isDigit c = true) (hdf : ∀ c ∈ fraction, Text.isDigit c = true)
    (ht : ∀ c ∈ tail.head?, Text.isDigit c = false) :
    readMagnitude? negative (whole ++ '.' :: (fraction ++ tail)) = (readExponent? tail).map fun e =>
      .ofDecimal negative (digitsFrom 0 (whole ++ fraction)) (e - fraction.length) := by
  have hpoint : ∀ c ∈ ('.' :: (fraction ++ tail)).head?, Text.isDigit c = false := by
    rintro c ⟨⟩
    decide
  obtain ⟨htake, hdrop⟩ := takeWhile_run hdw hpoint
  obtain ⟨htake', hdrop'⟩ := takeWhile_run hdf ht
  have hhead : ∀ c ∈ (whole ++ '.' :: (fraction ++ tail)).head?, Text.isDigit c = true := by
    rw [List.head?_append_of_ne_nil _ hw]
    exact fun c hc => hdw c (List.mem_of_mem_head? hc)
  obtain ⟨hword, hnan⟩ := not_word_of_isDigit (by simp) hhead
  simp only [readMagnitude?, if_neg hword, if_neg hnan, htake, hdrop, htake', hdrop']
  rw [if_neg fun h => hw h.1]

/-- Digits without a point in front of an exponent. -/
theorem readMagnitude?_of_exponent (negative : Bool) (hw : whole ≠ [])
    (hdw : ∀ c ∈ whole, Text.isDigit c = true) (tail : List Char) :
    readMagnitude? negative (whole ++ 'e' :: tail) = (readSigned? tail).map fun e =>
      .ofDecimal negative (digitsFrom 0 whole) e := by
  have he : ∀ c ∈ ('e' :: tail).head?, Text.isDigit c = false := by
    rintro c ⟨⟩
    decide
  obtain ⟨htake, hdrop⟩ := takeWhile_run hdw he
  have hhead : ∀ c ∈ (whole ++ 'e' :: tail).head?, Text.isDigit c = true := by
    rw [List.head?_append_of_ne_nil _ hw]
    exact fun c hc => hdw c (List.mem_of_mem_head? hc)
  obtain ⟨hword, hnan⟩ := not_word_of_isDigit (by simp) hhead
  simp only [readMagnitude?, if_neg hword, if_neg hnan, htake, hdrop]
  rw [if_neg fun h => hw h.1]
  simp [readExponent?]

end Parts

namespace Decimal

variable {d : Decimal}

theorem toDigits_eq_significant (d : Decimal) :
    ∃ k, Nat.toDigits 10 d.digits = d.significant ++ List.replicate k '0' := by
  generalize hds : (Nat.toDigits 10 d.digits).reverse = ds
  have hzeros : ds.takeWhile (· == '0') =
      List.replicate (ds.takeWhile (· == '0')).length '0' := by
    refine List.eq_replicate_iff.2 ⟨rfl, fun c hc => ?_⟩
    simpa using List.mem_takeWhile_imp hc
  refine ⟨(ds.takeWhile (· == '0')).length, ?_⟩
  calc
    Nat.toDigits 10 d.digits = ds.reverse := by rw [← hds, List.reverse_reverse]
    _ = (ds.takeWhile (· == '0') ++ ds.dropWhile (· == '0')).reverse := by
      rw [List.takeWhile_append_dropWhile]
    _ = (ds.dropWhile (· == '0')).reverse ++ (ds.takeWhile (· == '0')).reverse :=
      List.reverse_append
    _ = d.significant ++ List.replicate (ds.takeWhile (· == '0')).length '0' := by
      rw [hzeros, List.reverse_replicate, List.length_replicate, significant, hds]

theorem isDigit_of_mem_significant {c : Char} (h : c ∈ d.significant) : Text.isDigit c = true := by
  obtain ⟨k, hk⟩ := d.toDigits_eq_significant
  exact isDigit_of_mem_toDigits (hk ▸ List.mem_append_left _ h)

/-- The significant digits, put to their magnitude, are the decimal. -/
theorem ofDecimal_significant (h : 0 < d.digits) (negative : Bool) :
    0 < digitsFrom 0 d.significant ∧
    Binary64.ofDecimal negative (digitsFrom 0 d.significant)
      (d.magnitude + 1 - d.significant.length) =
      Binary64.ofDecimal negative d.digits d.exponent := by
  obtain ⟨k, hk⟩ := d.toDigits_eq_significant
  have hdigits : d.digits = digitsFrom 0 d.significant * 10 ^ k := by
    rw [← digitsFrom_zeros, ← digitsFrom_append, ← hk, digitsFrom_toDigits]
  have hpos : 0 < digitsFrom 0 d.significant := by
    refine Nat.pos_of_ne_zero fun hzero => ?_
    rw [hdigits, hzero, Nat.zero_mul] at h
    cases h
  have hexp : d.magnitude + 1 - d.significant.length - k = d.exponent := by
    rw [magnitude, hk, List.length_append, List.length_replicate]
    omega
  refine ⟨hpos, ?_⟩
  rw [← Binary64.ofDecimal_mul_pow hpos negative _ k, hexp, ← hdigits]

theorem significant_ne_nil (h : 0 < d.digits) : d.significant ≠ [] := by
  intro hnil
  have hpos := (ofDecimal_significant h false).1
  rw [hnil] at hpos
  cases hpos

theorem isDigit_of_mem_zeros {n : Nat} {c : Char} (h : c ∈ List.replicate n '0') :
    Text.isDigit c = true := by
  rw [List.eq_of_mem_replicate h]
  decide

/-- Without an exponent, the significant digits stand around a point with zeros around them, and the
point is where the magnitude has it. -/
theorem positional_parts (h : 0 < d.digits) :
    ∃ (whole fraction : List Char) (n : Nat), d.positional = whole ++ '.' :: fraction ∧ whole ≠ [] ∧
      (∀ c ∈ whole, Text.isDigit c = true) ∧ (∀ c ∈ fraction, Text.isDigit c = true) ∧
      digitsFrom 0 (whole ++ fraction) = digitsFrom 0 d.significant * 10 ^ n ∧
      d.magnitude + 1 + fraction.length = d.significant.length + n := by
  have hds : ∀ c ∈ d.significant, Text.isDigit c = true := fun c => isDigit_of_mem_significant
  have hzeros : ∀ n, ∀ c ∈ List.replicate n '0', Text.isDigit c = true :=
    fun n c => isDigit_of_mem_zeros
  have hne := significant_ne_nil h
  simp only [positional]
  split
  · next hsmall =>
    -- All digits are behind the point, and zeros are in front of them.
    refine ⟨['0'], List.replicate (-(d.magnitude + 1)).toNat '0' ++ d.significant, 0, rfl, by simp,
      hzeros 1, List.forall_mem_append.2 ⟨hzeros _, hds⟩, ?_, ?_⟩
    · rw [← List.append_assoc, digitsFrom_append, Nat.pow_zero, Nat.mul_one]
      congr 1
      exact (digitsFrom_append 0 ['0'] _).trans ((digitsFrom_zeros 0 _).trans (Nat.zero_mul _))
    · rw [List.length_append, List.length_replicate]
      omega
  · next hlarge =>
    split
    · next hfits =>
      -- All digits are in front of the point, and zeros are behind them.
      refine ⟨_, List.replicate 1 '0', d.magnitude.toNat + 2 - d.significant.length, rfl,
        List.append_ne_nil_of_left_ne_nil hne _, List.forall_mem_append.2 ⟨hds, hzeros _⟩,
        hzeros 1, ?_, ?_⟩
      · rw [List.append_assoc, List.replicate_append_replicate, digitsFrom_append, digitsFrom_zeros]
        congr 2
        omega
      · rw [List.length_replicate]
        omega
    · next hinside =>
      refine ⟨_, _, 0, rfl, ?_, fun c hc => hds c (List.mem_of_mem_take hc),
        fun c hc => hds c (List.mem_of_mem_drop hc), ?_, ?_⟩
      · rw [ne_eq, List.take_eq_nil_iff, not_or]
        exact ⟨by omega, hne⟩
      · rw [List.take_append_drop, Nat.pow_zero, Nat.mul_one]
      · rw [List.length_drop]
        omega

/-- With an exponent, the point is behind the first digit, or there is none. -/
theorem scientific_parts (h : 0 < d.digits) :
    ∃ c cs, d.significant = c :: cs ∧ d.scientific =
      [c] ++ (if cs = [] then [] else '.' :: cs) ++ 'e' :: (toString d.magnitude).toList := by
  obtain ⟨c, cs, hds⟩ := List.exists_cons_of_ne_nil (significant_ne_nil h)
  refine ⟨c, cs, hds, ?_⟩
  cases cs with
  | nil => simp [scientific, hds]
  | cons c' cs => simp [scientific, hds]

theorem readMagnitude?_positional (h : 0 < d.digits) (negative : Bool) :
    readMagnitude? negative d.positional = some (.ofDecimal negative d.digits d.exponent) := by
  obtain ⟨hpos, hvalue⟩ := ofDecimal_significant h negative
  obtain ⟨whole, fraction, n, hchars, hw, hdw, hdf, hdigits, hpoint⟩ := positional_parts h
  have hend : ∀ c ∈ ([] : List Char).head?, Text.isDigit c = false := nofun
  have hread := readMagnitude?_of_point negative hw hdw hdf hend
  have hexp : (0 : Int) - fraction.length = d.magnitude + 1 - d.significant.length - n := by omega
  rw [List.append_nil] at hread
  rw [hchars, hread, readExponent?, Option.map_some, hdigits, hexp,
    Binary64.ofDecimal_mul_pow hpos, hvalue]

theorem readMagnitude?_scientific (h : 0 < d.digits) (negative : Bool) :
    readMagnitude? negative d.scientific = some (.ofDecimal negative d.digits d.exponent) := by
  obtain ⟨-, hvalue⟩ := ofDecimal_significant h negative
  obtain ⟨c, cs, hds, hchars⟩ := scientific_parts h
  have hdigit : ∀ c ∈ d.significant, Text.isDigit c = true := fun c => isDigit_of_mem_significant
  rw [hds, List.forall_mem_cons] at hdigit
  have hc : ∀ b ∈ [c], Text.isDigit b = true := by simpa using hdigit.1
  have hexp : d.magnitude - cs.length = d.magnitude + 1 - (c :: cs).length := by
    rw [List.length_cons]
    omega
  rw [← hvalue, hds, hchars]
  cases cs with
  | nil =>
    have hread := readMagnitude?_of_exponent negative (List.cons_ne_nil c []) hc
      (toString d.magnitude).toList
    rw [readSigned?_toString, Option.map_some] at hread
    simpa using hread
  | cons c' cs =>
    have he : ∀ b ∈ ('e' :: (toString d.magnitude).toList).head?, Text.isDigit b = false := by
      rintro b ⟨⟩
      decide
    have hread := readMagnitude?_of_point negative (List.cons_ne_nil c []) hc hdigit.2 he
    rw [readExponent?, if_pos (.inl rfl), readSigned?_toString, Option.map_some, hexp] at hread
    simpa using hread

theorem readMagnitude?_chars (h : 0 < d.digits) (negative : Bool) :
    readMagnitude? negative d.chars = some (.ofDecimal negative d.digits d.exponent) := by
  rw [chars]
  split
  · exact readMagnitude?_positional h negative
  · exact readMagnitude?_scientific h negative

/-- What may stand behind the first digits of a double. -/
def isTailPart (c : Char) : Bool :=
  Text.isDigit c || c == '.' || c == 'e' || c == '-'

theorem isTailPart_of_isDigit {c : Char} (h : Text.isDigit c = true) : isTailPart c = true := by
  simp [isTailPart, h]

theorem isTailPart_of_mem_toString {z : Int} {c : Char} (h : c ∈ (toString z).toList) :
    isTailPart c = true := by
  cases z with
  | ofNat n =>
    rw [toList_toString_ofNat] at h
    exact isTailPart_of_isDigit (isDigit_of_mem_toDigits h)
  | negSucc n =>
    rw [toList_toString_negSucc] at h
    obtain rfl | h := List.mem_cons.1 h
    · decide
    · exact isTailPart_of_isDigit (isDigit_of_mem_toDigits h)

/-- Digits come first, and then a point or an exponent. -/
theorem chars_form (h : 0 < d.digits) :
    ∃ whole mark tail, d.chars = whole ++ mark :: tail ∧ whole ≠ [] ∧
      (∀ c ∈ whole, Text.isDigit c = true) ∧ Text.isDigit mark = false ∧
      ∀ c ∈ mark :: tail, isTailPart c = true := by
  have hdigit : ∀ c ∈ d.significant, Text.isDigit c = true := fun c => isDigit_of_mem_significant
  have hexp : ∀ c ∈ 'e' :: (toString d.magnitude).toList, isTailPart c = true :=
    List.forall_mem_cons.2 ⟨by decide, fun c => isTailPart_of_mem_toString⟩
  rw [chars]
  split
  · obtain ⟨whole, fraction, n, hchars, hw, hdw, hdf, -⟩ := positional_parts h
    exact ⟨whole, '.', fraction, hchars, hw, hdw, by decide,
      List.forall_mem_cons.2 ⟨by decide, fun c hc => isTailPart_of_isDigit (hdf c hc)⟩⟩
  · obtain ⟨c, cs, hds, hchars⟩ := scientific_parts h
    rw [hds, List.forall_mem_cons] at hdigit
    have hc : ∀ b ∈ [c], Text.isDigit b = true := by simpa using hdigit.1
    cases cs with
    | nil => exact ⟨[c], 'e', _, hchars, by simp, hc, by decide, hexp⟩
    | cons c' cs =>
      refine ⟨[c], '.', c' :: cs ++ 'e' :: (toString d.magnitude).toList, ?_, by simp, hc,
        by decide, ?_⟩
      · simpa using hchars
      · refine List.forall_mem_cons.2 ⟨by decide, List.forall_mem_append.2 ⟨?_, hexp⟩⟩
        exact fun b hb => isTailPart_of_isDigit (hdigit.2 b hb)

end Decimal

namespace Binary64

/-- A double that a decimal without a sign is rounded to. -/
def Rounded (x : Binary64) : Prop :=
  ∃ digits exponent, ofDecimal false digits exponent = x

/-- What is read from digits is rounded. -/
theorem rounded_of_readMagnitude? {cs : List Char} {x : Binary64} (hne : cs ≠ [])
    (h : ∀ c ∈ cs.head?, Text.isDigit c = true) (hread : readMagnitude? false cs = some x) :
    Rounded x := by
  obtain ⟨hword, hnan⟩ := not_word_of_isDigit hne h
  simp only [readMagnitude?, if_neg hword, if_neg hnan] at hread
  split at hread
  all_goals
    split at hread
    · cases hread
    · obtain ⟨e, -, rfl⟩ := Option.map_eq_some_iff.1 hread
      exact ⟨_, _, rfl⟩

theorem ofDecimal_cases (negative : Bool) (digits : Nat) (exponent : Int) :
    ofDecimal negative digits exponent = infinite negative ∨
      ∃ units, ofDecimal negative digits exponent = finite negative units := by
  unfold ofDecimal ofRatio
  split
  · exact .inr ⟨0, rfl⟩
  · split
    · exact .inl rfl
    · dsimp only
      split
      · exact .inr ⟨_, rfl⟩
      · exact .inl rfl

theorem Rounded.cases {x : Binary64} (h : Rounded x) :
    x = infinite false ∨ x = finite false 0 ∨
      ∃ units, 0 < units ∧ Fits units ∧ x = finite false units := by
  obtain ⟨digits, exponent, rfl⟩ := h
  obtain hx | ⟨units, hx⟩ := ofDecimal_cases false digits exponent
  · exact .inl hx
  · obtain rfl | h0 := Nat.eq_zero_or_pos units
    · exact .inr (.inl hx)
    · exact .inr (.inr ⟨units, h0, fits_of_ofDecimal hx h0, hx⟩)

theorem toList_text {units : Nat} (h : 0 < units) :
    (finite false units).text.toList = (Decimal.shortest units).chars := by
  simp [text, Nat.ne_of_gt h]

/-- The text of a rounded double reads back as the double. -/
theorem readFloat?_text {x : Binary64} (h : Rounded x) : readFloat? x.text = some x := by
  obtain rfl | rfl | ⟨units, h0, hfits, rfl⟩ := h.cases
  · decide
  · decide
  · have hreads := Decimal.readsAs_shortest hfits h0
    have hpos := Decimal.digits_pos_of_readsAs hreads h0
    obtain ⟨whole, mark, tail, hchars, hw, hdw, -⟩ := Decimal.chars_form hpos
    have hhead : ∀ c ∈ (Decimal.shortest units).chars.head?, Text.isDigit c = true := by
      rw [hchars, List.head?_append_of_ne_nil _ hw]
      exact fun c hc => hdw c (List.mem_of_mem_head? hc)
    rw [readFloat?, toList_text h0, unsigned_of_isDigit hhead]
    refine (Decimal.readMagnitude?_chars hpos false).trans ?_
    exact congrArg some (of_decide_eq_true hreads)

/-- The text of a rounded double is of few characters, and not all of them are digits. -/
theorem text_form {x : Binary64} (h : Rounded x) :
    (∀ c ∈ x.text.toList, Decimal.isTailPart c = true ∨ c ∈ ['i', 'n', 'f']) ∧
      ∃ c ∈ x.text.toList, Text.isDigit c = false := by
  obtain rfl | rfl | ⟨units, h0, hfits, rfl⟩ := h.cases
  · have htext : (infinite false).text.toList = ['i', 'n', 'f'] := rfl
    rw [htext]
    exact ⟨fun c hc => .inr hc, 'i', by simp, rfl⟩
  · have htext : (finite false 0).text.toList = ['0', '.', '0'] := rfl
    rw [htext]
    exact ⟨by simp [Decimal.isTailPart, Text.isDigit], '.', by simp, rfl⟩
  · have hpos := Decimal.digits_pos_of_readsAs (Decimal.readsAs_shortest hfits h0) h0
    obtain ⟨whole, mark, tail, hchars, -, hdw, hmark, htail⟩ := Decimal.chars_form hpos
    rw [toList_text h0, hchars]
    refine ⟨List.forall_mem_append.2 ⟨fun c hc => ?_, fun c hc => .inl (htail c hc)⟩, mark, by simp,
      hmark⟩
    exact .inl (Decimal.isTailPart_of_isDigit (hdw c hc))

end Binary64

end FrontEnd.Number
