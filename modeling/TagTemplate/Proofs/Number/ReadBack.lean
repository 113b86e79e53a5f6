/-
The texts of numbers read back as the numbers. For an integer that is a matter of its
digits; for a double the text has the digits of the shortest decimal, with a point and
perhaps an exponent, and what is read is another form of that decimal.

`IsMagnitude` is what all these texts look like behind their sign. No text of a double
consists of digits only, so none reads as an integer.
-/
import TagTemplate.Number.Reader
import TagTemplate.Proofs.Double.ReadBack
import TagTemplate.Token

namespace TagTemplate.Number

open Double

/-! ## Digits -/

def AllDigits (ds : List Char) : Prop := ∀ c ∈ ds, c.isDigit = true

theorem AllDigits.append {ds es : List Char} (hd : AllDigits ds) (he : AllDigits es) :
    AllDigits (ds ++ es) := fun c hc => (List.mem_append.1 hc).elim (hd c) (he c)

theorem allDigits_zeros (n : Nat) : AllDigits (List.replicate n '0') := by
  intro c hc
  rw [List.eq_of_mem_replicate hc]
  rfl

theorem allDigits_toDigits (n : Nat) : AllDigits (Nat.toDigits 10 n) := fun _ hc =>
  Nat.isDigit_of_mem_toDigits (by decide) (by decide) hc

/-- The first digit of a number that is not zero is none either. -/
theorem head?_toDigits {n : Nat} (h : n ≠ 0) : (Nat.toDigits 10 n).head? ≠ some '0' := by
  induction n using Nat.strongRecOn with
  | ind n ih =>
    by_cases hn : n < 10
    · rw [Nat.toDigits_of_lt_base hn]
      simpa using h
    · rw [Nat.toDigits_of_base_le (by decide) (Nat.not_lt.1 hn),
        List.head?_append_of_ne_nil _ Nat.toDigits_ne_nil]
      exact ih (n / 10) (by omega) (by omega)

theorem ofDigits_append (ds es : List Char) :
    ofDigits (ds ++ es) = ofDigits ds * 10 ^ es.length + ofDigits es := by
  simp only [ofDigits]
  rw [Nat.ofDigitChars_append, Nat.ofDigitChars_eq_ofDigitChars_zero, Nat.mul_comm]

theorem ofDigits_zeros (n : Nat) : ofDigits (List.replicate n '0') = 0 :=
  Nat.ofDigitChars_replicate_zero.trans (Nat.mul_zero _)

theorem ofDigits_append_zeros (ds : List Char) (n : Nat) :
    ofDigits (ds ++ List.replicate n '0') = ofDigits ds * 10 ^ n := by
  rw [ofDigits_append, ofDigits_zeros, List.length_replicate, Nat.add_zero]

theorem ofDigits_zeros_append (n : Nat) (ds : List Char) :
    ofDigits (List.replicate n '0' ++ ds) = ofDigits ds := by
  rw [ofDigits_append, ofDigits_zeros, Nat.zero_mul, Nat.zero_add]

theorem ofDigits_toDigits (n : Nat) : ofDigits (Nat.toDigits 10 n) = n :=
  Nat.ofDigitChars_ten_toDigits

/-- A run of characters ends where something else begins. -/
theorem takeWhile_run {α : Type} {p : α → Bool} {cs rest : List α} (hall : ∀ c ∈ cs, p c = true)
    (hstop : ∀ c ∈ rest.head?, p c = false) :
    (cs ++ rest).takeWhile p = cs ∧ (cs ++ rest).dropWhile p = rest := by
  rw [List.takeWhile_append_of_pos hall, List.dropWhile_append_of_pos hall]
  cases rest with
  | nil => exact ⟨List.append_nil cs, rfl⟩
  | cons c rest =>
    have hc : ¬p c = true := by
      rw [hstop c rfl]
      exact Bool.false_ne_true
    rw [List.takeWhile_cons_of_neg hc, List.dropWhile_cons_of_neg hc, List.append_nil]
    exact ⟨rfl, rfl⟩

theorem eq_dropFinalZeros_append (ds : List Char) :
    ∃ k, ds = dropFinalZeros ds ++ List.replicate k '0' := by
  have hzeros : ∀ c ∈ (ds.reverse.takeWhile (· = '0')).reverse, c = '0' := by
    intro c hc
    have hall : (ds.reverse.takeWhile (· = '0')).all (· = '0') = true := List.all_takeWhile
    exact of_decide_eq_true (List.all_eq_true.1 hall c (List.mem_reverse.1 hc))
  refine ⟨(ds.reverse.takeWhile (· = '0')).reverse.length, ?_⟩
  rw [← List.eq_replicate_of_mem hzeros, dropFinalZeros, ← List.reverse_append,
    List.takeWhile_append_dropWhile, List.reverse_reverse]

/-! ## Decimal texts -/

theorem readDecimal?_point {whole fraction rest : List Char} {e : Int} (hw : AllDigits whole)
    (hne : ¬(whole = [] ∧ fraction = [])) (hf : AllDigits fraction)
      (hr : ∀ c ∈ rest.head?, c.isDigit = false)
    (he : readExponent? rest = some e) :
    readDecimal? (whole ++ '.' :: (fraction ++ rest)) =
      some ⟨ofDigits (whole ++ fraction), e - fraction.length⟩ := by
  have hpoint : ∀ c ∈ ('.' :: (fraction ++ rest)).head?, c.isDigit = false := by
    intro c hc
    cases hc
    rfl
  obtain ⟨htake, hdrop⟩ := takeWhile_run hw hpoint
  obtain ⟨htake', hdrop'⟩ := takeWhile_run hf hr
  simp only [readDecimal?, htake, hdrop, splitFraction, htake', hdrop', hne, if_false, he,
    Option.map_some]

theorem readDecimal?_whole {whole rest : List Char} {e : Int} (hw : AllDigits whole)
    (hne : whole ≠ []) (hr : ∀ c ∈ rest.head?, c.isDigit = false ∧ c ≠ '.')
    (he : readExponent? rest = some e) :
    readDecimal? (whole ++ rest) = some ⟨ofDigits whole, e⟩ := by
  obtain ⟨htake, hdrop⟩ := takeWhile_run hw fun c hc => (hr c hc).1
  have hsplit : splitFraction rest = ([], rest) := by
    unfold splitFraction
    split
    · next cs => exact absurd rfl (hr '.' rfl).2
    · rfl
  simp only [readDecimal?, htake, hdrop, hsplit, hne, false_and, if_false, he, Option.map_some,
    List.append_nil, List.length_nil, Int.natCast_zero, Int.sub_zero]

theorem signed_natAbs (e : Int) : signed (decide (e < 0)) e.natAbs = e := by
  unfold signed
  split
  · next h =>
    have := of_decide_eq_true h
    omega
  · next h =>
    have := of_decide_eq_false (Bool.eq_false_iff.2 h)
    omega

theorem splitSign_sign (negative : Bool) (ds : List Char) :
    splitSign ((if negative then '-' else '+') :: ds) = (negative, ds) := by
  cases negative <;> rfl

theorem readExponent?_exponentText (e : Int) : readExponent? ('e' :: exponentText e) = some e := by
  have hsplit : splitSign (exponentText e) = (decide (e < 0),
      List.replicate (2 - (Nat.toDigits 10 e.natAbs).length) '0' ++ Nat.toDigits 10 e.natAbs) := by
    rw [← splitSign_sign]
    simp only [decide_eq_true_eq, exponentText, List.cons_append]
  have hdigits : AllDigits
      (List.replicate (2 - (Nat.toDigits 10 e.natAbs).length) '0' ++ Nat.toDigits 10 e.natAbs) :=
    (allDigits_zeros _).append (allDigits_toDigits _)
  simp only [readExponent?, hsplit]
  rw [if_pos ⟨.inl trivial, by simp [Nat.toDigits_ne_nil], List.all_eq_true.2 hdigits⟩,
    ofDigits_zeros_append, ofDigits_toDigits, signed_natAbs]

/-- Digits with a point in their midst or beside them are read as the same number. -/
theorem readDecimal?_positional {ds : List Char} (hd : AllDigits ds) (hne : ds ≠ []) (point : Int) :
    ∃ d, readDecimal? (positional ds point) = some d ∧
      d.value = (⟨ofDigits ds, point - ds.length⟩ : Decimal).value := by
  have hnil : readExponent? [] = some 0 := rfl
  unfold positional
  split
  · next hpoint =>
    have hfraction := (allDigits_zeros (-point).toNat).append hd
    have hread := readDecimal?_point (allDigits_zeros 1) (by simp) hfraction (by simp) hnil
    rw [List.append_nil] at hread
    refine ⟨_, hread, ?_⟩
    rw [ofDigits_zeros_append, ofDigits_zeros_append, List.length_append, List.length_replicate]
    congr 2
    omega
  next hpoint =>
  simp only
  split
  · next hle =>
    obtain ⟨k, hk⟩ := Nat.exists_eq_add_of_le hle
    have hwhole := hd.append (allDigits_zeros k)
    have hread := readDecimal?_point hwhole (by simp [hne]) (allDigits_zeros 1) (by simp) hnil
    rw [List.append_nil] at hread
    rw [hk, Nat.add_sub_cancel_left]
    refine ⟨_, hread, ?_⟩
    rw [List.append_assoc, List.replicate_append_replicate, ofDigits_append_zeros,
      Decimal.value_zeros, List.length_replicate]
    congr 2
    omega
  · next hlt =>
    have htake : AllDigits (ds.take point.toNat) := fun c hc => hd c (List.mem_of_mem_take hc)
    have hdrop : AllDigits (ds.drop point.toNat) := fun c hc => hd c (List.mem_of_mem_drop hc)
    have hsides : ¬(ds.take point.toNat = [] ∧ ds.drop point.toNat = []) := fun h => by
      have := ds.take_append_drop point.toNat
      rw [h.1, h.2] at this
      exact hne this.symm
    have hread := readDecimal?_point htake hsides hdrop (by simp) hnil
    rw [List.append_nil, List.take_append_drop, List.length_drop] at hread
    refine ⟨_, hread, ?_⟩
    congr 2
    omega

/-- So are digits with an exponent. -/
theorem readDecimal?_scientific {ds : List Char} (hd : AllDigits ds) (hne : ds ≠ []) (point : Int) :
    readDecimal? (scientific ds point) = some ⟨ofDigits ds, point - ds.length⟩ := by
  have hexp := readExponent?_exponentText (point - 1)
  obtain ⟨c, cs, rfl⟩ := List.exists_cons_of_ne_nil hne
  have hc : AllDigits [c] := fun d hd' => hd d (by rw [List.mem_singleton.1 hd']; simp)
  have he : ∀ d ∈ ('e' :: exponentText (point - 1)).head?, d.isDigit = false ∧ d ≠ '.' := by
    intro d hd'
    cases hd'
    exact ⟨rfl, by decide⟩
  unfold scientific
  cases cs with
  | nil => exact readDecimal?_whole hc (by simp) he hexp
  | cons c' cs =>
    have hcs : AllDigits (c' :: cs) := fun d hd' => hd d (List.mem_cons_of_mem c hd')
    have hread := readDecimal?_point hc (by simp) hcs (fun d hd' => (he d hd').1) hexp
    rw [if_neg (by simp)]
    refine hread.trans ?_
    have hpoint :
        point - 1 - ((c' :: cs).length : Nat) = point - ((c :: c' :: cs).length : Nat) := by
      simp only [List.length_cons]
      omega
    rw [hpoint]
    rfl

/-- The digits of a double, in the form that suits the place of its point. -/
theorem readDecimal?_digits {ds : List Char} (hd : AllDigits ds) (hne : ds ≠ []) (point : Int) :
    ∃ d,
      readDecimal? (if -4 < point ∧ point ≤ 16 then positional ds point else scientific ds point) =
        some d ∧ d.value = (⟨ofDigits ds, point - ds.length⟩ : Decimal).value := by
  split
  · exact readDecimal?_positional hd hne point
  · exact ⟨_, readDecimal?_scientific hd hne point, rfl⟩

/-! ## Texts behind a sign -/

/-- What the text of a number looks like behind its sign. -/
structure IsMagnitude (cs : List Char) : Prop where
  first : ∃ c rest, cs = c :: rest ∧ c.isDigit = true
  allowed : ∀ c ∈ cs, c.isDigit = true ∨ c ∈ ['.', 'e', '+', '-']

/-- A minus sign or nothing. -/
def minus (negative : Bool) : List Char := if negative then ['-'] else []

theorem splitSign_minus {cs : List Char} (h : ∀ c ∈ cs.head?, c ≠ '+' ∧ c ≠ '-') (negative : Bool) :
    splitSign (minus negative ++ cs) = (negative, cs) := by
  cases negative with
  | true => rfl
  | false =>
    simp only [minus, Bool.false_eq_true, if_false, List.nil_append, splitSign]
    split
    · exact absurd rfl (h '-' rfl).2
    · exact absurd rfl (h '+' rfl).1
    · rfl

theorem ne_sign_of_isDigit {c : Char} (hc : c.isDigit = true) : c ≠ '+' ∧ c ≠ '-' := by
  constructor <;> (rintro rfl; cases hc)

theorem IsMagnitude.splitSign {cs : List Char} (h : IsMagnitude cs) (negative : Bool) :
    splitSign (minus negative ++ cs) = (negative, cs) := by
  obtain ⟨c, rest, rfl, hc⟩ := h.first
  refine splitSign_minus (fun d hd => ?_) negative
  rw [← Option.mem_some.1 hd]
  exact ne_sign_of_isDigit hc

theorem AllDigits.isMagnitude {ds : List Char} (hd : AllDigits ds) (hne : ds ≠ []) :
    IsMagnitude ds := by
  obtain ⟨c, cs, rfl⟩ := List.exists_cons_of_ne_nil hne
  exact ⟨⟨c, cs, rfl, hd c (by simp)⟩, fun d hd' => .inl (hd d hd')⟩

/-- What may follow the text of a magnitude so that both together are one. -/
theorem IsMagnitude.append {cs ds : List Char} (h : IsMagnitude cs)
    (hd : ∀ c ∈ ds, c.isDigit = true ∨ c ∈ ['.', 'e', '+', '-']) : IsMagnitude (cs ++ ds) := by
  obtain ⟨c, rest, rfl, hc⟩ := h.first
  refine ⟨⟨c, rest ++ ds, rfl, hc⟩, fun d hd' => ?_⟩
  exact (List.mem_append.1 hd').elim (h.allowed d) (hd d)

theorem isMagnitude_positional {ds : List Char} (hd : AllDigits ds) (hne : ds ≠ []) (point : Int) :
    IsMagnitude (positional ds point) ∧ '.' ∈ positional ds point := by
  have hpoint : ∀ es, AllDigits es →
      ∀ c ∈ '.' :: es, c.isDigit = true ∨ c ∈ ['.', 'e', '+', '-'] := by
    intro es hes c hc
    rcases List.mem_cons.1 hc with rfl | hc
    · exact .inr (by simp)
    · exact .inl (hes c hc)
  unfold positional
  split
  · next hle =>
    have hzero := (allDigits_zeros 1).isMagnitude (by simp)
    exact ⟨hzero.append (hpoint _ ((allDigits_zeros (-point).toNat).append hd)), by simp⟩
  simp only
  split
  · next hle =>
    have hwhole := hd.append (allDigits_zeros (point.toNat - ds.length))
    exact ⟨(hwhole.isMagnitude (by simp [hne])).append (hpoint _ (allDigits_zeros 1)), by simp⟩
  · next hpos hlt =>
    have htake : AllDigits (ds.take point.toNat) := fun c hc => hd c (List.mem_of_mem_take hc)
    have hdrop : AllDigits (ds.drop point.toNat) := fun c hc => hd c (List.mem_of_mem_drop hc)
    have hne' : ds.take point.toNat ≠ [] := by
      rw [Ne, List.take_eq_nil_iff, not_or]
      exact ⟨by omega, hne⟩
    exact ⟨(htake.isMagnitude hne').append (hpoint _ hdrop), by simp⟩

theorem isMagnitude_scientific {ds : List Char} (hd : AllDigits ds) (hne : ds ≠ []) (point : Int) :
    IsMagnitude (scientific ds point) ∧ 'e' ∈ scientific ds point := by
  have hexp : ∀ e, ∀ c ∈ 'e' :: exponentText e, c.isDigit = true ∨ c ∈ ['.', 'e', '+', '-'] := by
    intro e c hc
    simp only [exponentText, List.mem_cons, List.mem_append] at hc
    rcases hc with rfl | (rfl | hc) | hc
    · exact .inr (by simp)
    · split <;> exact .inr (by simp)
    · exact .inl (allDigits_zeros _ c hc)
    · exact .inl (allDigits_toDigits _ c hc)
  obtain ⟨c, cs, rfl⟩ := List.exists_cons_of_ne_nil hne
  have hc : IsMagnitude [c] :=
    AllDigits.isMagnitude (fun d hd' => hd d (by rw [List.mem_singleton.1 hd']; simp)) (by simp)
  unfold scientific
  refine ⟨(hc.append ?_).append (hexp _), by simp⟩
  split
  · simp
  · intro d hd'
    rcases List.mem_cons.1 hd' with rfl | hd'
    · exact .inr (by simp)
    · exact .inl (hd d (List.mem_cons_of_mem c hd'))

/-! ## Doubles -/

/-- A text that reads as the magnitude of this rank, and not as a whole number. -/
structure ReadsAs (cs : List Char) (rank : Nat) : Prop where
  magnitude : IsMagnitude cs
  notDigits : ¬AllDigits cs
  reads : ∃ d, readDecimal? cs = some d ∧ rankOfDecimal d = rank

theorem not_allDigits {cs : List Char} {c : Char} (h : c ∈ cs) (hc : c.isDigit = false) :
    ¬AllDigits cs := by
  intro hd
  rw [hd c h] at hc
  cases hc

theorem readsAs_infinity : ReadsAs ['1', 'e', '9', '9', '9'] infinityRank where
  magnitude := by
    have hone : IsMagnitude ['1'] := AllDigits.isMagnitude (by simp [AllDigits]) (by simp)
    exact hone.append (by simp)
  notDigits := not_allDigits (c := 'e') (by decide) rfl
  reads := ⟨⟨1, 999⟩, by decide, rfl⟩

theorem readsAs_digits {ds : List Char} (hd : AllDigits ds) (hne : ds ≠ []) {point : Int}
    {rank : Nat} (hvalue : rankOfDecimal ⟨ofDigits ds, point - ds.length⟩ = rank) :
    ReadsAs (if -4 < point ∧ point ≤ 16 then positional ds point else scientific ds point)
      rank := by
  obtain ⟨d, hread, hd'⟩ := readDecimal?_digits hd hne point
  have hrank : rankOfDecimal d = rank := (rankOfDecimal_congr hd').trans hvalue
  refine ⟨?_, ?_, d, hread, hrank⟩
  · split
    · exact (isMagnitude_positional hd hne point).1
    · exact (isMagnitude_scientific hd hne point).1
  · split
    · exact not_allDigits (isMagnitude_positional hd hne point).2 rfl
    · exact not_allDigits (isMagnitude_scientific hd hne point).2 rfl

/-- The text of a positive double has the digits of its shortest decimal, but for zeros at the
end of these. -/
theorem exists_magnitudeText {rank : Nat} (hzero : rank ≠ 0) (h : rank < infinityRank) :
    ∃ (ds : List Char) (point : Int), AllDigits ds ∧ ds ≠ [] ∧
      magnitudeText rank =
        (if -4 < point ∧ point ≤ 16 then positional ds point else scientific ds point) ∧
      (⟨ofDigits ds, point - ds.length⟩ : Decimal).value = (shortestDecimal rank).value := by
  have hread := rankOfDecimal_shortestDecimal (Nat.le_of_lt h)
  simp only [magnitudeText, if_neg (Nat.ne_of_lt h), if_neg hzero, Decimal.digits]
  generalize shortestDecimal rank = d at hread
  obtain ⟨c, e⟩ := d
  obtain ⟨k, hk⟩ := eq_dropFinalZeros_append (Nat.toDigits 10 c)
  generalize dropFinalZeros (Nat.toDigits 10 c) = ds at hk
  have hdigits : AllDigits ds := fun d hd => allDigits_toDigits c d (by rw [hk]; simp [hd])
  have hcoefficient : c = ofDigits ds * 10 ^ k := by
    rw [← ofDigits_append_zeros, ← hk, ofDigits_toDigits]
  have hne : ds ≠ [] := by
    rintro rfl
    rw [hcoefficient, ofDigits, Nat.ofDigitChars_nil, Nat.zero_mul] at hread
    exact hzero hread.symm
  have hlength : (Nat.toDigits 10 c).length = ds.length + k := by
    rw [hk, List.length_append, List.length_replicate]
  refine ⟨ds, _, hdigits, hne, rfl, ?_⟩
  -- The zeros that were dropped are made up for by the exponent.
  have hexponent : ((Nat.toDigits 10 c).length : Int) + e - ds.length = e + k := by omega
  rw [hexponent, ← Decimal.value_zeros, ← hcoefficient]

theorem readsAs_magnitudeText {rank : Nat} (h : rank < infinityRank) :
    ReadsAs (magnitudeText rank) rank := by
  by_cases hzero : rank = 0
  · subst hzero
    have hmagnitude : IsMagnitude ['0'] := (allDigits_zeros 1).isMagnitude (by simp)
    show ReadsAs (['0'] ++ ['.', '0']) 0
    exact ⟨hmagnitude.append (by simp), not_allDigits (c := '.') (by decide) rfl,
      ⟨0, -1⟩, by decide, rfl⟩
  · obtain ⟨ds, point, hdigits, hne, htext, hvalue⟩ := exists_magnitudeText hzero h
    rw [htext]
    exact readsAs_digits hdigits hne
      ((rankOfDecimal_congr hvalue).trans (rankOfDecimal_shortestDecimal (Nat.le_of_lt h)))

/-- The text of a double in a tag, behind its sign. -/
theorem exists_doubleText (negative : Bool) {rank : Nat} (h : rank ≤ infinityRank) :
    ∃ cs, ReadsAs cs rank ∧
      Token.doubleText (.ranked negative rank h) = String.ofList (minus negative ++ cs) := by
  by_cases hinf : rank = infinityRank
  · subst hinf
    exact ⟨_, readsAs_infinity, by cases negative <;> rfl⟩
  · refine ⟨_, readsAs_magnitudeText (Nat.lt_of_le_of_ne h hinf), ?_⟩
    rw [Token.doubleText, isInfinite, if_neg (by simpa using hinf)]
    rfl

theorem readFinite?_of_readsAs {cs : List Char} {rank : Nat} (hcs : ReadsAs cs rank)
    (negative : Bool) (h : rank ≤ infinityRank) :
    readFinite? (.ofList (minus negative ++ cs)) = some (.ranked negative rank h) := by
  obtain ⟨d, hd, rfl⟩ := hcs.reads
  simp only [readFinite?, String.toList_ofList, hcs.magnitude.splitSign, hd, Option.map_some,
    ofDecimal, ofRank, Nat.min_eq_left h]

theorem readInt64?_of_readsAs {cs : List Char} {rank : Nat} (hcs : ReadsAs cs rank)
    (negative : Bool) : readInt64? (.ofList (minus negative ++ cs)) = .ok none := by
  have hall : cs.all Char.isDigit = false := by
    rw [Bool.eq_false_iff, Ne, List.all_eq_true]
    exact hcs.notDigits
  have hread : readInteger? (.ofList (minus negative ++ cs)) = .ok none := by
    simp only [readInteger?, String.toList_ofList, hcs.magnitude.splitSign, hall, Bool.not_false,
      Bool.or_true, if_true]
  rw [readInt64?, hread]
  rfl

/-! ## Integers -/

theorem integerText_eq (n : Int) :
    integerText n = .ofList (minus (decide (n < 0)) ++ Nat.toDigits 10 n.natAbs) := by
  simp only [integerText, integerChars, minus, decide_eq_true_eq]

theorem isMagnitude_toDigits (n : Nat) : IsMagnitude (Nat.toDigits 10 n) :=
  (allDigits_toDigits n).isMagnitude Nat.toDigits_ne_nil

/-- An integer is read back from its text unless that has too many digits. -/
theorem readInteger?_integerText (n : Int) :
    readInteger? (integerText n) =
      if digitLimit < Decimal.size n.natAbs then .error (.tooManyDigits (Decimal.size n.natAbs))
      else .ok (some n) := by
  have hall : (Nat.toDigits 10 n.natAbs).all Char.isDigit = true :=
    List.all_eq_true.2 (allDigits_toDigits _)
  have hempty : (Nat.toDigits 10 n.natAbs).isEmpty = false := by simp [Nat.toDigits_ne_nil]
  rw [integerText_eq, readInteger?, String.toList_ofList, (isMagnitude_toDigits _).splitSign]
  simp only [hall, hempty, Bool.not_true, Bool.or_self, Bool.false_eq_true, if_false,
    ofDigits_toDigits, signed_natAbs]
  rfl

theorem fitsInt64_eq_true_iff (n : Int) :
    fitsInt64 n = true ↔ -0x8000000000000000 ≤ n ∧ n < 0x8000000000000000 := by
  have hmin : Int64.minValue.toInt = -0x8000000000000000 := by decide
  have hmax : Int64.maxValue.toInt = 0x7fffffffffffffff := by decide
  simp only [fitsInt64, Bool.and_eq_true, decide_eq_true_eq, hmin, hmax]
  omega

theorem fitsInt64_toInt (n : Int64) : fitsInt64 n.toInt = true :=
  (fitsInt64_eq_true_iff _).2 ⟨n.le_toInt, n.toInt_lt⟩

theorem toInt_ofInt_of_fitsInt64 {n : Int} (h : fitsInt64 n = true) :
    (Int64.ofInt n).toInt = n := by
  obtain ⟨hlow, hhigh⟩ := (fitsInt64_eq_true_iff n).1 h
  exact Int64.toInt_ofInt_of_le hlow hhigh

/-- The text of an integer of 64 bits is far from too long. -/
theorem size_le_of_fitsInt64 {n : Int} (h : fitsInt64 n = true) :
    Decimal.size n.natAbs ≤ digitLimit := by
  have hsize : (Nat.toDigits 10 n.natAbs).length ≤ 19 := by
    rw [Nat.length_toDigits_le_iff (by decide) (by decide)]
    have hrange := (fitsInt64_eq_true_iff n).1 h
    omega
  exact Nat.le_trans hsize (by decide)

theorem readInt64?_integerText {n : Int} (h : fitsInt64 n = true) :
    readInt64? (integerText n) = .ok (some (Int64.ofInt n)) := by
  rw [readInt64?, readInteger?_integerText, if_neg (Nat.not_lt.2 (size_le_of_fitsInt64 h))]
  simp only [Except.map, Option.filter, h, if_true, Option.map_some]

theorem readDecimal?_toDigits (n : Nat) : readDecimal? (Nat.toDigits 10 n) = some ⟨n, 0⟩ := by
  have hwhole := readDecimal?_whole (allDigits_toDigits n) Nat.toDigits_ne_nil
    (by simp) (show readExponent? [] = some 0 from rfl)
  rwa [List.append_nil, ofDigits_toDigits] at hwhole

theorem ofDecimal_natAbs (n : Int) : ofDecimal (n < 0) ⟨n.natAbs, 0⟩ = Double.ofInt n := by
  have hrank : rankOfDecimal ⟨n.natAbs, 0⟩ = nearestRank (n.natAbs * one) 1 := by
    simp [rankOfDecimal_eq]
  rw [ofDecimal, hrank, Double.ofInt, ofUnits]

/-- The double that a text of digits reads as is the one nearest to the integer. -/
theorem readFinite?_integerText (n : Int) :
    readFinite? (integerText n) = some (Double.ofInt n) := by
  simp only [readFinite?, integerText_eq, String.toList_ofList, (isMagnitude_toDigits _).splitSign,
    readDecimal?_toDigits, Option.map_some, ofDecimal_natAbs]

/-! ## Numbers -/

/-- An integer beyond 64 bits reads as a double. -/
theorem ofString?_integerText {n : Int} (h : Decimal.size n.natAbs ≤ digitLimit) :
    ofString? (integerText n) =
      .ok (some (if fitsInt64 n then .integer (Int64.ofInt n) else .double (Double.ofInt n))) := by
  split
  · next hfits =>
    rw [ofString?, readInt64?_integerText hfits]
    rfl
  · next hfits =>
    have hread : readInt64? (integerText n) = .ok none := by
      rw [readInt64?, readInteger?_integerText, if_neg (Nat.not_lt.2 h)]
      simp [Except.map, Option.filter, hfits]
    rw [ofString?, hread, readDouble?, readFinite?_integerText]
    rfl

theorem ofString?_integerText_long {n : Int} (h : digitLimit < Decimal.size n.natAbs) :
    ofString? (integerText n) = .error (.tooManyDigits (Decimal.size n.natAbs)) := by
  rw [ofString?, readInt64?, readInteger?_integerText, if_pos h]
  rfl

theorem ofString?_of_readsAs {cs : List Char} {rank : Nat} (hcs : ReadsAs cs rank) (negative : Bool)
    (h : rank ≤ infinityRank) :
    ofString? (.ofList (minus negative ++ cs)) =
      .ok (some (.double (.ranked negative rank h))) := by
  rw [ofString?, readInt64?_of_readsAs hcs, readDouble?, readFinite?_of_readsAs hcs negative h]
  rfl

theorem ofString?_doubleText (x : Double) :
    ofString? (Token.doubleText x) = .ok (some (.double x)) := by
  cases x with
  | nan => rfl
  | ranked negative rank bounded =>
    obtain ⟨cs, hcs, htext⟩ := exists_doubleText negative bounded
    rw [htext]
    exact ofString?_of_readsAs hcs negative bounded

/-- **Every number is read back from its characters**, with its kind and, on a zero, with its
sign. -/
theorem ofString?_text (v : Number) : ofString? v.text = .ok (some v) := by
  cases v with
  | integer n =>
    have hfits := fitsInt64_toInt n
    have hread := ofString?_integerText (size_le_of_fitsInt64 hfits)
    rwa [if_pos hfits, Int64.ofInt_toInt] at hread
  | double x =>
    cases x with
    | nan => rfl
    | ranked negative rank bounded =>
      rcases Nat.lt_or_eq_of_le bounded with hfinite | rfl
      · exact ofString?_of_readsAs (readsAs_magnitudeText hfinite) negative bounded
      · have htext : magnitudeText infinityRank = "inf".toList := if_pos rfl
        show ofString? (.ofList (minus negative ++ magnitudeText infinityRank)) = _
        rw [htext]
        cases negative <;> rfl

/-- **Every number is read back from its text.** -/
theorem ofText?_text (v : Number) : ofText? v.text = .ok (some v) :=
  (ofText?_ofString _).trans (ofString?_text v)

end TagTemplate.Number
